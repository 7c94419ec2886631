import DurableTask.Executor.Ledger
import DurableTask.Guarantees.Results
import DurableTask.Runtime.Joined

/-! # A result that is missing

An orchestrator that starts its activities together and joins them is suspended
as long as one result is missing: the slot of that call holds a task without a
value, whatever the other slots hold.
-/

namespace DurableTask

open Interaction OrchestrationExecutorContext

variable {R : Type} {toJson : List R → Except String String} {decode : Decoder R}
  {calls : List ActivityCall} {i : ℕ}

section Unresolved

variable {env : Env} {ctx ctx' : OrchestrationExecutorContext} {t : TaskRef}
  {a : OrchestratorAction}

theorem Delivery.unresolved {k : EventKind} (hdel : Delivery env ctx k ctx') (hd : ctx.Drained)
    (hl : ctx.Linked) (hn : k.completion a.id = none) (h : ctx.world.Unresolved t a) :
    ctx'.world.Unresolved t a := by
  obtain ⟨c, hc, ho, h⟩ := h
  by_cases hw : c.At .waiting
  swap
  · exact ⟨c, hdel.evolves hd hl hc hw, ho, h⟩
  have same (hc' : ctx'.world.cells[t]? = some c) : ctx'.world.Unresolved t a := ⟨c, hc', ho, h⟩
  cases hdel with
  | send id v message polls u w hlk hs =>
    obtain ⟨d, -, -, rfl⟩ := World.send_ok hs
    refine same ((List.getElem?_set_ne ?_).trans hc)
    rintro rfl
    obtain ⟨a', ho', hid, -⟩ := hl.task_at (.inl hlk) hc
    rw [ho] at ho'
    cases ho'
    rw [EventKind.completion, if_pos hid.symm] at hn
    cases hn
  | close id message polls u hlk =>
    by_cases hu : u = t
    · subst hu
      exact ⟨{ c with task.unblockRx := .closed }, by simp [World.dropSender, hc], ho,
        .inr (.inr hw.close)⟩
    · exact same (by simp [World.dropSender, hu, hc])
  | give e u waiters w hlk hs =>
    obtain ⟨d, -, -, rfl⟩ := World.send_ok hs
    refine same ((List.getElem?_set_ne ?_).trans hc)
    rintro rfl
    rw [(hl.waiter_at (mem_waiters_of_lookup hd hlk) hc).1] at ho
    cases ho
  | _ => exact same hc

theorem Move.unresolved (hm : Move env ctx ctx') (hl : ctx.Linked) (hf : ctx.Fresh 0)
    (h : ctx.world.Unresolved t a) : ctx'.world.Unresolved t a := by
  obtain ⟨c, hc, ho, h⟩ := h
  obtain ⟨c', hc', ho', hab, hev⟩ := hm.cells hc
  refine ⟨c', hc', ho'.trans ho, ?_⟩
  by_cases ha : c.Abandoned
  · exact .inl (hab ha)
  refine (hev ?_).unresolved h
  by_cases hw : c.At .waiting
  · exact hf.kept hl hc ho (Cell.Holds.live hw ha)
  · exact hl.kept_of_not_waiting hc hw

theorem Moves.unresolved (hm : Moves env ctx ctx') (hl : ctx.Linked) (hf : ctx.Fresh 0)
    (h : ctx.world.Unresolved t a) : ctx'.world.Unresolved t a := by
  induction hm with
  | refl => exact h
  | tail hms hm ih => exact hm.unresolved (Moves.linked hms hl) (Moves.fresh hms hf) ih

theorem Tracked.unresolved (h : Tracked ctx t a none) : ctx.world.Unresolved t a := by
  obtain ⟨c, hc, ho, h⟩ := h
  exact ⟨c, hc, ho, h.imp_right .inl⟩

theorem run_fanOut_first (toJson : List R → Except String String) (decode : Decoder R) (env : Env)
    (hne : calls ≠ []) (instanceId : String) (input : Option String) (w : World) :
    (((fanOut toJson decode calls).call instanceId input).poll
        ((fanOut toJson decode calls).call instanceId input).state).run (handle env) w =
      .ok (.suspended (slots decode calls 0 fun j => .inl (some (w.cells.length + j))),
        scheduleAll calls w) := by
  have hfirst : (Future.pollAll _ (Future.initial (calls.map (ActivityCall.future decode)))).run
      (handle env) w = .ok (slots decode calls 0 fun j => .inl (some (w.cells.length + j)),
        scheduleAll calls w) := by
    rw [initial_eq_slots (k := 0)]
    exact run_pollAll_first
  have hv : Future.values _ (slots decode calls 0 fun j => .inl (some (w.cells.length + j))) =
      none := (holdsTask_slots (List.length_pos_of_ne_nil hne) rfl).values
  have hjoin := Future.run_joinAll_suspended hfirst hv
  exact (run_fanOut toJson instanceId input _ w).trans ((congrArg (Except.map _) hjoin).trans rfl)

/-- The program is the fan-out, and the slot of the call holds a task that is unresolved. -/
def BlockedOn (toJson : List R → Except String String) (decode : Decoder R)
    (calls : List ActivityCall) (i : ℕ) (w : World) (f : TaskFuture (OrchestratorResult String)) :
    Prop :=
  ∃ (instanceId : String) (input : Option String)
    (s : Future.States (calls.map (ActivityCall.future decode))) (t : TaskRef)
    (a : OrchestratorAction),
    f = ((fanOut toJson decode calls).call instanceId input).resume s ∧
      HoldsTask t calls i s ∧ a.id = i + 1 ∧ w.Unresolved t a

section Blocked

variable {w w₁ : World} {f : TaskFuture (OrchestratorResult String)}

theorem BlockedOn.mono (h : BlockedOn toJson decode calls i w f)
    (hu : ∀ t a, a.id = (i : Int) + 1 → w.Unresolved t a → w₁.Unresolved t a) :
    BlockedOn toJson decode calls i w₁ f := by
  obtain ⟨instanceId, input, s, t, a, hf, hs, hid, h⟩ := h
  exact ⟨instanceId, input, s, t, a, hf, hs, hid, hu t a hid h⟩

theorem BlockedOn.polled {w' : World} {p : Progress f.State (OrchestratorResult String)}
    (h : BlockedOn toJson decode calls i w f)
    (hu : ∀ t a, a.id = (i : Int) + 1 → w.Unresolved t a → w₁.Unresolved t a)
    (hr : (f.poll f.state).run (handle env) { w₁ with notified := false } = .ok (p, w')) :
    ∃ s, p = .suspended s ∧ BlockedOn toJson decode calls i w (f.resume s) := by
  obtain ⟨instanceId, input, s, t, a, rfl, hs, hid, h⟩ := h
  have hr' := (run_fanOut toJson instanceId input s _).symm.trans hr
  obtain ⟨⟨q, w₂⟩, hq, he⟩ := Except.exists_of_map hr'
  cases he
  have hwoken : ({ w₁ with notified := false } : World).Unresolved t a := hu t a hid h
  obtain ⟨s', hs', ⟨rfl, -⟩ | ⟨rs, rfl, hv⟩⟩ := Future.run_joinAll_ok hq
  · exact ⟨s', rfl, instanceId, input, s', t, a, rfl, hs.run hwoken hs', hid, h⟩
  · rw [(hs.run hwoken hs').values] at hv
    cases hv

end Blocked

end Unresolved

namespace OrchestrationExecutorFuture

variable {self : OrchestrationExecutorFuture} {ctx ctx₁ ctx' : OrchestrationExecutorContext}
  {past history : List HistoryEvent} {e : HistoryEvent}

/-- If the event starts an orchestrator, then this one. -/
def StartsOnly (executor : OrchestrationExecutorFuture) (func : OrchestratorFunction)
    (e : HistoryEvent) : Prop :=
  ∀ s func', e.kind = .start s → executor.registry.getOrchestrator s.name = some func' →
    func' = func

/-- If an orchestrator runs, it is the fan-out, and it is blocked on the call. -/
def Blocked (toJson : List R → Except String String) (decode : Decoder R)
    (calls : List ActivityCall) (i : ℕ) (ctx : OrchestrationExecutorContext) : Prop :=
  ∀ base f, ctx.orchestratorFn = some (.suspended base f) →
    BlockedOn toJson decode calls i ctx.world f

/-- An event without a payload for the call finds the orchestrator blocked and leaves it so. -/
theorem Blocked.step (hr : self.replay past = .ok ctx) (hb : Blocked toJson decode calls i ctx)
    (hs : e.isStart = false) (hn : e.kind.completion (i + 1) = none)
    (he : self.processEvent ctx e = .ok ctx') :
    Blocked toJson decode calls i ctx'.drain ∧ self.returns ctx e.kind = none := by
  have hreg := replay_regular hr
  have delivered {ctx₁ : OrchestrationExecutorContext} (hdel : Delivery self.env ctx e.kind ctx₁)
      (t : TaskRef) (a : OrchestratorAction) (hid : a.id = (i : Int) + 1)
      (hu : ctx.world.Unresolved t a) : ctx₁.world.Unresolved t a :=
    hdel.unresolved hreg.drained hreg.linked (hid ▸ hn) hu
  have unresolved (t : TaskRef) (a : OrchestratorAction) (hid : a.id = (i : Int) + 1)
      (hu : ctx.world.Unresolved t a) : ctx'.drain.world.Unresolved t a := by
    obtain ⟨ctx₁, hdel, hm⟩ := processEvent_moves hreg.incomplete hs he
    exact Moves.unresolved (hm.trans (drain_moves self.env ctx'))
      (hdel.linked hreg.drained hreg.linked) (hdel.fresh (replay_fresh hr))
      (delivered hdel t a hid hu)
  have still (hfn : ctx'.orchestratorFn = ctx.orchestratorFn) :
      Blocked toJson decode calls i ctx'.drain := by
    intro base f hf
    rw [drain_orchestratorFn, hfn] at hf
    exact (hb base f hf).mono unresolved
  have ht := processEvent_turn hreg.incomplete he
  have hstart : e.kind.isStart = false := hs
  generalize e.kind = k at hstart delivered ht
  cases ht with
  | rest hdel ha hk => exact ⟨still hdel.orchestratorFn, by simp [returns, ha]⟩
  | tick timestamp currentTimeUtc => exact ⟨still rfl, rfl⟩
  | terminate => exact ⟨still (executionTerminated_frame ctx).1, rfl⟩
  | acknowledge id => exact ⟨still rfl, rfl⟩
  | unknown s hr => cases hstart
  | begin hr hrun => cases hstart
  | forget hr hrun => cases hstart
  | suspend hdel hfn ha hrun =>
    obtain ⟨s, hp, hb'⟩ := (hb _ _ (hdel.orchestratorFn ▸ hfn)).polled (delivered hdel) hrun
    cases hp
    constructor
    · intro base f hf
      rw [drain_orchestratorFn] at hf
      cases hf
      exact hb'.mono unresolved
    · rw [returns, ha, Option.bind_some, Activation.returns_suspended hrun]
  | report hk hdel hfn ha hrun =>
    obtain ⟨s, hp, -⟩ := (hb _ _ (hdel.orchestratorFn ▸ hfn)).polled (delivered hdel) hrun
    cases hp
  | discard hfn hrun =>
    obtain ⟨s, hp, -⟩ := (hb _ _ hfn).polled (fun t a _ hu => hu) hrun
    cases hp

theorem tracked_of_origin {t : ℕ} {a : OrchestratorAction} (hr : self.replay past = .ok ctx)
    (he : self.processEvent ctx e = .ok ctx') (ht : ctx.world.cells.length ≤ t)
    (ho : (ctx'.world.cells.map Cell.origin)[t]? = some (.action a)) :
    Tracked ctx'.drain t a none := by
  rw [← drain_origins, List.getElem?_map] at ho
  obtain ⟨c, hc, ho⟩ := Option.map_eq_some_iff.mp ho
  exact tracked_of_new hr (replay_append_ok hr he) ht hc ho

theorem Blocked.start (hr : self.replay past = .ok ctx) (hb : Blocked toJson decode calls i ctx)
    (hi : i < calls.length) (hstart : self.StartsOnly (fanOut toJson decode calls) e)
    (hs : e.isStart = true) (he : self.processEvent ctx e = .ok ctx') :
    Blocked toJson decode calls i ctx'.drain := by
  have hreg := replay_regular hr
  have hne : calls ≠ [] := List.ne_nil_of_length_pos (Nat.zero_lt_of_lt hi)
  have h₁ := replay_append_ok hr he
  obtain ⟨s, hk⟩ := HistoryEvent.isStart_iff.mp hs
  have ht := processEvent_turn hreg.incomplete he
  rw [hk] at ht
  obtain rfl | ⟨func, w, hfunc, -, ⟨s', hrun, rfl⟩ | ⟨r, hrun, rfl⟩⟩ := ht.start_cases
  · rw [drain_of_drained hreg.drained]
    exact hb
  · obtain rfl := hstart s func hk hfunc
    have hfirst := (run_fanOut_first toJson decode self.env hne self.instanceId s.input
      _).symm.trans hrun
    cases hfirst
    intro base f hf
    rw [drain_orchestratorFn] at hf
    cases hf
    refine ⟨self.instanceId, s.input, _, ctx.world.cells.length + i, calls[i].action (0 + i + 1),
      rfl, holdsTask_slots hi (by simp), by simp [ActivityCall.action, newScheduleTaskAction], ?_⟩
    have horigin := scheduleAll_origin (w := { ctx.world with
      octx := .new self.instanceId s.input, notified := false }) hi
    rw [← World.dropBefore_origins] at horigin
    exact (tracked_of_origin hr he (Nat.le_add_right _ _) horigin).unresolved
  · obtain rfl := hstart s func hk hfunc
    have hfirst := (run_fanOut_first toJson decode self.env hne self.instanceId s.input
      _).symm.trans hrun
    cases hfirst

theorem replay_blocked (h : self.replay history = .ok ctx) (hi : i < calls.length)
    (hstart : ∀ e ∈ history, self.StartsOnly (fanOut toJson decode calls) e)
    (hk : ∀ e ∈ history, e.kind ≠ .terminate)
    (hn : ∀ e ∈ history, e.kind.completion (i + 1) = none) :
    Blocked toJson decode calls i ctx ∧
      ∀ id a, ctx.pendingActions.lookup id = some a → a.isComplete = false := by
  revert hstart hk hn
  refine processEvents_induct (P := fun history ctx =>
    (∀ e ∈ history, self.StartsOnly (fanOut toJson decode calls) e) →
    (∀ e ∈ history, e.kind ≠ .terminate) → (∀ e ∈ history, e.kind.completion (i + 1) = none) →
    Blocked toJson decode calls i ctx ∧
      ∀ id a, ctx.pendingActions.lookup id = some a → a.isComplete = false) ?_ ?_ h
  · intro _ _ _
    constructor
    · intro base f hf
      cases hf
    · intro id a hl
      cases hl
  · intro past e ctx₁ ctx₂ hr ih he hstart hk hn
    obtain ⟨hb, hpend⟩ := ih (fun e' he' => hstart e' (List.mem_append_left _ he'))
      (fun e' he' => hk e' (List.mem_append_left _ he'))
      fun e' he' => hn e' (List.mem_append_left _ he')
    have hmem : e ∈ past ++ [e] := List.mem_append_right _ (List.mem_singleton_self e)
    obtain ⟨hb', hown⟩ : Blocked toJson decode calls i ctx₂.drain ∧
        self.ownEntry ctx₁ e.kind = [] := by
      cases hs : e.isStart with
      | true =>
        obtain ⟨s, hs'⟩ := HistoryEvent.isStart_iff.mp hs
        exact ⟨hb.start hr hi (hstart e hmem) hs he, by rw [hs']; rfl⟩
      | false =>
        obtain ⟨hb', hret⟩ := hb.step hr hs (hn e hmem) he
        exact ⟨hb', self.ownEntry_of_returns_none (hk e hmem) hret⟩
    refine ⟨hb', fun id a hl => ?_⟩
    obtain ⟨n, l, lost, hbooks⟩ :=
      processEvent_entries (replay_drained hr) (replay_isComplete hr) he
    rcases hbooks.entered hl with hm | ⟨hm, -⟩ | hl
    · rw [hown] at hm
      cases hm
    · exact hbooks.incomplete a hm
    · exact hpend id a hl

end OrchestrationExecutorFuture

end DurableTask
