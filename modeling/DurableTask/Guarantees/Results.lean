import DurableTask.Invariants.Fresh
import DurableTask.Runtime.Orchestrators

/-! # Results reach their tasks

A task waits from its creation until the first completion event that names its
id, and from then on it holds the value of that event. Ids are allocated by the
program and senders are shipped to the executor, so the invariant follows the
task itself: through the polls, the drain, and the completions of other tasks.
-/

namespace DurableTask

open Interaction OrchestrationExecutorContext

def EventKind.completion (id : Int) : EventKind → Option String
  | .resolve id' payload _ _ => if id' = id then payload else none
  | _ => none

def EventKind.carries : EventKind → Bool
  | .resolve _ none _ _ => false
  | _ => true

/-- The task of an action was abandoned, or it holds what it should. -/
def Tracked (ctx : OrchestrationExecutorContext) (t : TaskRef) (a : OrchestratorAction)
    (o : Option String) : Prop :=
  ∃ c, ctx.world.cells[t]? = some c ∧ c.origin = .action a ∧ (c.Abandoned ∨ c.Holds o)

variable {env : Env} {ctx ctx' : OrchestrationExecutorContext} {t : ℕ} {a : OrchestratorAction}
  {o : Option String}

theorem OrchestrationExecutorContext.Fresh.kept (hf : ctx.Fresh 0) (hl : ctx.Linked) {c : Cell}
    (hc : ctx.world.cells[t]? = some c) (ho : c.origin = .action a) (hd : c.dropped = false) :
    ctx.Kept t := by
  intro m hm hlk
  obtain ⟨a', ho', hid, -⟩ := hl.task_at (.inl hlk) hc
  rw [ho] at ho'
  cases ho'
  have ht : m.2 = t := hf.sent ⟨Nat.zero_le t, c, hc, hd, ho⟩ m hm hid.symm
  exact hl.sent_new m hm m.1 (ht ▸ hlk)

theorem Move.tracked (hm : Move env ctx ctx') (hl : ctx.Linked) (hf : ctx.Fresh 0)
    (h : Tracked ctx t a o) : Tracked ctx' t a o := by
  obtain ⟨c, hc, ho, h⟩ := h
  obtain ⟨c', hc', ho', hab, hev⟩ := hm.cells hc
  refine ⟨c', hc', ho'.trans ho, ?_⟩
  by_cases ha : c.Abandoned
  · exact .inl (hab ha)
  have hh := h.resolve_left ha
  refine .inr (hh.evolves (hev ?_))
  by_cases hw : c.At .waiting
  · have hh' := hh.of_waiting hw
    subst hh'
    exact hf.kept hl hc ho (hh.live ha)
  · exact hl.kept_of_not_waiting hc hw

theorem Moves.tracked (hm : Moves env ctx ctx') (hl : ctx.Linked) (hf : ctx.Fresh 0)
    (h : Tracked ctx t a o) : Tracked ctx' t a o := by
  induction hm with
  | refl => exact h
  | tail hms hm ih => exact hm.tracked (Moves.linked hms hl) (Moves.fresh hms hf) ih

/-- A delivery hands a task the value of the first completion event that names it. -/
theorem Delivery.tracked {k : EventKind} (hdel : Delivery env ctx k ctx') (hd : ctx.Drained)
    (hl : ctx.Linked) (hk : k.carries = true) (h : Tracked ctx t a o) :
    Tracked ctx' t a (o.or (k.completion a.id)) := by
  obtain ⟨c, hc, ho, h⟩ := h
  -- a task that is not touched, and that the event does not name or that has its value already
  have same {o' : Option String} (hc' : ctx'.world.cells[t]? = some c)
      (hw : ¬c.Abandoned → c.At .waiting → k.completion a.id = none)
      (ho' : o' = o.or (k.completion a.id)) : Tracked ctx' t a o' := by
    refine ⟨c, hc', ho, ?_⟩
    by_cases ha : c.Abandoned
    · exact .inl ha
    have hh := h.resolve_left ha
    cases o with
    | some v => exact .inr (ho' ▸ hh)
    | none =>
      rw [hw ha hh] at ho'
      exact .inr (ho' ▸ hh)
  cases hdel with
  | send id v message polls u w hlk hs =>
    obtain ⟨d, hdc, hlive, rfl⟩ := World.send_ok hs
    obtain ⟨b, hdo, hid, hwait⟩ := hl.task_at (.inl hlk) hdc
    by_cases hu : u = t
    · subst hu
      rw [hc] at hdc
      cases hdc
      rw [ho] at hdo
      cases hdo
      have ha : ¬c.Abandoned := fun ha => by rw [ha.1] at hlive; cases hlive
      have hh := h.resolve_left ha
      refine ⟨{ c with task.unblockRx := .sent (some v) },
        by simp [(List.getElem?_eq_some_iff.mp hc).1], ho, .inr ?_⟩
      rw [hh.of_waiting hwait, EventKind.completion, if_pos hid.symm]
      exact .inl (hwait.send (some v))
    · refine same (by simp [List.getElem?_set_ne hu, hc]) (fun ha hw => ?_) rfl
      refine if_neg fun hid' => hu ?_
      have hlk' := hl.lookup_of_waiting hd hc ho (Cell.Holds.live hw ha) hw
      rw [← hid', hlk] at hlk'
      exact Option.some.inj hlk'
  | miss id payload message polls hlk =>
    refine same hc (fun ha hw => if_neg fun hid => ?_) rfl
    have hlk' := hl.lookup_of_waiting hd hc ho (Cell.Holds.live hw ha) hw
    rw [← hid, hlk] at hlk'
    cases hlk'
  | close id message polls u hlk => cases hk
  | give e u waiters w hlk hs =>
    obtain ⟨d, hdc, -, rfl⟩ := World.send_ok hs
    have hu : u ≠ t := by
      rintro rfl
      rw [(hl.waiter_at (mem_waiters_of_lookup hd hlk) hc).1] at ho
      cases ho
    exact same (by simp [List.getElem?_set_ne hu, hc]) (fun _ _ => rfl) rfl
  | _ => exact same hc (fun _ _ => rfl) rfl

namespace OrchestrationExecutorFuture

variable {self : OrchestrationExecutorFuture} {ctx₀ ctx₁ : OrchestrationExecutorContext}
  {past later : List HistoryEvent} {e : HistoryEvent}

theorem processEvent_tracked (hr : ctx.Regular) (hf : ctx.Fresh 0) (hs : e.isStart = false)
    (hk : e.kind.carries = true) (he : self.processEvent ctx e = .ok ctx')
    (h : Tracked ctx t a o) : Tracked ctx'.drain t a (o.or (e.kind.completion a.id)) := by
  obtain ⟨ctx₁, hdel, hm⟩ := processEvent_moves hr.incomplete hs he
  exact Moves.tracked (hm.trans (drain_moves self.env ctx')) (hdel.linked hr.drained hr.linked)
    (hdel.fresh hf) (hdel.tracked hr.drained hr.linked hk h)

theorem replay_tracked (h₁ : self.replay past = .ok ctx₁)
    (h : self.replay (past ++ later) = .ok ctx) (hs : later.countP HistoryEvent.isStart = 0)
    (hk : ∀ e ∈ later, e.kind.carries = true) (ht : Tracked ctx₁ t a none) :
    Tracked ctx t a (later.findSome? fun e => e.kind.completion a.id) := by
  rw [replay, processEvents_append_ok h₁] at h
  revert hs hk
  refine processEvents_induct (P := fun later ctx => later.countP HistoryEvent.isStart = 0 →
    (∀ e ∈ later, e.kind.carries = true) →
    Tracked ctx t a (later.findSome? fun e => e.kind.completion a.id)) ?_ ?_ h
  · exact fun _ _ => ht
  · intro q e ctx₂ ctx₃ h₂ ih he hs hk
    rw [List.countP_append, Nat.add_eq_zero_iff, List.countP_singleton] at hs
    have hr : self.replay (past ++ q) = .ok ctx₂ := by
      rw [replay, processEvents_append_ok h₁, h₂]
    rw [List.findSome?_append]
    have hstep := processEvent_tracked (replay_regular hr) (replay_fresh hr) (by simpa using hs.2)
      (hk e (by simp)) he (ih hs.1 fun e' he' => hk e' (List.mem_append_left _ he'))
    simpa using hstep

/-- Every task from a place of the heap on that was issued with an action still waits. -/
def Newborn (base : ℕ) (w : World) : Prop :=
  ∀ (t : ℕ) (c : Cell) (a : OrchestratorAction), base ≤ t → w.cells[t]? = some c →
    c.origin = .action a → c.At .waiting

theorem Newborn.step {base : ℕ} {w w' : World} (h : Newborn base w) (hs : World.Step env w w') :
    Newborn base w' := by
  intro t c a hb hc ho
  rcases Nat.lt_or_ge t w.cells.length with hlt | hge
  · obtain ⟨c', hc', he⟩ := hs.cells (List.getElem?_eq_getElem hlt)
    rw [hc] at hc'
    cases hc'
    exact he.waits (h t _ a hb (List.getElem?_eq_getElem hlt) (he.origin ▸ ho))
  · have hlt := (List.getElem?_eq_some_iff.mp hc).1
    cases hs with
    | issue reads mk hid _ =>
      simp only [World.issue_eq, List.length_append, List.length_singleton] at hlt
      have ht : t = w.cells.length := by omega
      subst ht
      simp at hc
      exact hc ▸ Cell.at_new _
    | take name payload received _ =>
      simp only [List.length_append, List.length_singleton] at hlt
      have ht : t = w.cells.length := by omega
      subst ht
      simp at hc
      subst hc
      cases ho
    | wait name _ =>
      simp only [List.length_append, List.length_singleton] at hlt
      have ht : t = w.cells.length := by omega
      subst ht
      simp at hc
      exact hc ▸ Cell.at_new _
    | poll u d d' r b _ _ => simp at hlt; omega
    | drop u => simp [World.dropTask] at hlt; omega

theorem Newborn.steps {base : ℕ} {w w' : World} (h : Newborn base w) (hs : World.Steps env w w') :
    Newborn base w' :=
  hs.preserves (fun _ _ hs h => h.step hs) h

theorem Newborn.mono {base : ℕ} {w w' : World} (h : Newborn base w)
    (hlen : w'.cells.length = w.cells.length)
    (hcells : ∀ (t : ℕ) (c : Cell), w.cells[t]? = some c →
      ∃ c', w'.cells[t]? = some c' ∧ c.Evolves c') : Newborn base w' := by
  intro t c' a hb hc' ho
  have hlt := hlen ▸ (List.getElem?_eq_some_iff.mp hc').1
  obtain ⟨c₁, hc₁, he⟩ := hcells t _ (List.getElem?_eq_getElem hlt)
  rw [hc'] at hc₁
  cases hc₁
  exact he.waits (h t _ a hb (List.getElem?_eq_getElem hlt) (he.origin ▸ ho))

theorem newborn_length (w : World) : Newborn w.cells.length w := fun _ _ _ hb hc _ =>
  absurd (List.getElem?_eq_some_iff.mp hc).1 (Nat.not_lt.mpr hb)

theorem newborn_of_eq {w w' : World} (h : w'.cells.length = w.cells.length) :
    Newborn w.cells.length w' := h ▸ newborn_length w'

theorem Turn.newborn {k : EventKind} (h : self.Turn ctx k ctx') :
    Newborn ctx.world.cells.length ctx'.world := by
  have woken {ctx₁ : OrchestrationExecutorContext} (hd : Delivery self.env ctx k ctx₁) :
      Newborn ctx.world.cells.length { ctx₁.world with notified := false } :=
    newborn_of_eq hd.length
  cases h with
  | rest hd ha hk => exact newborn_of_eq hd.length
  | tick timestamp currentTimeUtc => exact newborn_length _
  | terminate => exact newborn_of_eq (by rw [(executionTerminated_frame ctx).2])
  | acknowledge id => exact newborn_length _
  | unknown e hr => exact newborn_length _
  | suspend hd hfn ha hrun => exact (woken hd).steps (run_steps hrun)
  | report hk hd hfn ha hrun =>
    exact ((woken hd).steps (run_steps hrun)).mono World.dropFrom_length
      fun _ _ => World.dropFrom_evolves
  | discard hfn hrun =>
    exact ((newborn_length _).steps (run_steps hrun)).mono World.dropFrom_length
      fun _ _ => World.dropFrom_evolves
  | begin hr hrun =>
    exact ((newborn_length _).steps (run_steps hrun)).mono World.dropBefore_length
      fun _ _ => World.dropBefore_evolves
  | forget hr hrun =>
    exact ((newborn_length _).steps (run_steps hrun)).mono World.dropFrom_length
      fun _ _ => World.dropFrom_evolves

theorem tracked_of_new {c : Cell} (h₀ : self.replay past = .ok ctx₀)
    (h₁ : self.replay (past ++ [e]) = .ok ctx₁) (ht : ctx₀.world.cells.length ≤ t)
    (hc : ctx₁.world.cells[t]? = some c) (ho : c.origin = .action a) : Tracked ctx₁ t a none := by
  have hr := replay_regular h₀
  have hf := replay_fresh h₀
  obtain ⟨ctx₂, he, rfl⟩ := replay_snoc h₀ h₁
  have hl := processEvent_linked hr.incomplete hr.drained hr.linked he
  have hnew := (processEvent_turn hr.incomplete he).newborn
  obtain ⟨c', hc', ho'⟩ : ∃ c', ctx₂.world.cells[t]? = some c' ∧ c'.origin = .action a := by
    have hm : (ctx₂.drain.world.cells.map Cell.origin)[t]? = some (.action a) := by
      rw [List.getElem?_map, hc, Option.map_some, ho]
    rw [drain_origins, List.getElem?_map] at hm
    exact Option.map_eq_some_iff.mp hm
  have htr : Tracked ctx₂ t a none := ⟨c', hc', ho', .inr (hnew t c' a ht hc' ho')⟩
  exact Moves.tracked (drain_moves self.env ctx₂) hl (processEvent_fresh hr hf he) htr

/--
A task resolves to the value of the first completion event that names its id after the event
that created it, and is pending if there is none, unless the orchestrator has abandoned it.
-/
theorem replay_resolves {c : Cell} (h₀ : self.replay past = .ok ctx₀)
    (h₁ : self.replay (past ++ [e]) = .ok ctx₁) (ht : ctx₀.world.cells.length ≤ t)
    (hc : ctx₁.world.cells[t]? = some c) (ho : c.origin = .action a)
    (h : self.replay (past ++ e :: later) = .ok ctx)
    (hone : (past ++ e :: later).countP HistoryEvent.isStart ≤ 1)
    (hk : ∀ e ∈ later, e.kind.carries = true) :
    ∃ c', ctx.world.cells[t]? = some c' ∧ c'.origin = .action a ∧ (¬c'.Abandoned →
      match later.findSome? fun e => e.kind.completion a.id with
      | none => c'.Pending
      | some v => c'.Resolves v) := by
  have hs : later.countP HistoryEvent.isStart = 0 := by
    have hstarted : (past ++ [e]).countP HistoryEvent.isStart ≠ 0 := fun hn => by
      rw [(replay_unstarted hn h₁).cells] at hc
      cases hc
    rw [List.append_cons, List.countP_append] at hone
    omega
  rw [List.append_cons] at h
  obtain ⟨c', hc', ho', hh⟩ := replay_tracked h₁ h hs hk (tracked_of_new h₀ h₁ ht hc ho)
  refine ⟨c', hc', ho', fun ha => ?_⟩
  have hh := hh.resolve_left ha
  split
  · rename_i hn
    rw [hn] at hh
    exact hh.pending ha
  · rename_i v hv
    rw [hv] at hh
    exact hh.resolves ha

theorem parallelOrchestration_resolves : ∃ (ctx : OrchestrationExecutorContext) (c : Cell),
    (executorOf parallelOrchestration).replay
      [executionStarted, taskCompleted 2 (some "\"b\""), taskCompleted 1 (some "\"a\"")] = .ok ctx ∧
      ctx.world.cells[0]? = some c ∧ c.Resolves "\"a\"" := by
  obtain ⟨ctx₁, h₁, hc₁⟩ := Except.exists_of_map
    (show ((executorOf parallelOrchestration).replay ([] ++ [executionStarted])).map
      (fun ctx => ctx.world.cells[0]?) = .ok (some (.new (.action
        (newScheduleTaskAction 1 "test_activity" (some "\"test 1\""))))) by decide)
  obtain ⟨ctx, h, hkeep⟩ := Except.exists_of_map
    (show ((executorOf parallelOrchestration).replay
      ([] ++ executionStarted ::
        [taskCompleted 2 (some "\"b\""), taskCompleted 1 (some "\"a\"")])).map (fun ctx =>
          ctx.world.cells.map fun c => decide c.Abandoned) = .ok [false, false] by decide)
  obtain ⟨c, hc, -, hres⟩ :=
    replay_resolves rfl h₁ (Nat.zero_le 0) hc₁ rfl h (by decide) (by decide)
  refine ⟨ctx, c, h, hc, hres fun ha => ?_⟩
  have hm : decide c.Abandoned ∈ [false, false] :=
    hkeep ▸ List.mem_map_of_mem (List.mem_of_getElem? hc)
  simp [ha] at hm

end OrchestrationExecutorFuture

end DurableTask
