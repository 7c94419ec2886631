import DurableTask.Invariants.Fresh
import DurableTask.Runtime.Patient

/-! # Programs that are left alone

A patient program that is suspended stays parked on tasks that are blocked until
one of them is given a value, and the arm that gives one polls the program. The
senders that are replaced in the meantime are those of dropped tasks.
-/

namespace DurableTask

open Interaction Queues OrchestrationExecutorContext

section Drain

variable {ctx : OrchestrationExecutorContext}

theorem takeTask_live (hl : ctx.Linked) (hf : ctx.Fresh 0) {m : Int × TaskRef}
    (hm : m ∈ ctx.world.octx.tasksTx) {t : TaskRef} {c : Cell}
    (hc : ctx.world.cells[t]? = some c) (hd : c.dropped = false) :
    (ctx.takeTask m).world.cells[t]? = some c := by
  rw [takeTask_cells, if_neg, hc]
  intro hlookup
  obtain ⟨a, ho, ha, -⟩ := hl.task_at (.inl hlookup) hc
  have hm₂ : m.2 = t := hf.sent ⟨Nat.zero_le t, c, hc, hd, ho⟩ m hm ha.symm
  exact hl.sent_new m hm m.1 (hm₂ ▸ hlookup)

theorem drainTasks_live (hl : ctx.Linked) (hf : ctx.Fresh 0) {t : TaskRef} {c : Cell}
    (hc : ctx.world.cells[t]? = some c) (hd : c.dropped = false) :
    ctx.drainTasks.world.cells[t]? = some c := by
  have received (l : List (Int × TaskRef)) (ctx : OrchestrationExecutorContext)
      (hmsgs : ctx.world.octx.tasksTx = l) (hl : ctx.Linked) (hf : ctx.Fresh 0)
      (hc : ctx.world.cells[t]? = some c) :
      (l.foldl takeTask { ctx with world.octx.tasksTx := [] }).world.cells[t]? = some c := by
    induction l generalizing ctx with
    | nil => exact hc
    | cons m l ih =>
      have hc' : ({ ctx with world.octx.tasksTx := l }.takeTask m).world.cells[t]? = some c := by
        have hlive := takeTask_live hl hf (m := m) (by simp [hmsgs]) hc hd
        rw [takeTask_cells] at hlive ⊢
        exact hlive
      have hnext : { ctx with world.octx.tasksTx := [] }.takeTask m =
          { ({ ctx with world.octx.tasksTx := l }.takeTask m) with world.octx.tasksTx := [] } := by
        simp only [takeTask]
        cases ctx.pendingTasks.lookup m.1 <;> rfl
      rw [List.foldl_cons, hnext]
      exact ih _ (by rw [takeTask_octx]) (hl.takeTask hmsgs) (hf.takeTask hmsgs) hc'
  exact received ctx.world.octx.tasksTx ctx rfl hl hf hc

theorem drain_live (env : Env) (hl : ctx.Linked) (hf : ctx.Fresh 0) {t : TaskRef} {c : Cell}
    (hc : ctx.world.cells[t]? = some c) (hd : c.dropped = false) :
    ctx.drain.world.cells[t]? = some c := by
  have hm : Moves env ctx ctx.drainActions := drainActions_moves ctx
  have ha : ctx.drainActions.world.cells = ctx.world.cells := by
    rw [drainActions, foldl_takeAction]
  have he (ctx : OrchestrationExecutorContext) :
      ctx.drainEvents.world.cells = ctx.world.cells := by
    obtain ⟨events, h⟩ := foldl_takeWaiter ctx.world.octx.eventsTx
      { ctx with world.octx.eventsTx := [] }
    rw [drainEvents, h]
  unfold drain
  split
  · rw [he]
    exact drainTasks_live (Moves.linked hm hl) (Moves.fresh hm hf) (ha ▸ hc) hd
  · exact hc

theorem drain_budget : ctx.drain.world.budget = ctx.world.budget := by
  by_cases hfn : ctx.orchestratorFn.isSome
  · obtain ⟨tasks, events, cells, h⟩ := drain_eq hfn
    rw [h]
  · rw [drain_of_none (by simpa using hfn)]

theorem drain_hopeful (env : Env) (hl : ctx.Linked) (hf : ctx.Fresh 0) (h : ctx.world.Hopeful) :
    ctx.drain.world.Hopeful := by
  refine h.of_cells fun t c' hc' hd => ?_
  have hsame : ctx.drain.world.cells.map Cell.dropped = ctx.world.cells.map Cell.dropped :=
    drain_dropped
  have hlen : ctx.drain.world.cells.length = ctx.world.cells.length := by
    simpa using congrArg List.length hsame
  have hlt := (List.getElem?_eq_some_iff.mp hc').1
  have hc := List.getElem?_eq_getElem (hlen ▸ hlt : t < ctx.world.cells.length)
  have hdropped := congrArg (fun l => l[t]?) hsame
  simp only [List.getElem?_map, hc', hc, Option.map_some, Option.some.injEq] at hdropped
  rw [drain_live env hl hf hc (hdropped ▸ hd)] at hc'
  cases hc'
  exact ⟨_, hc, .refl _⟩

theorem drain_blocked (env : Env) (hl : ctx.Linked) (hf : ctx.Fresh 0) {t : TaskRef}
    (h : ctx.world.Blocked t) : ctx.drain.world.Blocked t := by
  obtain ⟨c, hc, hp⟩ := h
  refine ⟨c, drain_live env hl hf hc (Cell.poll_frame hp).2.1, ?_⟩
  rw [drain_budget]
  exact hp

end Drain

variable {env : Env} {ctx ctx' : OrchestrationExecutorContext} {w w' : World}

theorem World.Hopeful.set {t : TaskRef} {c : Cell} (h : w.Hopeful) (hc : c.Hopeful)
    (hw : w'.cells = w.cells.set t c) : w'.Hopeful := by
  intro u d hd hlive
  rw [hw] at hd
  by_cases hu : t = u
  · subst hu
    have hlt := (List.getElem?_eq_some_iff.mp hd).1
    rw [List.getElem?_set_self (by simpa using hlt)] at hd
    cases hd
    exact hc
  · rw [List.getElem?_set_ne hu] at hd
    exact h u d hd hlive

/-- A completion carries a payload, and its arm polls. -/
def EventKind.Answers (k : EventKind) : Prop :=
  ∀ id payload message polls, k = .resolve id payload message polls →
    payload.isSome ∧ polls = true

theorem EventKind.Answers.ne_close {k : EventKind} (hk : k.Answers) (id : Int)
    (message : String) (polls : Bool) : k ≠ .resolve id none message polls := by
  rintro rfl
  obtain ⟨h, -⟩ := hk id none message polls rfl
  cases h

theorem Delivery.hopeful {k : EventKind} (hd : Delivery env ctx k ctx') (hl : ctx.Linked)
    (hdr : ctx.Drained) (hk : k.Answers) (h : ctx.world.Hopeful) : ctx'.world.Hopeful := by
  cases hd with
  | send id v message polls t w hlookup hs =>
    obtain ⟨c, hc, -, rfl⟩ := World.send_ok hs
    obtain ⟨a, -, -, hw⟩ := hl.task_at (.inl hlookup) hc
    exact h.set (.of_at (hw.send (some v)) (by simp [Stage.sent])) rfl
  | close id message polls t hlookup => exact absurd rfl (hk.ne_close id message polls)
  | give e t waiters w hlookup hs =>
    obtain ⟨c, hc, -, rfl⟩ := World.send_ok hs
    have hw := (hl.waiter_at (mem_waiters_of_lookup hdr hlookup) hc).2
    exact h.set (.of_at (hw.send e.input) (by cases e.input <;> simp [Stage.sent])) rfl
  | _ => exact h

namespace OrchestrationExecutorFuture

variable {self : OrchestrationExecutorFuture} {e : HistoryEvent} {history : List HistoryEvent}

/-- Every registered orchestrator drops no task and does nothing when it is polled in vain. -/
def Patient (self : OrchestrationExecutorFuture) : Prop :=
  ∀ name func input, self.registry.getOrchestrator name = some func →
    TaskFuture.Patient self.env (func.call self.instanceId input)

/-- The suspended program is patient, and parked where it is. -/
structure Resting (executor : OrchestrationExecutorFuture) (ctx : OrchestrationExecutorContext) :
    Prop where
  hopeful : ctx.world.Hopeful
  patient : ∀ base f, ctx.orchestratorFn = some (.suspended base f) →
    TaskFuture.Patient executor.env f
  parked : ∀ base f, ctx.orchestratorFn = some (.suspended base f) →
    f.Parks (handle executor.env) World.Blocked f.state ctx.world

theorem Resting.mono (h : self.Resting ctx) (hfn : ctx'.orchestratorFn = ctx.orchestratorFn)
    (hw : ctx'.world.cells = ctx.world.cells) (hb : ctx'.world.budget = ctx.world.budget) :
    self.Resting ctx' where
  hopeful t c hc hd := h.hopeful t c (hw ▸ hc) hd
  patient base f hf := h.patient base f (hfn ▸ hf)
  parked base f hf := by
    obtain ⟨l, hl, hparked⟩ := h.parked base f (hfn ▸ hf)
    refine ⟨l, fun t ht => ?_, hparked⟩
    obtain ⟨c, hc, hp⟩ := hl t ht
    exact ⟨c, hw ▸ hc, by rw [hb]; exact hp⟩

theorem pollUnpin_resting {fn fn' : BoxFuture} {r : Poll (OrchestratorResult String)}
    (hw : w.Hopeful)
    (hpat : ∀ base f, fn = .suspended base f → TaskFuture.Patient self.env f)
    (h : fn.pollUnpin self.env w = .ok (r, fn', w')) (hfn : ctx.orchestratorFn = some fn')
    (hworld : ctx.world = w') : self.Resting ctx := by
  subst hworld
  have hw₀ : ({ w with notified := false } : World).Hopeful := hw
  obtain ⟨base, f, rfl, ⟨s, hrun, -, rfl⟩ | ⟨v, w₁, hrun, -, rfl, hw₁⟩⟩ := BoxFuture.pollUnpin_ok h
  · have hf := hpat base f rfl
    have hgood := (undisturbing self.env).run_good (hf.permitted f.state) hw₀ hrun
    refine ⟨hgood, fun base' f' hf' => ?_, fun base' f' hf' => ?_⟩ <;> rw [hfn] at hf' <;> cases hf'
    · exact hf.resume s
    · exact hf.parks f.state _ s _ hw₀ hrun
  · have hgood := (undisturbing self.env).run_good ((hpat base f rfl).permitted f.state) hw₀ hrun
    refine ⟨?_, fun base' f' hf' => ?_, fun base' f' hf' => ?_⟩
    · rw [hw₁]
      exact hgood.of_cells fun t c hc _ => World.dropFrom_source hc
    · rw [hfn] at hf'
      cases hf'
    · rw [hfn] at hf'
      cases hf'

theorem poll_resting (hc : ctx.isComplete = false) (hw : ctx.world.Hopeful)
    (hpat : ∀ base f, ctx.orchestratorFn = some (.suspended base f) →
      TaskFuture.Patient self.env f)
    (h : self.poll ctx = .ok ctx') : self.Resting ctx' := by
  obtain ⟨fn, hfn, ⟨fn', w, hp, rfl⟩ | ⟨r, fn', w, hp, rfl⟩⟩ := poll_ok hc h <;>
    exact pollUnpin_resting hw (fun base f hf => hpat base f (hf ▸ hfn)) hp rfl rfl

theorem executionCompleted_resting (h : self.Resting ctx)
    (he : self.executionCompleted ctx = .ok ctx') : self.Resting ctx' := by
  simp only [executionCompleted] at he
  split at he
  · cases he
    exact h
  · rename_i fn hfn
    split at he
    · cases he
    · rename_i r fn' w hp
      cases he
      exact pollUnpin_resting h.hopeful (fun base f hf => h.patient base f (hf ▸ hfn)) hp rfl rfl

/-- The first start finds no task, so what the new program is parked on is its own. -/
theorem Turn.start_resting {s : ExecutionStartedEvent} (hpat : self.Patient)
    (ht : self.Turn ctx (.start s) ctx') (hu : ctx.Unstarted) (h : self.Resting ctx) :
    self.Resting ctx' := by
  have hw₀ : ({ ctx.world with
      octx := .new self.instanceId s.input, notified := false } : World).Hopeful := h.hopeful
  obtain rfl | ⟨func, w, hreg, -, ⟨st, hrun, rfl⟩ | ⟨r, -, rfl⟩⟩ := ht.start_cases
  · exact h
  · have hf := hpat s.name func s.input hreg
    have hcells : (w.dropBefore ctx.world.cells.length).cells = w.cells := by
      simp [World.dropBefore, hu.cells]
    have hgood := (undisturbing self.env).run_good (hf.permitted _) hw₀ hrun
    obtain ⟨l, hl, hparked⟩ := hf.parks _ _ st w hw₀ hrun
    refine ⟨fun t c hc hd => hgood t c (hcells ▸ hc) hd, fun base f hf' => ?_, fun base f hf' => ?_⟩
    · cases hf'
      exact hf.resume st
    · cases hf'
      refine ⟨l, fun t ht => ?_, hparked⟩
      obtain ⟨c, hc, hp⟩ := hl t ht
      exact ⟨c, hcells.symm ▸ hc, hp⟩
  · refine ⟨fun t c hc hd => ?_, fun base f hf' => ?_, fun base f hf' => ?_⟩
    · have hlt := World.dropFrom_live hc hd
      rw [hu.cells] at hlt
      exact absurd hlt (Nat.not_lt_zero t)
    · rw [hu.orchestratorFn] at hf'
      cases hf'
    · rw [hu.orchestratorFn] at hf'
      cases hf'

theorem processEvent_resting (hpat : self.Patient) (hr : ctx.Regular)
    (hk : e.kind.Answers) (hs : e.isStart → ctx.Unstarted) (h : self.Resting ctx)
    (he : self.processEvent ctx e = .ok ctx') : self.Resting ctx' := by
  have hc := hr.incomplete
  -- a delivery keeps the tasks hopeful and is followed by a poll
  have delivered {ctx₁ : OrchestrationExecutorContext}
      (hd : Delivery self.env ctx e.kind ctx₁) (hp : self.poll ctx₁ = .ok ctx') :
      self.Resting ctx' :=
    poll_resting (hd.isComplete.trans hc)
      (hd.hopeful hr.linked hr.drained hk h.hopeful)
      (fun base f hf => h.patient base f (hd.orchestratorFn ▸ hf)) hp
  rw [processEvent_eq] at he
  cases hkind : e.kind with
  | skip => rw [hkind] at he; cases he; exact h
  | tick timestamp => rw [hkind] at he; cases he; exact h.mono rfl rfl rfl
  | start s =>
    have hu := hs (HistoryEvent.isStart_iff.mpr ⟨s, hkind⟩)
    rw [hkind] at he
    exact (processKind_turn hc he).start_resting hpat hu h
  | complete => rw [hkind] at he; exact executionCompleted_resting h he
  | terminate =>
    rw [hkind] at he
    cases he
    obtain ⟨hfn, hw⟩ := executionTerminated_frame ctx
    exact h.mono hfn (by rw [hw]) (by rw [hw])
  | acknowledge id => rw [hkind] at he; cases he; exact h.mono rfl rfl rfl
  | resolve id payload message polls =>
    obtain ⟨-, rfl⟩ := hk id payload message polls hkind
    rw [hkind] at he
    simp only [processKind, resolveAndPoll] at he
    cases hres : ctx.resolveTask id payload message with
    | error p => rw [hres] at he; cases he
    | ok ctx₁ =>
      rw [hres] at he
      exact delivered (hkind ▸ resolveTask_delivery self true hres) he
  | raise r =>
    rw [hkind] at he
    obtain ⟨-, rfl⟩ | ⟨t, waiters, w, hl, hsend, hp⟩ := eventRaised_ok he
    · exact h.mono rfl rfl rfl
    · exact delivered (hkind ▸ .give r t waiters w hl hsend) hp

theorem Resting.drain (hl : ctx.Linked) (hf : ctx.Fresh 0) (h : self.Resting ctx) :
    self.Resting ctx.drain where
  hopeful := drain_hopeful self.env hl hf h.hopeful
  patient base f hfn := h.patient base f (drain_orchestratorFn ▸ hfn)
  parked base f hfn := by
    obtain ⟨l, hlist, hparked⟩ := h.parked base f (drain_orchestratorFn ▸ hfn)
    exact ⟨l, fun t ht => drain_blocked self.env hl hf (hlist t ht), hparked⟩

/--
In a run with one start in which every completion carries a payload and polls, a patient program
is parked after every event.
-/
theorem replay_resting (hpat : self.Patient) (hone : history.countP HistoryEvent.isStart ≤ 1)
    (hk : ∀ e ∈ history, e.kind.Answers) (h : self.replay history = .ok ctx) :
    self.Resting ctx := by
  revert hk
  refine replay_induct (P := fun history ctx =>
    (∀ e ∈ history, e.kind.Answers) → self.Resting ctx) hone ?_ ?_ h
  · refine fun _ => ⟨fun t c hc => ?_, fun base f hf => ?_, fun base f hf => ?_⟩
    · cases hc
    · cases hf
    · cases hf
  · intro past e ctx₁ ctx₂ hr ih hs he hk
    have hreg := replay_regular hr
    have hresting := processEvent_resting hpat hreg (hk e (by simp))
      (fun hstart => replay_unstarted (hs hstart) hr)
      (ih fun e he => hk e (List.mem_append_left _ he)) he
    exact hresting.drain (processEvent_linked hreg.incomplete hreg.drained hreg.linked he)
      (processEvent_fresh hreg (replay_fresh hr) he)

end OrchestrationExecutorFuture

end DurableTask
