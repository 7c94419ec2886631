import DurableTask.Guarantees.Completion
import DurableTask.Invariants.Funded

/-! # Delivered values are observed

Every arm that delivers a value must also poll the program. The arm of
`TaskFailed` does not, so the value it delivers waits for an event of another
kind. Away from that arm, and while the budget has room for what is handed over,
the program is idle after every event.
-/

namespace DurableTask

open Interaction OrchestrationExecutorContext OrchestrationExecutorFuture

namespace World

variable {w : World} {base t : ℕ}

theorem rests_dropFrom : w.Rests (w.dropFrom base) := by
  refine .of_cells dropFrom_length rfl fun u c c' hc hc' hr => ?_
  rw [dropFrom_cells, hc] at hc'
  split at hc' <;> cases hc'
  · exact hr
  · exact absurd hr not_ripe_drop

theorem rests_dropBefore : w.Rests (w.dropBefore base) := by
  refine .of_cells dropBefore_length rfl fun u c c' hc hc' hr => ?_
  rw [dropBefore_cells, hc] at hc'
  split at hc' <;> cases hc'
  · exact absurd hr not_ripe_drop
  · exact hr

theorem ripe_of_close {c : Cell} {b : Budget}
    (h : ({ c with task.unblockRx := .closed } : Cell).Ripe b) : c.Ripe b := by
  rw [Cell.ripe_iff] at h ⊢
  exact ⟨h.1, .inl (by simpa using h.2)⟩

theorem rests_dropSender : w.Rests (w.dropSender t) := by
  refine .of_cells (by simp [dropSender]) rfl fun u c c' hc hc' hr => ?_
  by_cases ht : t = u
  · have he : { c with task.unblockRx := .closed } = c' := by
      simpa [dropSender, ht, hc] using hc'
    exact ripe_of_close (he ▸ hr)
  · have he : c = c' := by simpa [dropSender, ht, hc] using hc'
    exact he ▸ hr

end World

variable {env : Env} {ctx ctx' : OrchestrationExecutorContext}

theorem takeTask_rests (ctx : OrchestrationExecutorContext) (m : Int × TaskRef) :
    ctx.world.Rests (ctx.takeTask m).world := by
  unfold takeTask
  cases ctx.pendingTasks.lookup m.1 with
  | none => exact .refl _
  | some t => exact World.rests_dropSender

theorem Move.rests (h : Move env ctx ctx') : ctx.world.Rests ctx'.world := by
  cases h with
  | step base f w _ hs => exact hs.rests
  | finish base f r _ => exact World.rests_dropFrom.trans (.of_eq rfl rfl)
  | takeTask m rest _ =>
    have hw : ctx.world.Rests { ctx.world with octx.tasksTx := rest } := .of_eq rfl rfl
    exact hw.trans (takeTask_rests { ctx with world.octx.tasksTx := rest } m)
  | takeAction m rest _ =>
    rw [takeAction_eq]
    exact .of_eq rfl rfl
  | _ => exact .of_eq rfl rfl

theorem Moves.rests (h : Moves env ctx ctx') : ctx.world.Rests ctx'.world := by
  induction h with
  | refl => exact .refl _
  | tail _ hm ih => exact ih.trans hm.rests

/-- The suspended program waits for nothing but its tasks and signals. -/
def Waits (env : Env) (ctx : OrchestrationExecutorContext) : Prop :=
  ∀ base f, ctx.orchestratorFn = some (.suspended base f) → TaskFuture.WakeDriven env f

/-- The suspended program has nothing to do until it is woken. -/
def Quiet (env : Env) (ctx : OrchestrationExecutorContext) : Prop :=
  ∀ base f, ctx.orchestratorFn = some (.suspended base f) →
    Future.Idle (handle env) World.Rests World.octx f f.state ctx.world

theorem pollUnpin_quiet {fn fn' : BoxFuture} {w : World} {r : Poll (OrchestratorResult String)}
    (hw : Waits env ctx) (hfn : ctx.orchestratorFn = some fn)
    (h : fn.pollUnpin env ctx.world = .ok (r, fn', w)) {ctx₁ : OrchestrationExecutorContext}
    (hfn₁ : ctx₁.orchestratorFn = some fn') (hw₁ : ctx₁.world = w) :
    Waits env ctx₁ ∧ Quiet env ctx₁ := by
  obtain ⟨base, f, rfl, ⟨s, hrun, -, rfl⟩ | ⟨v, w₁, -, -, rfl, -⟩⟩ := BoxFuture.pollUnpin_ok h
  · refine ⟨fun base' f' hf' => ?_, fun base' f' hf' => ?_⟩ <;> rw [hfn₁] at hf' <;> cases hf'
    · exact hw base f hfn
    · exact hw₁ ▸ hw base f hfn f.state _ s w hrun
  · refine ⟨fun base' f' hf' => ?_, fun base' f' hf' => ?_⟩ <;> rw [hfn₁] at hf' <;> cases hf'

theorem pollUnpin_notified {fn fn' : BoxFuture} {w w' : World}
    {r : Poll (OrchestratorResult String)} (h : fn.pollUnpin env w = .ok (r, fn', w')) :
    w'.notified = false := by
  obtain ⟨base, f, rfl, ⟨s, hrun, -, rfl⟩ | ⟨v, w₁, hrun, -, rfl, rfl⟩⟩ := BoxFuture.pollUnpin_ok h
  · exact (run_steps hrun).notified
  · exact (run_steps hrun).notified

def EventKind.silent : EventKind → Bool
  | .resolve _ _ _ polls => !polls
  | _ => false

namespace OrchestrationExecutorFuture

variable {self : OrchestrationExecutorFuture} {e : HistoryEvent} {history : List HistoryEvent}

/-- Every registered orchestrator waits for nothing but its tasks and signals. -/
def WakeDriven (self : OrchestrationExecutorFuture) : Prop :=
  ∀ name func input, self.registry.getOrchestrator name = some func →
    TaskFuture.WakeDriven self.env (func.call self.instanceId input)

/-- An event that hands a value to a task also polls the program: all but `TaskFailed` do. -/
def Notices (executor : OrchestrationExecutorFuture) (ctx : OrchestrationExecutorContext)
    (e : HistoryEvent) : Prop :=
  ctx.sends e.kind = true → executor.polls ctx e.kind = true

instance (executor : OrchestrationExecutorFuture) (ctx : OrchestrationExecutorContext)
    (e : HistoryEvent) : Decidable (executor.Notices ctx e) :=
  inferInstanceAs (Decidable (_ → _))

/-- The program has seen every value that was delivered. -/
structure Observed (executor : OrchestrationExecutorFuture) (ctx : OrchestrationExecutorContext) :
    Prop where
  notified : ctx.world.notified = false
  waits : executor.WakeDriven → Waits executor.env ctx
  quiet : executor.WakeDriven → Quiet executor.env ctx

theorem Observed.mono (h : self.Observed ctx) (hn : ctx'.world.notified = ctx.world.notified)
    (hfn : ctx'.orchestratorFn = ctx.orchestratorFn) (hr : ctx.world.Rests ctx'.world) :
    self.Observed ctx' where
  notified := hn.trans h.notified
  waits hw base f hf := h.waits hw base f (hfn ▸ hf)
  quiet hw base f hf := (h.quiet hw base f (hfn ▸ hf)).mono (unwoken self.env) hr

theorem poll_observed (hc : ctx.isComplete = false) (hw : self.WakeDriven → Waits self.env ctx)
    (h : self.poll ctx = .ok ctx') : self.Observed ctx' := by
  obtain ⟨fn, hfn, ⟨fn', w, hp, rfl⟩ | ⟨r, fn', w, hp, rfl⟩⟩ := poll_ok hc h <;>
    exact ⟨pollUnpin_notified hp, fun hwd => (pollUnpin_quiet (hw hwd) hfn hp rfl rfl).1,
      fun hwd => (pollUnpin_quiet (hw hwd) hfn hp rfl rfl).2⟩

theorem Turn.start_observed {s : ExecutionStartedEvent} (ht : self.Turn ctx (.start s) ctx')
    (ho : self.Observed ctx) : self.Observed ctx' := by
  obtain rfl | ⟨func, w, hreg, hs, ⟨st, hrun, rfl⟩ | ⟨r, -, rfl⟩⟩ := ht.start_cases
  · exact ho
  · refine ⟨hs.notified, fun hwd base f hf => ?_, fun hwd base f hf => ?_⟩ <;> cases hf
    · exact hwd _ func s.input hreg
    · exact Future.Idle.mono (unwoken self.env) World.rests_dropBefore
        (hwd _ func s.input hreg _ _ st w hrun)
  · refine ho.mono rfl rfl ?_
    have hfresh : ctx.world.Rests
        { ctx.world with octx := .new self.instanceId s.input, notified := false } :=
      .of_eq rfl rfl
    have hrests : ctx.world.Rests w := hfresh.trans hs.rests
    exact hrests.trans (World.rests_dropFrom.trans (.of_eq rfl rfl))

theorem executionCompleted_observed (ho : self.Observed ctx)
    (h : self.executionCompleted ctx = .ok ctx') : self.Observed ctx' := by
  simp only [executionCompleted] at h
  split at h
  · cases h
    exact ho
  · rename_i fn hfn
    split at h
    · cases h
    · rename_i r fn' w hp
      cases h
      exact ⟨pollUnpin_notified hp, fun hwd => (pollUnpin_quiet (ho.waits hwd) hfn hp rfl rfl).1,
        fun hwd => (pollUnpin_quiet (ho.waits hwd) hfn hp rfl rfl).2⟩

/-- Every arm but that of `TaskFailed` leaves nothing unobserved. -/
theorem processEvent_observed (hc : ctx.isComplete = false) (ho : self.Observed ctx)
    (hf : self.Notices ctx e) (h : self.processEvent ctx e = .ok ctx') : self.Observed ctx' := by
  have waits {k : EventKind} {ctx₁ : OrchestrationExecutorContext}
      (hd : Delivery self.env ctx k ctx₁) (hwd : self.WakeDriven) : Waits self.env ctx₁ :=
    fun base f hf => ho.waits hwd base f (hd.orchestratorFn ▸ hf)
  rw [processEvent_eq] at h
  cases hk : e.kind with
  | skip => rw [hk] at h; cases h; exact ho
  | tick timestamp => rw [hk] at h; cases h; exact ho.mono rfl rfl (.refl _)
  | start s => rw [hk] at h; exact (processKind_turn hc h).start_observed ho
  | complete => rw [hk] at h; exact executionCompleted_observed ho h
  | terminate =>
    rw [hk] at h
    cases h
    rw [executionTerminated_eq hc]
    exact ho.mono rfl rfl (.refl _)
  | acknowledge id => rw [hk] at h; cases h; exact ho.mono rfl rfl (.refl _)
  | resolve id payload message polls =>
    rw [← processEvent_eq, processEvent_resolve hk] at h
    split at h
    · cases h
    · rename_i ctx₁ hr
      have hd := resolveTask_delivery self polls hr
      cases polls with
      | true => exact poll_observed (hd.isComplete.trans hc) (waits hd) h
      | false =>
        cases h
        cases hd with
        | miss _ _ _ _ hl => exact ho
        | close _ _ _ t hl => exact ho.mono rfl rfl World.rests_dropSender
        | send _ v _ _ t w hl hs =>
          have hpolls := hf (by simp [hk, sends, hl])
          rw [hk] at hpolls
          cases hpolls
  | raise r =>
    rw [hk] at h
    obtain ⟨-, rfl⟩ | ⟨t, waiters, w, hl, hs, hp⟩ := eventRaised_ok h
    · exact ho.mono rfl rfl (.of_eq rfl rfl)
    · have hd := Delivery.give r t waiters w hl hs
      exact poll_observed (hd.isComplete.trans hc) (waits hd) hp

theorem drain_notified (ctx : OrchestrationExecutorContext) :
    ctx.drain.world.notified = ctx.world.notified := by
  by_cases hfn : ctx.orchestratorFn.isSome
  · obtain ⟨tasks, events, cells, h⟩ := drain_eq hfn
    rw [h]
  · rw [drain_of_none (by simpa using hfn)]

theorem poll_again (hc : ctx.isComplete = false) (hd : ctx.Drained) (hq : Quiet self.env ctx)
    (h : self.poll ctx = .ok ctx') :
    ctx'.running ∧ ctx'.drain.pendingActions = ctx.pendingActions := by
  obtain ⟨fn, hfn, hcases⟩ := poll_ok hc h
  have idle {base : TaskRef} {f : TaskFuture (OrchestratorResult String)}
      (hf : fn = .suspended base f) := hq base f (hf ▸ hfn)
    { ctx.world with notified := false } (.of_eq rfl rfl)
  rcases hcases with ⟨fn', w, hp, rfl⟩ | ⟨r, fn', w, hp, rfl⟩
  · obtain ⟨base, f, hf, ⟨s, hrun, -, rfl⟩ | ⟨v, w₁, -, hr, -⟩⟩ := BoxFuture.pollUnpin_ok hp
    · rcases idle hf with ⟨e, he⟩ | ⟨w₂, hw₂, ho⟩
      · rw [hrun] at he
        cases he
      · rw [hrun] at hw₂
        cases hw₂
        refine ⟨rfl, ?_⟩
        have ha : w.octx.actionsTx = [] := by rw [ho]; exact hd.actions
        rw [drain_pendingActions rfl]
        simp only [ha]
        rfl
    · cases hr
  · obtain ⟨base, f, hf, ⟨s, -, hr, -⟩ | ⟨v, w₁, hrun, -⟩⟩ := BoxFuture.pollUnpin_ok hp
    · cases hr
    · rcases idle hf with ⟨e, he⟩ | ⟨w₂, hw₂, -⟩
      · rw [hrun] at he
        cases he
      · rw [hrun] at hw₂
        cases hw₂

theorem replay_notices (h : self.replay history = .ok ctx)
    (hk : self.Throughout self.Notices (.new self.env.budget) history) : self.Observed ctx := by
  refine (hk.preserves (I := fun ctx => ctx.isComplete = false ∧ self.Observed ctx)
    (fun ctx e ctx' ho hk he => ⟨(drain_moves self.env ctx').isComplete.trans
      (processEvent_isComplete ho.1 he), ?_⟩) ⟨rfl, rfl, ?_, ?_⟩ h).2
  · exact (processEvent_observed ho.1 ho.2 hk he).mono (drain_notified ctx') drain_orchestratorFn
      (drain_moves self.env ctx').rests
  · exact fun _ _ _ hf => by cases hf
  · exact fun _ _ _ hf => by cases hf

theorem replay_notified (hloud : ∀ e ∈ history, e.kind.silent = false)
    (h : self.replay history = .ok ctx) : ctx.world.notified = false := by
  refine (replay_notices h (.intro fun past e later ctx₁ hs _ hsends => ?_)).notified
  have hsilent := hloud e (hs ▸ by simp)
  cases hk : e.kind with
  | resolve id payload message polls =>
    rw [hk] at hsilent
    simpa [EventKind.silent, OrchestrationExecutorFuture.polls] using hsilent
  | _ =>
    rw [hk] at hsends
    cases hsends

/--
In a run in which every event that hands over a value polls and has room in the budget, every
delivered value was observed after every event, if the orchestrators wait for nothing but their
tasks and signals: one more poll, under whatever budget, issues nothing and does not finish.
-/
theorem replay_observed (h : self.replay history = .ok ctx) (hw : self.WakeDriven)
    (hk : self.Throughout (fun ctx e => self.Notices ctx e ∧ self.Affordable ctx e)
      (.new self.env.budget) history) :
    ctx.world.notified = false ∧
      ∀ b ctx', self.poll { ctx with world.budget := b } = .ok ctx' →
        ctx'.running ∧ ctx'.drain.pendingActions = ctx.pendingActions := by
  have ho : self.Observed ctx := replay_notices h (hk.mono fun _ _ hk => hk.1)
  have hfunded : ctx.world.Funded := replay_funded h (hk.mono fun _ _ hk => hk.2)
  refine ⟨ho.notified, fun b ctx' hp => ?_⟩
  have hq : Quiet self.env { ctx with world.budget := b } := fun base f hf =>
    (ho.quiet hw base f hf).mono (unwoken self.env) (hfunded.rests b)
  have hd : { ctx with world.budget := b }.Drained := (replay_drained h).of_octx rfl
  have hc : ctx.isComplete = false := replay_isComplete h
  exact @poll_again { ctx with world.budget := b } ctx' self hc hd hq hp

theorem orchestrators_wakeDriven {func : OrchestratorFunction} (hfunc : func ∈ orchestrators) :
    (executorOf func).WakeDriven := by
  intro name func' input hreg
  obtain rfl := eq_of_registered hreg
  have hcall (activityType input : String) :
      TaskFuture.WakeDriven plainEnv (callTestActivity activityType input) :=
    callActivity_wakeDriven _ _ _
  simp only [orchestrators, List.mem_cons, List.not_mem_nil, or_false] at hfunc
  rcases hfunc with rfl | rfl | rfl | rfl | rfl | rfl
  · exact ((hcall _ _).bind fun _ => .ready _).map _
  · exact (Future.WakeDriven.ready _).map _
  · exact ((createTimer_wakeDriven 10000).bind fun _ => (hcall _ _).bind fun _ => .ready _).map _
  · exact (((hcall _ _).join (unwoken plainEnv) (hcall _ _)).bind fun _ => .ready _).map _
  · exact ((awaitSignalEvent_wakeDriven _).map _).map _
  · exact ((createTimer_wakeDriven 30000).bind fun _ => .ready _).map _

/-- A failed activity is delivered and not observed: one more poll would end the orchestration. -/
theorem failure_unobserved :
    ((executorOf testOrchestration).replay [executionStarted, taskScheduled 1,
      taskFailed 1 (some ⟨"error", "\"boom\""⟩)]).map (fun ctx => (ctx.world.notified, ctx.running,
        ctx.getActions plainEnv)) = .ok (true, true, []) ∧
    (((executorOf testOrchestration).replay [executionStarted, taskScheduled 1,
      taskFailed 1 (some ⟨"error", "\"boom\""⟩)]).bind (executorOf testOrchestration).poll).map
        (fun ctx => (ctx.running, ctx.drain.getActions plainEnv)) =
      .ok (false, [newCompleteOrchestrationAction 2 .completed (some "\"hello\"") [] none]) :=
  ⟨by decide, by decide⟩

theorem sequenceOrchestration_observed : ∃ ctx,
    (executorOf sequenceOrchestration).replay [executionStarted, timerCreated 1, timerFired 1] =
      .ok ctx ∧ ctx.running ∧ ctx.world.notified = false ∧
      ∀ b ctx', (executorOf sequenceOrchestration).poll { ctx with world.budget := b } = .ok ctx' →
        ctx'.running ∧ ctx'.drain.pendingActions = ctx.pendingActions := by
  obtain ⟨ctx, h, hrun⟩ := Except.exists_of_map
    (show ((executorOf sequenceOrchestration).replay [executionStarted, timerCreated 1,
      timerFired 1]).map (fun ctx => ctx.running) = .ok true by decide)
  exact ⟨ctx, h, hrun,
    replay_observed h (orchestrators_wakeDriven (by simp [orchestrators])) (by decide)⟩

end OrchestrationExecutorFuture

end DurableTask
