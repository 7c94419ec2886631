import DurableTask.Executor.Moves

/-! # Turns

An event takes one turn of the executor: it hands over what it carries and may
activate the program. Whether it does, whether the program issues actions in
that poll and whether it returns are functions of the state before the event.
-/

namespace DurableTask

open Interaction Queues OrchestrationExecutorContext

/-- A program together with the world in which it is polled. -/
abbrev Activation := TaskFuture (OrchestratorResult String) × World

namespace Activation

def run (env : Env) (a : Activation) :
    Except Panic (Progress a.1.State (OrchestratorResult String) × World) :=
  (a.1.poll a.1.state).run (handle env) a.2

def issues (env : Env) (a : Activation) : Bool :=
  match a.run env with
  | .ok (_, w) => w.octx.sequenceNumber ≠ a.2.octx.sequenceNumber
  | .error _ => false

def returns (env : Env) (a : Activation) : Option (OrchestratorResult String) :=
  match a.run env with
  | .ok (.ready r, _) => some r
  | _ => none

end Activation

namespace OrchestrationExecutorContext

def running (ctx : OrchestrationExecutorContext) : Bool :=
  match ctx.orchestratorFn with
  | some (.suspended _ _) => true
  | _ => false

theorem running_iff {ctx : OrchestrationExecutorContext} : ctx.running = true ↔
    ∃ base f, ctx.orchestratorFn = some (.suspended base f) := by
  unfold running
  rcases ctx.orchestratorFn with _ | _ | _ <;> simp

def program (ctx : OrchestrationExecutorContext) : Option Activation :=
  match ctx.orchestratorFn with
  | some (.suspended _ f) => some (f, { ctx.world with notified := false })
  | _ => none

def sends (ctx : OrchestrationExecutorContext) : EventKind → Bool
  | .resolve id (some _) _ _ => (ctx.pendingTasks.lookup id).isSome
  | _ => false

end OrchestrationExecutorContext

namespace OrchestrationExecutorFuture

variable (self : OrchestrationExecutorFuture)

def activation (ctx : OrchestrationExecutorContext) : EventKind → Option Activation
  | .start e => (self.registry.getOrchestrator e.name).map fun func =>
    (func.call self.instanceId e.input,
      { ctx.world with octx := .new self.instanceId e.input, notified := false })
  | .complete => ctx.program
  | .resolve id payload message true =>
    match ctx.resolveTask id payload message with
    | .ok ctx₁ => ctx₁.program
    | .error _ => none
  | .raise e =>
    match ctx.pendingEvents.lookup (self.env.toLowercase e.name) with
    | some (t :: _) =>
      (ctx.world.send t e.input).bind fun w => { ctx with world := w }.program
    | _ => none
  | _ => none

def polls (ctx : OrchestrationExecutorContext) : EventKind → Bool
  | .start e => (self.registry.getOrchestrator e.name).isSome
  | .complete => ctx.orchestratorFn.isSome
  | .resolve _ _ _ polls => polls
  | .raise e => (ctx.pendingEvents.lookup (self.env.toLowercase e.name)).isSome
  | _ => false

def starts : EventKind → Bool
  | .start e => (self.registry.getOrchestrator e.name).isSome
  | _ => false

def issues (ctx : OrchestrationExecutorContext) (k : EventKind) : Bool :=
  (self.activation ctx k).any (Activation.issues self.env)

def returns (ctx : OrchestrationExecutorContext) (k : EventKind) :
    Option (OrchestratorResult String) :=
  (self.activation ctx k).bind (Activation.returns self.env)

/-- What a turn makes of a context; each poll that returns ends in an arm of its own. -/
inductive Turn (executor : OrchestrationExecutorFuture) (ctx : OrchestrationExecutorContext) :
    EventKind → OrchestrationExecutorContext → Prop where
  | rest {k : EventKind} {ctx₁ : OrchestrationExecutorContext}
      (hd : Delivery executor.env ctx k ctx₁) (ha : executor.activation ctx k = none)
      (hk : k ≠ .terminate ∧ ∀ id, k ≠ .acknowledge id) : Turn executor ctx k ctx₁
  | tick (timestamp : Option Timestamp) (currentTimeUtc : Timestamp) :
    Turn executor ctx (.tick timestamp) { ctx with currentTimeUtc }
  | terminate : Turn executor ctx .terminate ctx.executionTerminated
  | acknowledge (id : Int) : Turn executor ctx (.acknowledge id) (ctx.acknowledge id)
  | suspend {k : EventKind} {ctx₁ : OrchestrationExecutorContext} {base : TaskRef}
      {f : TaskFuture (OrchestratorResult String)} {s : f.State} {w : World}
      (hd : Delivery executor.env ctx k ctx₁) (hfn : ctx₁.orchestratorFn = some (.suspended base f))
      (ha : executor.activation ctx k = some (f, { ctx₁.world with notified := false }))
      (hrun : Activation.run executor.env (f, { ctx₁.world with notified := false }) =
        .ok (.suspended s, w)) :
    Turn executor ctx k
      { ctx₁ with orchestratorFn := some (.suspended base (f.resume s)), world := w }
  | report {k : EventKind} {ctx₁ : OrchestrationExecutorContext} {base : TaskRef}
      {f : TaskFuture (OrchestratorResult String)} {r : OrchestratorResult String} {w : World}
      (hk : k ≠ .complete) (hd : Delivery executor.env ctx k ctx₁)
      (hfn : ctx₁.orchestratorFn = some (.suspended base f))
      (ha : executor.activation ctx k = some (f, { ctx₁.world with notified := false }))
      (hrun : Activation.run executor.env (f, { ctx₁.world with notified := false }) =
        .ok (.ready r, w)) :
    Turn executor ctx k
      (({ ctx₁ with
        orchestratorFn := some .finished
        world := w.finish base r
        sequenceNumber := ctx₁.sequenceNumber + 1 } : OrchestrationExecutorContext).insertAction
          (ctx₁.sequenceNumber + 1) (completionAction (ctx₁.sequenceNumber + 1) r))
  | discard {base : TaskRef} {f : TaskFuture (OrchestratorResult String)}
      {r : OrchestratorResult String} {w : World}
      (hfn : ctx.orchestratorFn = some (.suspended base f))
      (hrun : Activation.run executor.env (f, { ctx.world with notified := false }) =
        .ok (.ready r, w)) :
    Turn executor ctx .complete
      { ctx with orchestratorFn := some .finished, world := w.finish base r }
  | unknown (e : ExecutionStartedEvent)
      (hr : executor.registry.getOrchestrator e.name = none) : Turn executor ctx (.start e) ctx
  | begin {e : ExecutionStartedEvent} {func : OrchestratorFunction}
      {s : (func.call executor.instanceId e.input).State} {w : World}
      (hr : executor.registry.getOrchestrator e.name = some func)
      (hrun : Activation.run executor.env (func.call executor.instanceId e.input,
        { ctx.world with octx := .new executor.instanceId e.input, notified := false }) =
          .ok (.suspended s, w)) :
    Turn executor ctx (.start e) { ctx with
      orchestratorFn := some (.suspended ctx.world.cells.length
        ((func.call executor.instanceId e.input).resume s))
      world := w.dropBefore ctx.world.cells.length }
  | forget {e : ExecutionStartedEvent} {func : OrchestratorFunction}
      {r : OrchestratorResult String} {w : World}
      (hr : executor.registry.getOrchestrator e.name = some func)
      (hrun : Activation.run executor.env (func.call executor.instanceId e.input,
        { ctx.world with octx := .new executor.instanceId e.input, notified := false }) =
          .ok (.ready r, w)) :
    Turn executor ctx (.start e) { ctx with
      world := { w.finish ctx.world.cells.length r with
        octx := ctx.world.octx, notified := ctx.world.notified } }

variable {self} {ctx ctx' ctx₁ : OrchestrationExecutorContext} {k : EventKind}

theorem poll_turn (hk : k ≠ .complete) (hc : ctx.isComplete = false)
    (hd : Delivery self.env ctx k ctx₁) (ha : self.activation ctx k = ctx₁.program)
    (h : self.poll ctx₁ = .ok ctx') : Turn self ctx k ctx' := by
  obtain ⟨fn, hfn, ⟨fn', w, hp, rfl⟩ | ⟨r, fn', w, hp, rfl⟩⟩ := poll_ok (hd.isComplete.trans hc) h
  · obtain ⟨base, f, rfl, ⟨s, hrun, -, rfl⟩ | ⟨v, w₁, -, hr, -⟩⟩ := BoxFuture.pollUnpin_ok hp
    · exact .suspend hd hfn (by rw [ha, program, hfn]) hrun
    · cases hr
  · obtain ⟨base, f, rfl, ⟨s, -, hr, -⟩ | ⟨v, w₁, hrun, hr, rfl, rfl⟩⟩ := BoxFuture.pollUnpin_ok hp
    · cases hr
    · cases hr
      exact .report hk hd hfn (by rw [ha, program, hfn]) hrun

theorem start_turn {e : ExecutionStartedEvent} (h : self.start ctx e = .ok ctx') :
    Turn self ctx (.start e) ctx' := by
  simp only [start] at h
  split at h
  · rename_i hr
    cases h
    exact .unknown e hr
  · rename_i func hr
    split at h
    · cases h
    · rename_i r fn w hp
      cases h
      obtain ⟨base, f, hf, ⟨s, -, hr', -⟩ | ⟨v, w₁, hrun, hr', -, rfl⟩⟩ :=
        BoxFuture.pollUnpin_ok hp
      · cases hr'
      · cases hf
        cases hr'
        exact .forget hr hrun
    · rename_i fn w hp
      cases h
      obtain ⟨base, f, hf, ⟨s, hrun, -, rfl⟩ | ⟨v, w₁, -, hr', -⟩⟩ := BoxFuture.pollUnpin_ok hp
      · cases hf
        exact .begin hr hrun
      · cases hr'

theorem executionCompleted_turn (h : self.executionCompleted ctx = .ok ctx') :
    Turn self ctx .complete ctx' := by
  simp only [executionCompleted] at h
  split at h
  · rename_i hfn
    cases h
    exact .rest .complete (by simp [activation, program, hfn]) (by simp)
  · rename_i fn hfn
    split at h
    · cases h
    · rename_i r fn' w hp
      cases h
      obtain ⟨base, f, rfl, ⟨s, hrun, -, rfl⟩ | ⟨v, w₁, hrun, -, rfl, rfl⟩⟩ :=
        BoxFuture.pollUnpin_ok hp
      · exact .suspend .complete hfn (by simp [activation, program, hfn]) hrun
      · exact .discard hfn hrun

/-- Every event takes one turn. -/
theorem processKind_turn (hc : ctx.isComplete = false) (h : self.processKind ctx k = .ok ctx') :
    Turn self ctx k ctx' := by
  cases k with
  | skip => cases h; exact .rest .skip rfl (by simp)
  | tick timestamp => cases h; exact .tick timestamp _
  | terminate => cases h; exact .terminate
  | acknowledge id => cases h; exact .acknowledge id
  | start e => exact start_turn h
  | complete => exact executionCompleted_turn h
  | resolve id payload message polls =>
    cases polls with
    | false => exact .rest (resolveTask_delivery self false h) rfl (by simp)
    | true =>
      simp only [processKind, resolveAndPoll] at h
      split at h
      · cases h
      · rename_i ctx₁ hr
        exact poll_turn (by simp) hc (resolveTask_delivery self true hr)
          (by simp only [activation, hr]) h
  | raise e =>
    obtain ⟨hl, rfl⟩ | ⟨t, waiters, w, hl, hs, hp⟩ := eventRaised_ok h
    · exact .rest (.buffer e hl) (by simp only [activation, hl]) (by simp)
    · refine poll_turn (by simp) hc (.give e t waiters w hl hs) ?_ hp
      simp only [activation, hl, hs]
      rfl

theorem processEvent_turn {e : HistoryEvent} (hc : ctx.isComplete = false)
    (h : self.processEvent ctx e = .ok ctx') : Turn self ctx e.kind ctx' := by
  rw [processEvent_eq] at h
  exact processKind_turn hc h

theorem Turn.start_cases {e : ExecutionStartedEvent} (h : self.Turn ctx (.start e) ctx') :
    ctx' = ctx ∨ ∃ func w, self.registry.getOrchestrator e.name = some func ∧
      World.Steps self.env
        { ctx.world with octx := .new self.instanceId e.input, notified := false } w ∧
      ((∃ s, Activation.run self.env (func.call self.instanceId e.input,
          { ctx.world with octx := .new self.instanceId e.input, notified := false }) =
            .ok (.suspended s, w) ∧ ctx' = { ctx with
              orchestratorFn := some (.suspended ctx.world.cells.length
                ((func.call self.instanceId e.input).resume s))
              world := w.dropBefore ctx.world.cells.length }) ∨
        ∃ r, Activation.run self.env (func.call self.instanceId e.input,
          { ctx.world with octx := .new self.instanceId e.input, notified := false }) =
            .ok (.ready r, w) ∧ ctx' = { ctx with
              world := { w.finish ctx.world.cells.length r with
                octx := ctx.world.octx, notified := ctx.world.notified } }) := by
  cases h with
  | rest hd => cases hd
  | suspend hd => cases hd
  | report _ hd => cases hd
  | unknown _ hr => exact .inl rfl
  | begin hr hrun => exact .inr ⟨_, _, hr, run_steps hrun, .inl ⟨_, hrun, rfl⟩⟩
  | forget hr hrun => exact .inr ⟨_, _, hr, run_steps hrun, .inr ⟨_, hrun, rfl⟩⟩

theorem Turn.moves (hc : ctx.isComplete = false) (hk : k.isStart = false)
    (h : self.Turn ctx k ctx') :
    ∃ ctx₁, Delivery self.env ctx k ctx₁ ∧ Moves self.env ctx₁ ctx' := by
  cases h with
  | rest hd => exact ⟨_, hd, .refl⟩
  | tick timestamp => exact ⟨ctx, .tick timestamp, .single (.note _ _ _ _ _)⟩
  | terminate => exact ⟨ctx, .terminate, executionTerminated_eq hc ▸ .single (.note _ _ _ _ _)⟩
  | acknowledge id => exact ⟨ctx, .acknowledge id, .single (.note _ _ _ _ _)⟩
  | suspend hd hfn _ hrun => exact ⟨_, hd, Moves.suspends hfn hrun⟩
  | report _ hd hfn _ hrun => exact ⟨_, hd, (Moves.finishes hfn hrun).tail (.note _ _ _ _ _)⟩
  | discard hfn hrun => exact ⟨ctx, .complete, Moves.finishes hfn hrun⟩
  | unknown => cases hk
  | begin => cases hk
  | forget => cases hk

theorem processEvent_moves {e : HistoryEvent} (hc : ctx.isComplete = false)
    (he : e.isStart = false) (h : self.processEvent ctx e = .ok ctx') :
    ∃ ctx₁, Delivery self.env ctx e.kind ctx₁ ∧ Moves self.env ctx₁ ctx' :=
  (processEvent_turn hc h).moves hc he

theorem processEvent_cases {e : HistoryEvent} (hc : ctx.isComplete = false)
    (h : self.processEvent ctx e = .ok ctx') :
    (∃ s, e.kind = .start s ∧ self.Turn ctx (.start s) ctx') ∨
      e.isStart = false ∧ ∃ ctx₁, Delivery self.env ctx e.kind ctx₁ ∧ Moves self.env ctx₁ ctx' := by
  cases hs : e.isStart with
  | false => exact .inr ⟨rfl, processEvent_moves hc hs h⟩
  | true =>
    obtain ⟨s, hk⟩ := HistoryEvent.isStart_iff.mp hs
    exact .inl ⟨s, hk, hk ▸ processEvent_turn hc h⟩

theorem processEvent_isComplete {e : HistoryEvent} (hc : ctx.isComplete = false)
    (h : self.processEvent ctx e = .ok ctx') : ctx'.isComplete = false := by
  obtain ⟨s, -, ht⟩ | ⟨-, ctx₁, hd, hm⟩ := processEvent_cases hc h
  · obtain rfl | ⟨func, w, -, -, ⟨s, -, rfl⟩ | ⟨r, -, rfl⟩⟩ := ht.start_cases <;> exact hc
  · rw [hm.isComplete, hd.isComplete, hc]

theorem replay_isComplete {history : List HistoryEvent} (h : self.replay history = .ok ctx) :
    ctx.isComplete = false :=
  processEvents_induct (P := fun _ ctx => ctx.isComplete = false) rfl
    (fun _ _ _ _ _ hc he => (drain_moves self.env _).isComplete.trans
      (processEvent_isComplete hc he)) h

/-- An event that neither polls a program nor sends to a task does not panic. -/
theorem processEvent_total {e : HistoryEvent} (hp : self.polls ctx e.kind = false)
    (hs : ctx.sends e.kind = false) : ∃ ctx', self.processEvent ctx e = .ok ctx' := by
  rw [processEvent_eq]
  generalize e.kind = k at hp hs
  cases k with
  | start s =>
    have hr : self.registry.getOrchestrator s.name = none := by simpa [polls] using hp
    exact ⟨ctx, by simp [processKind, start, hr]⟩
  | complete =>
    have hfn : ctx.orchestratorFn = none := by simpa [polls] using hp
    exact ⟨ctx, by simp [processKind, executionCompleted, hfn]⟩
  | resolve id payload message polls =>
    cases hp
    cases payload with
    | some v =>
      have hl : ctx.pendingTasks.lookup id = none := by simpa [sends] using hs
      exact ⟨ctx, by simp [processKind, resolveTask, hl]⟩
    | none =>
      simp only [processKind, resolveTask]
      cases ctx.pendingTasks.lookup id with
      | none => exact ⟨_, rfl⟩
      | some t => exact ⟨_, rfl⟩
  | raise s =>
    have hl : ctx.pendingEvents.lookup (self.env.toLowercase s.name) = none := by
      simpa [polls] using hp
    exact ⟨_, by simp only [processKind, eventRaised, hl]; rfl⟩
  | _ => exact ⟨_, rfl⟩

theorem activation_of_not_polls (h : self.polls ctx k = false) : self.activation ctx k = none := by
  cases k with
  | start e => simpa [polls, activation] using h
  | complete =>
    have hfn : ctx.orchestratorFn = none := by simpa [polls] using h
    simp only [activation, program, hfn]
  | resolve id payload message polls => cases h; rfl
  | raise e =>
    have hl : ctx.pendingEvents.lookup (self.env.toLowercase e.name) = none := by
      simpa [polls] using h
    simp only [activation, hl]
  | _ => rfl

theorem running_of_program {a : Activation} (h : ctx.program = some a) : ctx.running = true := by
  unfold program at h
  split at h
  · rename_i base f hfn
    exact running_iff.mpr ⟨base, f, hfn⟩
  · cases h

theorem program_world {a : Activation} (h : ctx.program = some a) :
    a.2 = { ctx.world with notified := false } := by
  unfold program at h
  split at h <;> cases h
  rfl

/-- An event activates the program it starts, or the running one once it has handed over. -/
theorem activation_cases {a : Activation} (h : self.activation ctx k = some a) :
    (∃ e, ∃ func : OrchestratorFunction, k = .start e ∧ a = (func.call self.instanceId e.input,
      { ctx.world with octx := .new self.instanceId e.input, notified := false })) ∨
      ∃ ctx₁, Delivery self.env ctx k ctx₁ ∧ ctx₁.program = some a := by
  cases k with
  | start e =>
    obtain ⟨func, -, rfl⟩ := Option.map_eq_some_iff.mp h
    exact .inl ⟨e, func, rfl, rfl⟩
  | complete => exact .inr ⟨ctx, .complete, h⟩
  | resolve id payload message polls =>
    cases polls with
    | false => cases h
    | true =>
      simp only [activation] at h
      split at h
      · rename_i ctx₁ hr
        exact .inr ⟨ctx₁, resolveTask_delivery self true hr, h⟩
      · cases h
  | raise e =>
    simp only [activation] at h
    split at h
    · rename_i t waiters hl
      obtain ⟨w, hs, h⟩ := Option.bind_eq_some_iff.mp h
      exact .inr ⟨_, .give e t waiters w hl hs, h⟩
    · cases h
  | _ => cases h

theorem running_of_activation {a : Activation} (h : self.activation ctx k = some a)
    (hk : k.isStart = false) : ctx.running = true := by
  obtain ⟨e, func, rfl, -⟩ | ⟨ctx₁, hd, hp⟩ := activation_cases h
  · cases hk
  · have hrun := running_of_program hp
    unfold running at hrun ⊢
    rwa [hd.orchestratorFn] at hrun

theorem executionTerminated_frame (ctx : OrchestrationExecutorContext) :
    ctx.executionTerminated.orchestratorFn = ctx.orchestratorFn ∧
      ctx.executionTerminated.world = ctx.world := by
  cases hc : ctx.isComplete <;>
    simp [executionTerminated, setComplete, hc, nextSequenceNumber, insertAction]

theorem Turn.running (h : self.Turn ctx k ctx') (hr : ctx'.running = true) :
    k.isStart = true ∨ ctx.running = true := by
  cases h with
  | rest hd ha hk =>
    unfold OrchestrationExecutorContext.running at hr ⊢
    rw [hd.orchestratorFn] at hr
    exact .inr hr
  | suspend hd hfn ha hrun =>
    exact .inr (running_iff.mpr ⟨_, _, hd.orchestratorFn ▸ hfn⟩)
  | report hk hd hfn ha hrun => cases hr
  | discard hfn hrun => cases hr
  | terminate =>
    unfold OrchestrationExecutorContext.running at hr ⊢
    rw [(executionTerminated_frame ctx).1] at hr
    exact .inr hr
  | unknown e he => exact .inl rfl
  | begin he hrun => exact .inl rfl
  | forget he hrun => exact .inl rfl
  | _ => exact .inr hr

theorem Turn.returns_none (h : self.Turn ctx k ctx') (hr : ctx'.running = true)
    (hk : k.isStart = false) : self.returns ctx k = none := by
  cases h with
  | rest hd ha _ => simp [returns, ha]
  | suspend hd hfn ha hrun => simp only [returns, ha, Option.bind_some, Activation.returns, hrun]
  | report hk hd hfn ha hrun => cases hr
  | discard hfn hrun => cases hr
  | unknown e he => cases hk
  | begin he hrun => cases hk
  | forget he hrun => cases hk
  | _ => rfl

end OrchestrationExecutorFuture

end DurableTask
