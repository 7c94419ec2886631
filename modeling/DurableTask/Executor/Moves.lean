import DurableTask.Executor.Replay
import DurableTask.Runtime.Steps

/-! # Deliveries and moves

An event first hands over what it carries, and the executor then goes on in
small moves: operations of the program, its suspension or return, bookkeeping,
and the messages that are taken from the channels. Invariants are proved for
each delivery and each move; only `ExecutionStarted` is treated apart.
-/

namespace DurableTask

open Interaction Queues OrchestrationExecutorContext

/-- A poll of the boxed future runs its program, which is suspended again or returns. -/
theorem BoxFuture.pollUnpin_ok {env : Env} {fn fn' : BoxFuture} {w w' : World}
    {r : Poll (OrchestratorResult String)} (h : fn.pollUnpin env w = .ok (r, fn', w')) :
    ∃ base f, fn = .suspended base f ∧
      ((∃ s, (f.poll f.state).run (handle env) { w with notified := false } =
          .ok (.suspended s, w') ∧ r = .pending ∧ fn' = .suspended base (f.resume s)) ∨
        ∃ v w₁, (f.poll f.state).run (handle env) { w with notified := false } =
          .ok (.ready v, w₁) ∧ r = .ready v ∧ fn' = .finished ∧ w' = w₁.finish base v) := by
  cases fn with
  | finished => cases h
  | suspended base f =>
    simp only [pollUnpin] at h
    split at h
    · cases h
    · rename_i s w₁ hrun
      cases h
      exact ⟨base, f, rfl, .inl ⟨s, hrun, rfl, rfl⟩⟩
    · rename_i v w₁ hrun
      cases h
      exact ⟨base, f, rfl, .inr ⟨v, w₁, hrun, rfl, rfl, rfl⟩⟩

/-- One move of the executor that hands nothing to the program. -/
inductive Move (env : Env) (ctx : OrchestrationExecutorContext) :
    OrchestrationExecutorContext → Prop where
  | note (sequenceNumber : Int) (currentTimeUtc : Timestamp)
      (pendingActions : AList fun _ : Int => OrchestratorAction)
      (completionStatus : OrchestrationStatus) (inserted : List (Int × OrchestratorAction)) :
    Move env ctx { ctx with
      sequenceNumber, currentTimeUtc, pendingActions, completionStatus, inserted }
  | wake (base : TaskRef) (f : TaskFuture (OrchestratorResult String))
      (hfn : ctx.orchestratorFn = some (.suspended base f)) :
    Move env ctx { ctx with world.notified := false }
  | step (base : TaskRef) (f : TaskFuture (OrchestratorResult String)) (w : World)
      (hfn : ctx.orchestratorFn = some (.suspended base f)) (hs : World.Step env ctx.world w) :
    Move env ctx { ctx with world := w }
  | suspend (base : TaskRef) (f f' : TaskFuture (OrchestratorResult String))
      (hfn : ctx.orchestratorFn = some (.suspended base f)) :
    Move env ctx { ctx with orchestratorFn := some (.suspended base f') }
  | finish (base : TaskRef) (f : TaskFuture (OrchestratorResult String))
      (r : OrchestratorResult String) (hfn : ctx.orchestratorFn = some (.suspended base f)) :
    Move env ctx { ctx with orchestratorFn := some .finished, world := ctx.world.finish base r }
  | takeAction (m : Int × OrchestratorAction) (rest : List (Int × OrchestratorAction))
      (hm : ctx.world.octx.actionsTx = m :: rest) :
    Move env ctx ({ ctx with world.octx.actionsTx := rest }.takeAction m)
  | takeTask (m : Int × TaskRef) (rest : List (Int × TaskRef))
      (hm : ctx.world.octx.tasksTx = m :: rest) :
    Move env ctx ({ ctx with world.octx.tasksTx := rest }.takeTask m)
  | takeWaiter (m : String × TaskRef) (rest : List (String × TaskRef))
      (hm : ctx.world.octx.eventsTx = m :: rest) :
    Move env ctx ({ ctx with world.octx.eventsTx := rest }.takeWaiter m)

abbrev Moves (env : Env) :
    OrchestrationExecutorContext → OrchestrationExecutorContext → Prop :=
  Relation.ReflTransGen (Move env)

/-- What an event other than `ExecutionStarted` hands over. -/
inductive Delivery (env : Env) (ctx : OrchestrationExecutorContext) :
    EventKind → OrchestrationExecutorContext → Prop where
  | skip : Delivery env ctx .skip ctx
  | tick (timestamp : Option Timestamp) : Delivery env ctx (.tick timestamp) ctx
  | complete : Delivery env ctx .complete ctx
  | terminate : Delivery env ctx .terminate ctx
  | acknowledge (id : Int) : Delivery env ctx (.acknowledge id) ctx
  | miss (id : Int) (payload : Option String) (message : String) (polls : Bool)
      (hl : ctx.pendingTasks.lookup id = none) :
    Delivery env ctx (.resolve id payload message polls) ctx
  | send (id : Int) (v message : String) (polls : Bool) (t : TaskRef) (w : World)
      (hl : ctx.pendingTasks.lookup id = some t) (hs : ctx.world.send t (some v) = some w) :
    Delivery env ctx (.resolve id (some v) message polls)
      { ctx with pendingTasks := ctx.pendingTasks.erase id, world := w }
  | close (id : Int) (message : String) (polls : Bool) (t : TaskRef)
      (hl : ctx.pendingTasks.lookup id = some t) :
    Delivery env ctx (.resolve id none message polls)
      { ctx with pendingTasks := ctx.pendingTasks.erase id, world := ctx.world.dropSender t }
  | give (e : EventRaisedEvent) (t : TaskRef) (waiters : List TaskRef) (w : World)
      (hl : ctx.pendingEvents.lookup (env.toLowercase e.name) = some (t :: waiters))
      (hs : ctx.world.send t e.input = some w) :
    Delivery env ctx (.raise e) { ctx with
      pendingEvents := ctx.pendingEvents.pop (env.toLowercase e.name) (t :: waiters), world := w }
  | buffer (e : EventRaisedEvent) (hl : ctx.pendingEvents.lookup (env.toLowercase e.name) = none) :
    Delivery env ctx (.raise e) (ctx.bufferEvent (env.toLowercase e.name) e.input)

section Moves

variable {env : Env} {ctx ctx' : OrchestrationExecutorContext}

theorem Moves.preserves {P : OrchestrationExecutorContext → Prop}
    (hP : ∀ ctx ctx', Move env ctx ctx' → P ctx → P ctx') (h : Moves env ctx ctx')
    (hctx : P ctx) : P ctx' := by
  induction h with
  | refl => exact hctx
  | tail _ hm ih => exact hP _ _ hm ih

theorem Moves.steps {base : TaskRef} {f : TaskFuture (OrchestratorResult String)} {w : World}
    (hfn : ctx.orchestratorFn = some (.suspended base f)) (hs : World.Steps env ctx.world w) :
    Moves env ctx { ctx with world := w } := by
  induction hs with
  | refl => exact .refl
  | tail _ hs ih => exact ih.tail (.step base f _ hfn hs)

section Poll

variable {base : TaskRef} {f : TaskFuture (OrchestratorResult String)} {w : World}

theorem Moves.polled (hfn : ctx.orchestratorFn = some (.suspended base f))
    (hs : World.Steps env { ctx.world with notified := false } w) :
    Moves env ctx { ctx with world := w } :=
  .head (.wake base f hfn) (.trans (Moves.steps hfn hs) .refl)

theorem Moves.suspends {s : f.State} (hfn : ctx.orchestratorFn = some (.suspended base f))
    (hrun : (f.poll f.state).run (handle env) { ctx.world with notified := false } =
      .ok (.suspended s, w)) :
    Moves env ctx
      { ctx with orchestratorFn := some (.suspended base (f.resume s)), world := w } :=
  (Moves.polled hfn (run_steps hrun)).tail (.suspend base f (f.resume s) hfn)

theorem Moves.finishes {r : OrchestratorResult String}
    (hfn : ctx.orchestratorFn = some (.suspended base f))
    (hrun : (f.poll f.state).run (handle env) { ctx.world with notified := false } =
      .ok (.ready r, w)) :
    Moves env ctx { ctx with orchestratorFn := some .finished, world := w.finish base r } :=
  (Moves.polled hfn (run_steps hrun)).tail (.finish base f r hfn)

end Poll

theorem pollUnpin_moves {fn fn' : BoxFuture} {w : World} {r : Poll (OrchestratorResult String)}
    (hfn : ctx.orchestratorFn = some fn) (h : fn.pollUnpin env ctx.world = .ok (r, fn', w)) :
    Moves env ctx { ctx with orchestratorFn := some fn', world := w } := by
  obtain ⟨base, f, rfl, hr⟩ := BoxFuture.pollUnpin_ok h
  rcases hr with ⟨s, hrun, rfl, rfl⟩ | ⟨v, w₁, hrun, rfl, rfl, rfl⟩
  · exact Moves.suspends hfn hrun
  · exact Moves.finishes hfn hrun

/-- Receiving the messages of a channel one by one. -/
theorem foldl_moves {α : Type}
    (set : List α → OrchestrationExecutorContext → OrchestrationExecutorContext)
    {take : OrchestrationExecutorContext → α → OrchestrationExecutorContext}
    (hset : ∀ l a ctx, set l (take ctx a) = take (set l ctx) a)
    (hmove : ∀ l a ctx, Move env (set (a :: l) ctx) (take (set l ctx) a)) (l : List α)
    (ctx : OrchestrationExecutorContext) :
    Moves env (set l ctx) (l.foldl take (set [] ctx)) := by
  induction l generalizing ctx with
  | nil => exact .refl
  | cons a l ih =>
    refine .head (hmove l a ctx) ?_
    rw [← hset, List.foldl_cons, ← hset]
    exact ih (take ctx a)

theorem drainActions_moves (ctx : OrchestrationExecutorContext) :
    Moves env ctx ctx.drainActions :=
  foldl_moves (fun l ctx => { ctx with world.octx.actionsTx := l })
    (fun _ _ _ => by unfold takeAction; split <;> rfl) (fun l a _ => .takeAction a l rfl)
    ctx.world.octx.actionsTx ctx

theorem drainTasks_moves (ctx : OrchestrationExecutorContext) : Moves env ctx ctx.drainTasks :=
  foldl_moves (fun l ctx => { ctx with world.octx.tasksTx := l })
    (fun _ m ctx => by simp only [takeTask]; cases ctx.pendingTasks.lookup m.1 <;> rfl)
    (fun l a _ => .takeTask a l rfl) ctx.world.octx.tasksTx ctx

theorem drainEvents_moves (ctx : OrchestrationExecutorContext) : Moves env ctx ctx.drainEvents :=
  foldl_moves (fun l ctx => { ctx with world.octx.eventsTx := l })
    (fun _ _ _ => rfl) (fun l a _ => .takeWaiter a l rfl) ctx.world.octx.eventsTx ctx

theorem drain_moves (env : Env) (ctx : OrchestrationExecutorContext) : Moves env ctx ctx.drain := by
  unfold drain
  split
  · exact ((drainActions_moves ctx).trans (drainTasks_moves _)).trans (drainEvents_moves _)
  · exact .refl

theorem takeAction_eq (ctx : OrchestrationExecutorContext) (m : Int × OrchestratorAction) :
    ctx.takeAction m = { ctx with
      sequenceNumber := if m.1 > 0 then m.1 else ctx.sequenceNumber
      pendingActions := ctx.pendingActions.insert m.1 m.2
      inserted := ctx.inserted ++ [m] } := by
  unfold takeAction
  split <;> rfl

theorem Moves.isComplete (h : Moves env ctx ctx') : ctx'.isComplete = ctx.isComplete := by
  induction h with
  | refl => rfl
  | tail _ hm ih =>
    rw [← ih]
    cases hm with
    | takeAction m rest _ => rw [takeAction_eq]
    | _ => rfl

theorem Delivery.isComplete {k : EventKind} (h : Delivery env ctx k ctx') :
    ctx'.isComplete = ctx.isComplete := by
  cases h <;> rfl

theorem Delivery.orchestratorFn {k : EventKind} (h : Delivery env ctx k ctx') :
    ctx'.orchestratorFn = ctx.orchestratorFn := by
  cases h <;> rfl

end Moves

namespace OrchestrationExecutorFuture

variable {self : OrchestrationExecutorFuture} {ctx ctx' : OrchestrationExecutorContext}

/-- The shared poll: the program is suspended again, or its result is put into an action. -/
theorem poll_ok (hc : ctx.isComplete = false) (h : self.poll ctx = .ok ctx') :
    ∃ fn, ctx.orchestratorFn = some fn ∧
      ((∃ fn' w, fn.pollUnpin self.env ctx.world = .ok (.pending, fn', w) ∧
        ctx' = { ctx with orchestratorFn := some fn', world := w }) ∨
      ∃ r fn' w, fn.pollUnpin self.env ctx.world = .ok (.ready r, fn', w) ∧
        ctx' = { ctx with
          orchestratorFn := some fn'
          world := w
          sequenceNumber := ctx.sequenceNumber + 1
          pendingActions := ctx.pendingActions.insert (ctx.sequenceNumber + 1)
            (completionAction (ctx.sequenceNumber + 1) r)
          inserted := ctx.inserted ++
            [(ctx.sequenceNumber + 1, completionAction (ctx.sequenceNumber + 1) r)] }) := by
  rw [poll, if_neg (by simp [hc])] at h
  cases hfn : ctx.orchestratorFn with
  | none => rw [hfn] at h; cases h
  | some fn =>
    refine ⟨fn, rfl, ?_⟩
    rw [hfn] at h
    dsimp only at h
    rcases hp : fn.pollUnpin self.env ctx.world with p | ⟨_ | _, fn', w⟩ <;> rw [hp] at h <;>
      cases h
    · exact .inr ⟨_, fn', w, rfl, rfl⟩
    · exact .inl ⟨fn', w, rfl, rfl⟩

theorem poll_suspended {base : TaskRef} {f : TaskFuture (OrchestratorResult String)}
    {s s' : f.State} {w : World} (hc : ctx.isComplete = false)
    (hfn : ctx.orchestratorFn = some (.suspended base (f.resume s)))
    (hrun : (f.poll s).run (handle self.env) { ctx.world with notified := false } =
      .ok (.suspended s', w)) :
    self.poll ctx =
      .ok { ctx with orchestratorFn := some (.suspended base (f.resume s')), world := w } := by
  simp [poll, hc, hfn, BoxFuture.pollUnpin, Future.resume, hrun]

theorem poll_ready {base : TaskRef} {f : TaskFuture (OrchestratorResult String)}
    {s : f.State} {w : World} {a : OrchestratorResult String} (hc : ctx.isComplete = false)
    (hfn : ctx.orchestratorFn = some (.suspended base (f.resume s)))
    (hrun : (f.poll s).run (handle self.env) { ctx.world with notified := false } =
      .ok (.ready a, w)) :
    self.poll ctx = .ok (({ ctx with
      orchestratorFn := some .finished
      world := w.finish base a
      sequenceNumber := ctx.sequenceNumber + 1 } : OrchestrationExecutorContext).insertAction
        (ctx.sequenceNumber + 1) (completionAction (ctx.sequenceNumber + 1) a)) := by
  simp [poll, hc, hfn, BoxFuture.pollUnpin, Future.resume, hrun, nextSequenceNumber]

theorem poll_moves (hc : ctx.isComplete = false) (h : self.poll ctx = .ok ctx') :
    Moves self.env ctx ctx' := by
  obtain ⟨fn, hfn, ⟨fn', w, hp, rfl⟩ | ⟨r, fn', w, hp, rfl⟩⟩ := poll_ok hc h
  · exact pollUnpin_moves hfn hp
  · exact (pollUnpin_moves hfn hp).tail (.note _ _ _ _ _)

theorem resolveTask_delivery (self : OrchestrationExecutorFuture) {id : Int}
    {payload : Option String} {message : String} (polls : Bool)
    (h : ctx.resolveTask id payload message = .ok ctx') :
    Delivery self.env ctx (.resolve id payload message polls) ctx' := by
  unfold resolveTask at h
  split at h
  · rename_i hl
    cases h
    exact .miss id payload message polls hl
  · rename_i t hl
    cases payload with
    | none =>
      cases h
      exact .close id message polls t hl
    | some v =>
      dsimp only at h
      cases hs : ctx.world.send t (some v) with
      | none => rw [hs] at h; cases h
      | some w =>
        rw [hs] at h
        cases h
        exact .send id v message polls t w hl hs

theorem eventRaised_ok {e : EventRaisedEvent} (h : self.eventRaised ctx e = .ok ctx') :
    (ctx.pendingEvents.lookup (self.env.toLowercase e.name) = none ∧
      ctx' = ctx.bufferEvent (self.env.toLowercase e.name) e.input) ∨
    ∃ t waiters w, ctx.pendingEvents.lookup (self.env.toLowercase e.name) = some (t :: waiters) ∧
      ctx.world.send t e.input = some w ∧ self.poll { ctx with
        pendingEvents := ctx.pendingEvents.pop (self.env.toLowercase e.name) (t :: waiters)
        world := w } = .ok ctx' := by
  simp only [eventRaised] at h
  split at h
  · rename_i waiters hl
    rcases waiters with _ | ⟨t, waiters⟩
    · cases h
    · dsimp only [List.head?_cons] at h
      split at h
      · cases h
      · rename_i w hs
        exact .inr ⟨t, waiters, w, hl, hs, h⟩
  · rename_i hl
    cases h
    exact .inl ⟨hl, rfl⟩

theorem executionTerminated_eq (hc : ctx.isComplete = false) :
    ctx.executionTerminated = { ctx with
      completionStatus := .terminated
      sequenceNumber := ctx.sequenceNumber + 1
      pendingActions := ctx.pendingActions.insert (ctx.sequenceNumber + 1)
        (newCompleteOrchestrationAction (ctx.sequenceNumber + 1) .terminated none [] none)
      inserted := ctx.inserted ++ [(ctx.sequenceNumber + 1,
        newCompleteOrchestrationAction (ctx.sequenceNumber + 1) .terminated none [] none)] } := by
  rw [executionTerminated, setComplete, if_neg (by simp [hc])]
  rfl

end OrchestrationExecutorFuture

end DurableTask
