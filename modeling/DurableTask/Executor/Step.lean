import DurableTask.Runtime.Context

/-! # The orchestration executor

The executor replays a history through an orchestrator: every event may hand a
value to the suspended program and poll it, and what the program issued is then
drained from its channels into the maps of pending actions, tasks and events.
-/

namespace DurableTask

open Interaction Queues

/-- The boxed future of an orchestrator; it owns the tasks on the heap from `base` on. -/
inductive BoxFuture where
  | suspended (base : TaskRef) (f : TaskFuture (OrchestratorResult String))
  | finished

def BoxFuture.pollUnpin (env : Env) :
    BoxFuture → World → Except Panic (Poll (OrchestratorResult String) × BoxFuture × World)
  | .finished, _ => .error .polledAfterReady
  | .suspended base f, w =>
    match (f.poll f.state).run (handle env) { w with notified := false } with
    | .error p => .error p
    | .ok (.suspended s, w') => .ok (.pending, .suspended base (f.resume s), w')
    | .ok (.ready r, w') => .ok (.ready r, .finished, w'.finish base r)

structure OrchestrationExecutorContext where
  isReplaying : Bool
  isComplete : Bool
  sequenceNumber : Int
  currentTimeUtc : Timestamp
  pendingActions : AList fun _ : Int => OrchestratorAction
  pendingTasks : AList fun _ : Int => TaskRef
  pendingEvents : Keyed String TaskRef
  /-- The program; its three receivers are present exactly when it is. -/
  orchestratorFn : Option BoxFuture
  completionStatus : OrchestrationStatus
  /-- The insertions into the pending actions so far; only recorded, never read. -/
  inserted : List (Int × OrchestratorAction)
  world : World

namespace OrchestrationExecutorContext

def new (budget : Budget) : OrchestrationExecutorContext where
  isReplaying := false
  isComplete := false
  sequenceNumber := 0
  currentTimeUtc := default
  pendingActions := ∅
  pendingTasks := ∅
  pendingEvents := ∅
  orchestratorFn := none
  completionStatus := .running
  inserted := []
  world := ⟨.new "" none, ∅, [], budget, false, 0, []⟩

def nextSequenceNumber (ctx : OrchestrationExecutorContext) : Int × OrchestrationExecutorContext :=
  (ctx.sequenceNumber + 1, { ctx with sequenceNumber := ctx.sequenceNumber + 1 })

def getActions (env : Env) (ctx : OrchestrationExecutorContext) : List OrchestratorAction :=
  env.hashOrder (ctx.pendingActions.entries.map Sigma.snd)

def setComplete (ctx : OrchestrationExecutorContext) (status : OrchestrationStatus) :
    OrchestrationExecutorContext :=
  if ctx.isComplete then ctx else { ctx with completionStatus := status }

def insertAction (ctx : OrchestrationExecutorContext) (id : Int) (action : OrchestratorAction) :
    OrchestrationExecutorContext :=
  { ctx with
    pendingActions := ctx.pendingActions.insert id action
    inserted := ctx.inserted ++ [(id, action)] }

/-- The common body of the arms that acknowledge an action: `pending_actions.remove`. -/
def acknowledge (ctx : OrchestrationExecutorContext) (id : Int) : OrchestrationExecutorContext :=
  { ctx with pendingActions := ctx.pendingActions.erase id }

def executionTerminated (ctx : OrchestrationExecutorContext) : OrchestrationExecutorContext :=
  let ctx := ctx.setComplete .terminated
  let (taskId, ctx) := ctx.nextSequenceNumber
  ctx.insertAction taskId (newCompleteOrchestrationAction taskId .terminated none [] none)

/--
The common body of the completion arms: take the sender of a task and send it the payload, or
drop the sender if there is none.
-/
def resolveTask (ctx : OrchestrationExecutorContext) (id : Int) (payload : Option String)
    (message : String) : Except Panic OrchestrationExecutorContext :=
  match ctx.pendingTasks.lookup id with
  | none => .ok ctx
  | some t =>
    let ctx := { ctx with pendingTasks := ctx.pendingTasks.erase id }
    match payload with
    | none => .ok { ctx with world := ctx.world.dropSender t }
    | some result =>
      match ctx.world.send t (some result) with
      | none => .error (.expect message)
      | some w => .ok { ctx with world := w }

def bufferEvent (ctx : OrchestrationExecutorContext) (name : String) (input : Option String) :
    OrchestrationExecutorContext :=
  { ctx with world.receivedEvents := ctx.world.receivedEvents.push name input }

def takeAction (ctx : OrchestrationExecutorContext) (m : Int × OrchestratorAction) :
    OrchestrationExecutorContext :=
  let ctx := ctx.insertAction m.1 m.2
  if m.1 > 0 then { ctx with sequenceNumber := m.1 } else ctx

def drainActions (ctx : OrchestrationExecutorContext) : OrchestrationExecutorContext :=
  ctx.world.octx.actionsTx.foldl takeAction { ctx with world.octx.actionsTx := [] }

/-- Take a message from `task_rx`; a sender that it replaces goes out of scope. -/
def takeTask (ctx : OrchestrationExecutorContext) (m : Int × TaskRef) :
    OrchestrationExecutorContext :=
  let world := (ctx.pendingTasks.lookup m.1).elim ctx.world ctx.world.dropSender
  { ctx with pendingTasks := ctx.pendingTasks.insert m.1 m.2, world }

def drainTasks (ctx : OrchestrationExecutorContext) : OrchestrationExecutorContext :=
  ctx.world.octx.tasksTx.foldl takeTask { ctx with world.octx.tasksTx := [] }

def takeWaiter (ctx : OrchestrationExecutorContext) (m : String × TaskRef) :
    OrchestrationExecutorContext :=
  { ctx with pendingEvents := ctx.pendingEvents.push m.1 m.2 }

def drainEvents (ctx : OrchestrationExecutorContext) : OrchestrationExecutorContext :=
  ctx.world.octx.eventsTx.foldl takeWaiter { ctx with world.octx.eventsTx := [] }

def drain (ctx : OrchestrationExecutorContext) : OrchestrationExecutorContext :=
  if ctx.orchestratorFn.isSome then ctx.drainActions.drainTasks.drainEvents else ctx

end OrchestrationExecutorContext

structure OrchestrationExecutorFuture where
  env : Env
  instanceId : String
  registry : Registry

open OrchestrationExecutorContext

def completionAction (taskId : Int) : OrchestratorResult String → OrchestratorAction
  | .ok .continueAsNew => newCompleteOrchestrationAction taskId .continuedAsNew none [] none
  | .ok (.output output) => newCompleteOrchestrationAction taskId .completed (some output) [] none
  | .error _ => newCompleteOrchestrationAction taskId .failed none [] none

namespace OrchestrationExecutorFuture

variable (self : OrchestrationExecutorFuture)

def poll (ctx : OrchestrationExecutorContext) : Except Panic OrchestrationExecutorContext :=
  if ctx.isComplete then .ok ctx
  else
    match ctx.orchestratorFn with
    | none => .error .polledWithoutFuture
    | some orchestratorFn =>
      match orchestratorFn.pollUnpin self.env ctx.world with
      | .error p => .error p
      | .ok (.ready result, fn, w) =>
        let ctx := { ctx with orchestratorFn := some fn, world := w }
        let (taskId, ctx) := ctx.nextSequenceNumber
        .ok (ctx.insertAction taskId (completionAction taskId result))
      | .ok (.pending, fn, w) => .ok { ctx with orchestratorFn := some fn, world := w }

def resolveAndPoll (ctx : OrchestrationExecutorContext) (id : Int) (payload : Option String)
    (message : String) : Except Panic OrchestrationExecutorContext :=
  match ctx.resolveTask id payload message with
  | .error p => .error p
  | .ok ctx' => self.poll ctx'

def start (ctx : OrchestrationExecutorContext) (event : ExecutionStartedEvent) :
    Except Panic OrchestrationExecutorContext :=
  match self.registry.getOrchestrator event.name with
  | none => .ok ctx
  | some func =>
    let base := ctx.world.cells.length
    let world := { ctx.world with octx := .new self.instanceId event.input }
    let orchestratorFn := BoxFuture.suspended base (func.call self.instanceId event.input)
    match orchestratorFn.pollUnpin self.env world with
    | .error p => .error p
    -- the new context and its receivers go out of scope with the future
    | .ok (.ready _, _, w) =>
      .ok { ctx with world := { w with octx := ctx.world.octx, notified := ctx.world.notified } }
    -- the future that was stored before, if any, is replaced
    | .ok (.pending, fn, w) =>
      .ok { ctx with orchestratorFn := some fn, world := w.dropBefore base }

/-- The `ExecutionCompleted` arm. -/
def executionCompleted (ctx : OrchestrationExecutorContext) :
    Except Panic OrchestrationExecutorContext :=
  match ctx.orchestratorFn with
  | none => .ok ctx
  | some orchestratorFn =>
    match orchestratorFn.pollUnpin self.env ctx.world with
    | .error p => .error p
    | .ok (_, fn, w) => .ok { ctx with orchestratorFn := some fn, world := w }

/-- The `EventRaised` arm. -/
def eventRaised (ctx : OrchestrationExecutorContext) (event : EventRaisedEvent) :
    Except Panic OrchestrationExecutorContext :=
  let name := self.env.toLowercase event.name
  match ctx.pendingEvents.lookup name with
  | some waiters =>
    let rest := ctx.pendingEvents.pop name waiters
    match waiters.head? with
    | none => .error .emptyQueue
    | some t =>
      match ctx.world.send t event.input with
      | none => .error .deadWaiter
      | some w => self.poll { ctx with pendingEvents := rest, world := w }
  | none => .ok (ctx.bufferEvent name event.input)

def processEvent (ctx : OrchestrationExecutorContext) (event : HistoryEvent) :
    Except Panic OrchestrationExecutorContext :=
  match event.eventType with
  | none => .ok ctx
  | some .orchestratorStarted =>
    .ok { ctx with currentTimeUtc := event.timestamp.getD ctx.currentTimeUtc }
  | some (.executionStarted e) => self.start ctx e
  | some .executionCompleted => self.executionCompleted ctx
  | some (.executionTerminated _) => .ok ctx.executionTerminated
  | some (.taskScheduled _) => .ok (ctx.acknowledge event.eventId)
  | some (.taskCompleted e) =>
    self.resolveAndPoll ctx e.taskScheduledId e.result "failed to unblock activity"
  | some (.taskFailed e) =>
    ctx.resolveTask e.taskScheduledId (e.failureDetails.map TaskFailureDetails.errorMessage)
      "failed to unblock activity"
  | some (.subOrchestrationInstanceCreated _) => .ok (ctx.acknowledge event.eventId)
  | some (.subOrchestrationInstanceCompleted e) =>
    self.resolveAndPoll ctx e.taskScheduledId e.result "failed to unblock sub orchestrator"
  | some (.subOrchestrationInstanceFailed e) =>
    self.resolveAndPoll ctx e.taskScheduledId (e.failureDetails.map TaskFailureDetails.errorMessage)
      "failed to unblock activity"
  | some (.timerCreated _) => .ok (ctx.acknowledge event.eventId)
  | some (.timerFired e) =>
    self.resolveAndPoll ctx e.timerId (e.fireAt.map fun _ => "") "failed to unblock timer"
  | some .eventSent => .ok ctx
  | some (.eventRaised e) => self.eventRaised ctx e
  | some .genericEvent => .ok ctx
  | some .historyState => .ok ctx
  | some .continueAsNew => .ok ctx
  | some .executionSuspended => .ok ctx
  | some .executionResumed => .ok ctx
  | some .orchestratorCompleted => .ok ctx

def processEvents (ctx : OrchestrationExecutorContext) :
    List HistoryEvent → Except Panic OrchestrationExecutorContext
  | [] => .ok ctx
  | event :: events =>
    match self.processEvent ctx event with
    | .error p => .error p
    | .ok ctx' => processEvents ctx'.drain events

/-- `OrchestrationExecutor::execute`: the single poll of the executor future. -/
def execute (oldEvents newEvents : List HistoryEvent) : Except Panic (List OrchestratorAction) :=
  match self.processEvents { new self.env.budget with isReplaying := true } oldEvents with
  | .error p => .error p
  | .ok ctx =>
    match self.processEvents { ctx with isReplaying := false } newEvents with
    | .error p => .error p
    | .ok ctx' => .ok (ctx'.getActions self.env)

end OrchestrationExecutorFuture

end DurableTask
