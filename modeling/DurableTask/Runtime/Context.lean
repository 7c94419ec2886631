import DurableTask.Interaction.Future
import DurableTask.Queues.Keyed
import DurableTask.Runtime.Task

/-! # The orchestrator's side

An orchestrator sees an `OrchestratorContext` and the tasks it creates through
it. Its operations are given meaning on a `World`: the context with its three
channels, the buffered events it shares with the executor, and the heap of
tasks.
-/

namespace DurableTask

open Interaction Queues

/-- What a run depends on besides its arguments and the program. -/
structure Env where
  /-- The system clock at its successive readings, in nanoseconds since the epoch. -/
  now : ℕ → ℕ
  /-- `str::to_lowercase` of the standard library. -/
  toLowercase : String → String
  /-- The budget of the tokio task when it polls the executor. -/
  budget : Budget
  /-- The order in which a hash map yields its values. -/
  hashOrder : List OrchestratorAction → List OrchestratorAction
  hashOrder_perm : ∀ l, (hashOrder l).Perm l

inductive OrchestratorResultValue (α : Type) where
  | continueAsNew
  | output (a : α)
  deriving DecidableEq, Repr

/-- An `anyhow::Error` is kept as its message. -/
abbrev OrchestratorResult (α : Type) := Except String (OrchestratorResultValue α)

/--
The context handed to an orchestrator. Each `Sender` is kept as the list of what was sent
and not received yet. Ids are unbounded: an overflow would take `2 ^ 31` tasks of one instance.
-/
structure OrchestratorContext where
  instanceId : String
  input : Option String
  sequenceNumber : Int
  actionsTx : List (Int × OrchestratorAction)
  tasksTx : List (Int × TaskRef)
  eventsTx : List (String × TaskRef)

def OrchestratorContext.new (instanceId : String) (input : Option String) : OrchestratorContext :=
  ⟨instanceId, input, 0, [], [], []⟩

/-- The state that orchestrator and executor share. -/
structure World where
  octx : OrchestratorContext
  receivedEvents : Keyed String (Option String)
  cells : List Cell
  budget : Budget
  /-- A value was sent to a task and the orchestrator was not polled since. -/
  notified : Bool
  clockReads : ℕ
  /-- What orchestrator futures have returned so far; only recorded, never read. -/
  returned : List (OrchestratorResult String)

namespace World

def nextSequenceNumber (w : World) : Int × World :=
  (w.octx.sequenceNumber + 1,
    { w with octx := { w.octx with sequenceNumber := w.octx.sequenceNumber + 1 } })

def sendAction (w : World) (id : Int) (action : OrchestratorAction) : World :=
  { w with octx := { w.octx with actionsTx := w.octx.actionsTx ++ [(id, action)] } }

def sendTask (w : World) (id : Int) (unblock : TaskRef) : World :=
  { w with octx := { w.octx with tasksTx := w.octx.tasksTx ++ [(id, unblock)] } }

def sendEvent (w : World) (name : String) (unblock : TaskRef) : World :=
  { w with octx := { w.octx with eventsTx := w.octx.eventsTx ++ [(name, unblock)] } }

def alloc (w : World) (c : Cell) : TaskRef × World :=
  (w.cells.length, { w with cells := w.cells ++ [c] })

def issue (w : World) (mkAction : Int → OrchestratorAction) : TaskRef × World :=
  let (id, w) := w.nextSequenceNumber
  let w := w.sendAction id (mkAction id)
  let (task, w) := w.alloc (.new (.action (mkAction id)))
  (task, w.sendTask id task)

def createTimer (env : Env) (w : World) (fireAfterMillis : ℕ) : TaskRef × World :=
  let timestamp := Timestamp.ofNanos (env.now w.clockReads + fireAfterMillis * 1000000)
  { w with clockReads := w.clockReads + 1 }.issue fun id => newCreateTimerAction id timestamp

def scheduleActivity (w : World) (name : String) (input : Option String) : TaskRef × World :=
  w.issue fun id => newScheduleTaskAction id name input

def scheduleSubOrchestrator (w : World) (name instanceId : String) (input : Option String) :
    TaskRef × World :=
  w.issue fun id => newCreateSubOrchestrationAction id name instanceId input

/-- `await_signal_event` up to the point where it awaits its task. -/
def awaitSignalEvent (env : Env) (w : World) (name : String) : Except Panic (TaskRef × World) :=
  let name := env.toLowercase name
  match w.receivedEvents.lookup name with
  | some received =>
    let rest := w.receivedEvents.pop name received
    match received.head? with
    | none => .error .emptyQueue
    | some none => .error .missingPayload
    | some (some payload) =>
      -- the sender of the fresh channel goes out of scope unused
      let task := { CompletableTask.new.complete payload with unblockRx := .closed }
      .ok ({ w with receivedEvents := rest }.alloc { Cell.new (.signal name) with task })
  | none =>
    let (task, w) := w.alloc (.new (.signal name))
    .ok (task, w.sendEvent name task)

def pollTask (w : World) (t : TaskRef) : Except Panic (Poll String × World) :=
  match w.cells[t]? with
  | none => .error .useAfterDrop
  | some c =>
    match c.poll w.budget with
    | .error p => .error p
    | .ok (v, c', b) => .ok (v, { w with cells := w.cells.set t c', budget := b })

def dropTask (w : World) (t : TaskRef) : World := { w with cells := w.cells.modify t Cell.drop }

def send (w : World) (t : TaskRef) (value : Option String) : Option World :=
  match w.cells[t]? with
  | none => none
  | some c =>
    if c.dropped then none
    else
      let c' := { c with task := { c.task with unblockRx := .sent value } }
      some { w with cells := w.cells.set t c', notified := true }

def dropSender (w : World) (t : TaskRef) : World :=
  { w with
    cells := w.cells.modify t fun c => { c with task := { c.task with unblockRx := .closed } } }

def dropFrom (w : World) (base : TaskRef) : World :=
  { w with cells := w.cells.take base ++ (w.cells.drop base).map Cell.drop }

def finish (w : World) (base : TaskRef) (r : OrchestratorResult String) : World :=
  { w.dropFrom base with returned := w.returned ++ [r] }

def dropBefore (w : World) (base : TaskRef) : World :=
  { w with cells := (w.cells.take base).map Cell.drop ++ w.cells.drop base }

end World

/-- What an orchestrator can do while it is polled. -/
inductive Op where
  | createTimer (fireAfterMillis : ℕ)
  | scheduleActivity (name : String) (input : Option String)
  | scheduleSubOrchestrator (name instanceId : String) (input : Option String)
  | awaitSignalEvent (name : String)
  | poll (t : TaskRef)
  | drop (t : TaskRef)
  | panic (message : String)

def Op.Reply : Op → Type
  | .createTimer _ => TaskRef
  | .scheduleActivity _ _ => TaskRef
  | .scheduleSubOrchestrator _ _ _ => TaskRef
  | .awaitSignalEvent _ => TaskRef
  | .poll _ => Poll String
  | .drop _ => Unit
  | .panic _ => Empty

def handle (env : Env) : Handler Op Op.Reply World Panic
  | .createTimer fireAfterMillis, w => .ok (w.createTimer env fireAfterMillis)
  | .scheduleActivity name input, w => .ok (w.scheduleActivity name input)
  | .scheduleSubOrchestrator name instanceId input, w =>
    .ok (w.scheduleSubOrchestrator name instanceId input)
  | .awaitSignalEvent name, w => w.awaitSignalEvent env name
  | .poll t, w => w.pollTask t
  | .drop t, w => .ok ((), w.dropTask t)
  | .panic message, _ => .error (.program message)

abbrev OrchestratorProg (α : Type) := Prog Op Op.Reply α

/-- A future of an orchestrator, or of a part of one. -/
abbrev TaskFuture (α : Type) := Future Op Op.Reply α

/-- A registered orchestrator, its output already serialised. -/
structure OrchestratorFunction where
  call : (instanceId : String) → (input : Option String) → TaskFuture (OrchestratorResult String)

/-- Serialise the output of an orchestrator; `toJson` is the serialiser of its type. -/
def OrchestratorFunction.new {O : Type} (toJson : O → Except String String)
    (f : String → Option String → TaskFuture (OrchestratorResult O)) : OrchestratorFunction where
  call instanceId input := (f instanceId input).map fun
    | .error e => .error e
    | .ok .continueAsNew => .ok .continueAsNew
    | .ok (.output o) => (toJson o).map .output

structure Registry where
  orchestrators : String → Option OrchestratorFunction

namespace Registry

def empty : Registry := ⟨fun _ => none⟩

def addOrchestrator (r : Registry) (name : String) (func : OrchestratorFunction) : Registry :=
  ⟨Function.update r.orchestrators name (some func)⟩

def getOrchestrator (r : Registry) (name : String) : Option OrchestratorFunction :=
  r.orchestrators name

end Registry

end DurableTask
