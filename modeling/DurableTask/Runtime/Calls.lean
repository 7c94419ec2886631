import DurableTask.Runtime.Context

/-! # The futures of the orchestrator's API

`call_activity`, `call_sub_orchestrator` and `await_signal_event` are async
functions: the first poll creates the task, every poll polls it, and a task
that is ready has its payload decoded.
-/

namespace DurableTask

open Interaction

/-- `serde_json::to_string` at an argument type; an error is kept as its message. -/
abbrev Encoder (A : Type) := A → Except String String

/-- `serde_json::from_str` at a result type. -/
abbrev Decoder (R : Type) := String → Except String R

def panicWith {α : Type} (message : String) : OrchestratorProg α :=
  .step (.panic message) fun r => nomatch r

def decodeOutput {R : Type} (decode : Decoder R) (payload : String) :
    OrchestratorProg (Except String R) :=
  match decode payload with
  | .ok v => .pure (.ok v)
  | .error _ => panicWith "output deserialization failed"

def encodeInput {A α : Type} (encode : Encoder A) (input : A) (k : String → OrchestratorProg α) :
    OrchestratorProg α :=
  match encode input with
  | .ok s => k s
  | .error _ => panicWith "input serialization failed"

def awaitTask {R : Type} (decode : Decoder R) (t : TaskRef) :
    OrchestratorProg (Progress (Option TaskRef) (Except String R)) :=
  .step (.poll t) fun
    | .pending => .pure (.suspended (some t))
    | .ready payload => (decodeOutput decode payload).bind fun r => .pure (.ready r)

def taskCall {R : Type} (create : OrchestratorProg TaskRef) (decode : Decoder R) :
    TaskFuture (Except String R) where
  State := Option TaskRef
  state := none
  poll
    | none => create.bind (awaitTask decode)
    | some t => awaitTask decode t

section Calls

variable {A R : Type} (encode : Encoder A) (decode : Decoder R)

def callActivity (typeName activityType : String) (input : A) : TaskFuture (Except String R) :=
  taskCall (encodeInput encode input fun s =>
    .step (.scheduleActivity (if activityType = "" then typeName else activityType) (some s)) .pure)
    decode

/-- `call_sub_orchestrator`; `typeName` is the type name of the orchestrator function. -/
def callSubOrchestrator (typeName orchestratorType instanceId : String) (input : A) :
    TaskFuture (Except String R) :=
  taskCall (encodeInput encode input fun s =>
    .step (.scheduleSubOrchestrator
      (if orchestratorType = "" then typeName else orchestratorType) instanceId (some s)) .pure)
    decode

/-- `await_signal_event`. -/
def awaitSignalEvent (name : String) : TaskFuture (Except String R) :=
  taskCall (.step (.awaitSignalEvent name) .pure) decode

end Calls

/-- `create_timer`, awaited where it is called; the source creates the task at the call. -/
def createTimer (fireAfterMillis : ℕ) : TaskFuture String :=
  (taskCall (.step (.createTimer fireAfterMillis) .pure) .ok :
    TaskFuture (Except String String)).map fun r => r.toOption.getD ""

/-- `continue_as_new`: what it is given is not used. -/
def continueAsNew {A : Type} (_newInput : A) (_saveEvents : Bool) : TaskFuture Unit := .pending

/-- `OrchestratorContext::input`: an input that is there is decoded at the type asked for. -/
def OrchestratorContext.decodedInput {A : Type} (decode : Decoder A) (ctx : OrchestratorContext) :
    Except String (Option A) :=
  match ctx.input with
  | some input => (decode input).map some
  | none => .ok none

/-- `into_orchestrator`: the function is called with the input, or its error is the result. -/
def intoOrchestrator {A O : Type} (decode : Decoder A) (toJson : O → Except String String)
    (f : String → Option A → TaskFuture (OrchestratorResult O)) : OrchestratorFunction :=
  .new toJson fun instanceId input =>
    match (OrchestratorContext.new instanceId input).decodedInput decode with
    | .ok a => f instanceId a
    | .error e => .ready (.error e)

end DurableTask
