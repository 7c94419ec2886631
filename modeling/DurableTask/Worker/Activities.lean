import DurableTask.Runtime.Calls

/-! # Activities

An activity is a function of one argument. Its registration wraps it into a
function between payloads, which decodes the argument and encodes the output;
the activity executor looks it up by name and calls it.
-/

namespace DurableTask

/-- What an activity knows of its call; `Environment` is the data that the worker was given. -/
structure ActivityContext (Environment : Type) where
  orchestrationId : String
  taskId : Int
  environment : Environment

/-- A registered activity: from the payload of its input to the bytes of its output. -/
structure ActivityFunction (Environment : Type) where
  call : ActivityContext Environment → Option String → Except String ByteArray

/-- An activity as it is written, with the codecs of its types. -/
structure Activity (Environment : Type) where
  Arg : Type
  Out : Type
  decode : Decoder Arg
  encode : Encoder Out
  func : ActivityContext Environment → Arg → Except String Out

variable {Environment : Type}

def Activity.argument (a : Activity Environment) (input : Option String) : Except String a.Arg :=
  a.decode (input.getD "test")

/-- `into_activity_fn`. -/
def Activity.intoActivityFn (a : Activity Environment) : ActivityFunction Environment where
  call ctx input :=
    match a.argument input with
    | .ok deser => (a.func ctx deser).bind fun r => (a.encode r).map String.toByteArray
    | .error e => .error e

/-- The registry of a worker. -/
structure WorkerRegistry (Environment : Type) extends Registry where
  activities : String → Option (ActivityFunction Environment)

namespace WorkerRegistry

def empty : WorkerRegistry Environment := ⟨.empty, fun _ => none⟩

def addOrchestrator (r : WorkerRegistry Environment) (name : String)
    (func : OrchestratorFunction) : WorkerRegistry Environment :=
  { r with toRegistry := r.toRegistry.addOrchestrator name func }

def addActivity (r : WorkerRegistry Environment) (name : String)
    (func : ActivityFunction Environment) : WorkerRegistry Environment :=
  { r with activities := Function.update r.activities name (some func) }

def getActivity (r : WorkerRegistry Environment) (name : String) :
    Option (ActivityFunction Environment) :=
  r.activities name

end WorkerRegistry

structure ActivityExecutor (Environment : Type) where
  registry : WorkerRegistry Environment
  environment : Environment

/-- `ActivityExecutor::execute`: there is no output where the activity is not registered. -/
def ActivityExecutor.execute (self : ActivityExecutor Environment) (instanceId name : String)
    (taskId : Int) (input : Option String) : Except String (Option String) :=
  match self.registry.getActivity name with
  | some activityFn =>
    match activityFn.call ⟨instanceId, taskId, self.environment⟩ input with
    | .error e => .error e
    | .ok output =>
      match String.fromUTF8? output with
      | some output => .ok (some output)
      | none => .error "invalid utf-8 sequence"
  | none => .ok none

theorem fromUTF8?_toByteArray (s : String) : String.fromUTF8? s.toByteArray = some s := by
  have hs := s.isValidUTF8
  simp only [String.fromUTF8?, hs, ↓reduceDIte]
  rfl

def Activity.outcome (a : Activity Environment) (ctx : ActivityContext Environment)
    (input : Option String) : Except String a.Out :=
  (a.argument input).bind (a.func ctx)

def resultOf (activity : Option (Activity Environment)) (ctx : ActivityContext Environment)
    (input : Option String) : Except String (Option String) :=
  match activity with
  | none => .ok none
  | some a => ((a.outcome ctx input).bind a.encode).map some

theorem ActivityExecutor.execute_eq {self : ActivityExecutor Environment} {name : String}
    {activity : Option (Activity Environment)}
    (h : self.registry.getActivity name = activity.map Activity.intoActivityFn)
    (instanceId : String) (taskId : Int) (input : Option String) :
    self.execute instanceId name taskId input =
      resultOf activity ⟨instanceId, taskId, self.environment⟩ input := by
  cases activity with
  | none =>
    rw [Option.map_none] at h
    simp only [execute, h, resultOf]
  | some a =>
    rw [Option.map_some] at h
    simp only [execute, h, Activity.intoActivityFn, resultOf, Activity.outcome]
    cases a.argument input with
    | error e => rfl
    | ok arg =>
      cases hf : a.func ⟨instanceId, taskId, self.environment⟩ arg with
      | error e => simp [Except.bind, Except.map, hf]
      | ok o =>
        cases he : a.encode o <;> simp [Except.bind, Except.map, hf, he, fromUTF8?_toByteArray]

end DurableTask
