import DurableTask.Executor.Step
import DurableTask.Worker.Activities
import Mathlib.Data.List.Perm.Basic
import Mathlib.Logic.Relation

/-! # The worker

The worker takes work items from the stream of its sidecar and spawns a task
for each. The tasks run concurrently, each makes at most one call to the
sidecar, and nothing else tells what has become of an item.
-/

namespace DurableTask

structure OrchestrationInstance where
  instanceId : String
  deriving DecidableEq, Repr

structure OrchestratorRequest where
  instanceId : String
  pastEvents : List HistoryEvent
  newEvents : List HistoryEvent

structure OrchestratorResponse where
  instanceId : String
  actions : List OrchestratorAction
  customStatus : Option String
  deriving DecidableEq, Repr

structure ActivityRequest where
  name : String
  input : Option String
  orchestrationInstance : Option OrchestrationInstance
  taskId : Int

structure ActivityResponse where
  instanceId : String
  taskId : Int
  result : Option String
  failureDetails : Option TaskFailureDetails
  deriving DecidableEq, Repr

/-- `ActivityResponse::default()`. -/
instance : Inhabited ActivityResponse := ⟨⟨"", 0, none, none⟩⟩

/-- `work_item::Request`. -/
inductive Request where
  | orchestratorRequest (request : OrchestratorRequest)
  | activityRequest (request : ActivityRequest)
  | entityRequest
  | healthPing

structure WorkItem where
  request : Option Request

/-- What the stream yields: a work item, or an error of the connection. -/
abbrev StreamItem := Except String WorkItem

/-- A call to the sidecar. -/
inductive ClientCall where
  | completeOrchestratorTask (response : OrchestratorResponse)
  | completeActivityTask (response : ActivityResponse)
  deriving DecidableEq, Repr

structure Worker (Environment : Type) where
  registry : WorkerRegistry Environment
  environment : Environment
  /-- What the execution of a request depends on besides its arguments. -/
  env : OrchestratorRequest → Env

namespace Worker

variable {Environment : Type}

def new (environment : Environment) (env : OrchestratorRequest → Env) : Worker Environment :=
  ⟨.empty, environment, env⟩

def addOrchestrator (self : Worker Environment) (name : String) (func : OrchestratorFunction) :
    Worker Environment :=
  { self with registry := self.registry.addOrchestrator name func }

def addActivity (self : Worker Environment) (name : String) (func : Activity Environment) :
    Worker Environment :=
  { self with registry := self.registry.addActivity name func.intoActivityFn }

variable (self : Worker Environment)

/-- `execute_orchestrator`. -/
def executeOrchestrator (request : OrchestratorRequest) : Except Panic OrchestratorResponse :=
  let executor : OrchestrationExecutorFuture :=
    ⟨self.env request, request.instanceId, self.registry.toRegistry⟩
  match executor.execute request.pastEvents request.newEvents with
  | .error p => .error p
  | .ok actions => .ok ⟨request.instanceId, actions, none⟩

def executeActivity (request : ActivityRequest) : Except String ActivityResponse :=
  let executor : ActivityExecutor Environment := ⟨self.registry, self.environment⟩
  match request.orchestrationInstance with
  | some inst =>
    match executor.execute inst.instanceId request.name request.taskId request.input with
    | .error e => .error e
    | .ok output => .ok ⟨inst.instanceId, request.taskId, output, none⟩
  | none => .ok default

def calls : StreamItem → List ClientCall
  | .ok ⟨some (.orchestratorRequest request)⟩ =>
    match self.executeOrchestrator request with
    | .ok response => [.completeOrchestratorTask response]
    | .error _ => []
  | .ok ⟨some (.activityRequest request)⟩ =>
    match self.executeActivity request with
    | .ok response => [.completeActivityTask response]
    | .error _ => []
  | .ok ⟨some .entityRequest⟩ => []
  | .ok ⟨some .healthPing⟩ => []
  | .ok ⟨none⟩ => []
  | .error _ => []

/-- The loop of `start`: what is left of the stream, the tasks that run, and the calls so far. -/
structure State where
  stream : List StreamItem
  tasks : List StreamItem
  sent : List ClientCall

/-- The next item is taken and its task spawned, or one of the tasks comes to its end. -/
inductive Step : State → State → Prop where
  | spawn (item : StreamItem) (stream tasks : List StreamItem) (sent : List ClientCall) :
    Step ⟨item :: stream, tasks, sent⟩ ⟨stream, tasks ++ [item], sent⟩
  | finish (item : StreamItem) (stream before after : List StreamItem) (sent : List ClientCall) :
    Step ⟨stream, before ++ item :: after, sent⟩
      ⟨stream, before ++ after, sent ++ self.calls item⟩

/-- The steps of the loop and of its tasks, in any interleaving. -/
abbrev Steps : State → State → Prop := Relation.ReflTransGen self.Step

variable {self} {s s' : State}

def State.account (self : Worker Environment) (s : State) : List ClientCall :=
  s.sent ++ (s.tasks ++ s.stream).flatMap self.calls

theorem Step.account (h : self.Step s s') : (s'.account self).Perm (s.account self) := by
  cases h with
  | spawn item stream tasks sent => simp [State.account]
  | finish item stream before after sent =>
    simp only [State.account, List.flatMap_append, List.flatMap_cons, List.append_assoc]
    exact (List.perm_append_comm_assoc _ _ _).append_left sent

theorem Steps.account (h : self.Steps s s') : (s'.account self).Perm (s.account self) := by
  induction h with
  | refl => exact .refl _
  | tail _ hs ih => exact hs.account.trans ih

theorem Steps.sent {items : List StreamItem} (h : self.Steps ⟨items, [], []⟩ s)
    (hstream : s.stream = []) (htasks : s.tasks = []) :
    s.sent.Perm (items.flatMap self.calls) := by
  have haccount := h.account
  simpa [State.account, hstream, htasks] using haccount

end Worker

end DurableTask
