import Mathlib.Data.List.Basic

/-! # Messages between the worker and its sidecar

History events come in, orchestrator actions go out. The types keep the fields
that the executor reads or writes.
-/

namespace DurableTask

/-- A protobuf timestamp: seconds and nanoseconds since the epoch. -/
structure Timestamp where
  seconds : ℕ
  nanos : ℕ
  deriving DecidableEq, Repr

instance : Inhabited Timestamp := ⟨⟨0, 0⟩⟩

/-- `Timestamp::from` of a system time that is given in nanoseconds since the epoch. -/
def Timestamp.ofNanos (t : ℕ) : Timestamp := ⟨t / 1000000000, t % 1000000000⟩

structure TaskFailureDetails where
  errorType : String
  errorMessage : String
  deriving DecidableEq, Repr

structure ExecutionStartedEvent where
  name : String
  input : Option String
  deriving DecidableEq, Repr

structure ExecutionTerminatedEvent where
  input : Option String
  recurse : Bool
  deriving DecidableEq, Repr

structure TaskScheduledEvent where
  name : String
  input : Option String
  deriving DecidableEq, Repr

/-- `TaskCompletedEvent`, and with the same fields `SubOrchestrationInstanceCompletedEvent`. -/
structure TaskCompletedEvent where
  taskScheduledId : Int
  result : Option String
  deriving DecidableEq, Repr

/-- `TaskFailedEvent`, and with the same fields `SubOrchestrationInstanceFailedEvent`. -/
structure TaskFailedEvent where
  taskScheduledId : Int
  failureDetails : Option TaskFailureDetails
  deriving DecidableEq, Repr

structure SubOrchestrationInstanceCreatedEvent where
  instanceId : String
  name : String
  input : Option String
  deriving DecidableEq, Repr

structure TimerCreatedEvent where
  fireAt : Option Timestamp
  deriving DecidableEq, Repr

structure TimerFiredEvent where
  timerId : Int
  fireAt : Option Timestamp
  deriving DecidableEq, Repr

structure EventRaisedEvent where
  name : String
  input : Option String
  deriving DecidableEq, Repr

inductive EventType where
  | executionStarted (event : ExecutionStartedEvent)
  | executionCompleted
  | executionTerminated (event : ExecutionTerminatedEvent)
  | taskScheduled (event : TaskScheduledEvent)
  | taskCompleted (event : TaskCompletedEvent)
  | taskFailed (event : TaskFailedEvent)
  | subOrchestrationInstanceCreated (event : SubOrchestrationInstanceCreatedEvent)
  | subOrchestrationInstanceCompleted (event : TaskCompletedEvent)
  | subOrchestrationInstanceFailed (event : TaskFailedEvent)
  | timerCreated (event : TimerCreatedEvent)
  | timerFired (event : TimerFiredEvent)
  | orchestratorStarted
  | orchestratorCompleted
  | eventSent
  | eventRaised (event : EventRaisedEvent)
  | genericEvent
  | historyState
  | continueAsNew
  | executionSuspended
  | executionResumed
  deriving DecidableEq, Repr

structure HistoryEvent where
  eventId : Int
  timestamp : Option Timestamp
  eventType : Option EventType
  deriving DecidableEq, Repr

inductive OrchestrationStatus where
  | running | completed | continuedAsNew | failed | canceled | terminated | pending | suspended
  deriving DecidableEq, Repr

structure ScheduleTaskAction where
  name : String
  input : Option String
  deriving DecidableEq, Repr

structure CreateTimerAction where
  fireAt : Option Timestamp
  deriving DecidableEq, Repr

structure CreateSubOrchestrationAction where
  instanceId : String
  name : String
  input : Option String
  deriving DecidableEq, Repr

structure CompleteOrchestrationAction where
  orchestrationStatus : OrchestrationStatus
  result : Option String
  carryoverEvents : List HistoryEvent
  failureDetails : Option TaskFailureDetails
  deriving DecidableEq, Repr

inductive OrchestratorActionType where
  | scheduleTask (action : ScheduleTaskAction)
  | createTimer (action : CreateTimerAction)
  | createSubOrchestration (action : CreateSubOrchestrationAction)
  | completeOrchestration (action : CompleteOrchestrationAction)
  deriving DecidableEq, Repr

structure OrchestratorAction where
  id : Int
  orchestratorActionType : Option OrchestratorActionType
  deriving DecidableEq, Repr

/-- The action is a `CompleteOrchestration`. -/
def OrchestratorAction.isComplete (a : OrchestratorAction) : Bool :=
  match a.orchestratorActionType with
  | some (.completeOrchestration _) => true
  | _ => false

def newScheduleTaskAction (taskId : Int) (name : String) (input : Option String) :
    OrchestratorAction :=
  ⟨taskId, some (.scheduleTask ⟨name, input⟩)⟩

def newCreateTimerAction (taskId : Int) (fireAt : Timestamp) : OrchestratorAction :=
  ⟨taskId, some (.createTimer ⟨some fireAt⟩)⟩

def newCreateSubOrchestrationAction (taskId : Int) (name instanceId : String)
    (input : Option String) : OrchestratorAction :=
  ⟨taskId, some (.createSubOrchestration ⟨instanceId, name, input⟩)⟩

def newCompleteOrchestrationAction (taskId : Int) (status : OrchestrationStatus)
    (result : Option String) (carryoverEvents : List HistoryEvent)
    (failureDetails : Option TaskFailureDetails) : OrchestratorAction :=
  ⟨taskId, some (.completeOrchestration ⟨status, result, carryoverEvents, failureDetails⟩)⟩

end DurableTask
