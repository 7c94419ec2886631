import DurableTask.Protocol.Messages
import DurableTask.Text.Separated
import Mathlib.Data.List.Forall2
import Mathlib.Data.Nat.Digits.Defs

/-! # The summary of a history

The log line that stands for a history: the kinds of its events, each with the
id that the event itself carries. A completion carries no id of its own, and the
id of the task it refers to is not looked up.
-/

namespace DurableTask

/-- The parent of a sub-orchestration, as far as a summary reads it. -/
structure ParentInstanceInfo where
  taskScheduledId : Int
  deriving DecidableEq, Repr

/-- A history event together with the `parent_instance` of its `ExecutionStarted`, a field that
no one but the summary reads. -/
structure RecordedEvent extends HistoryEvent where
  parentInstance : Option ParentInstanceInfo
  deriving DecidableEq, Repr

/-- The id of the task that an event is about; `none` is the panic at a missing parent. -/
def getTaskId (e : RecordedEvent) : Option Int :=
  if e.eventId ≠ 0 then some e.eventId
  else match e.eventType with
    | none => some (-1)
    | some (.taskCompleted t) => some t.taskScheduledId
    | some (.taskFailed t) => some t.taskScheduledId
    | some (.subOrchestrationInstanceCompleted so) => some so.taskScheduledId
    | some (.subOrchestrationInstanceFailed so) => some so.taskScheduledId
    | some (.timerFired t) => some t.timerId
    | some (.executionStarted _) => e.parentInstance.map (·.taskScheduledId)
    | some _ => some (-1)

def EventType.typeName : EventType → String
  | .executionStarted _ => "ExecutionStarted"
  | .executionResumed => "ExecutionResumed"
  | .executionCompleted => "ExecutionCompleted"
  | .executionSuspended => "ExecutionSuspended"
  | .executionTerminated _ => "ExecutionTerminated"
  | .timerFired _ => "TimerFired"
  | .timerCreated _ => "TimerCreated"
  | .taskScheduled _ => "TaskScheduled"
  | .taskFailed _ => "TaskFailed"
  | .taskCompleted _ => "TaskCompleted"
  | .subOrchestrationInstanceFailed _ => "SubOrchestrationInstanceFailed"
  | .subOrchestrationInstanceCompleted _ => "SubOrchestrationInstanceFailed"
  | .subOrchestrationInstanceCreated _ => "SubOrchestrationInstanceCreated"
  | .orchestratorStarted => "OrchestratorStarted"
  | .orchestratorCompleted => "OrchestratorCompleted"
  | .eventSent => "EventSent"
  | .eventRaised _ => "EventRaised"
  | .genericEvent => "GenericEvent"
  | .historyState => "HistoryEvent"
  | .continueAsNew => "ContinueAsNew"

def getHistoryEventTypeName (e : RecordedEvent) : String :=
  match e.eventType with
  | none => ""
  | some eventType => eventType.typeName

/-- The loop of `history_list_summary` from index `i`; `sb` is the text so far. -/
def historyListSummaryFrom : ℕ → String → List RecordedEvent → Option String
  | _, sb, [] => some sb
  | i, sb, e :: list =>
    let sb := if i > 0 then sb ++ ", " else sb
    if i ≥ 10 then some (sb ++ "...")
    else do
      let sb := sb ++ getHistoryEventTypeName e
      let taskId ← getTaskId e
      let sb := if taskId ≥ 0 then sb ++ "#" ++ toString taskId else sb
      historyListSummaryFrom (i + 1) sb list

def historyListSummary (list : List RecordedEvent) : Option String := do
  let sb ← historyListSummaryFrom 0 "[" list
  some (sb ++ "]")

section Constructors

variable (now : Timestamp)

def newEvent (eventId : Int) (eventType : EventType) : RecordedEvent :=
  ⟨⟨eventId, some now, some eventType⟩, none⟩

def newExecutionStartedEvent (name : String) (input : Option String)
    (parent : Option ParentInstanceInfo) : RecordedEvent :=
  ⟨⟨-1, some now, some (.executionStarted ⟨name, input⟩)⟩, parent⟩

def newExecutionCompletedEvent (eventId : Int) : RecordedEvent :=
  newEvent now eventId .executionCompleted

def newExecutionTerminatedEvent (reason : Option String) (recurse : Bool) : RecordedEvent :=
  newEvent now (-1) (.executionTerminated ⟨reason, recurse⟩)

def newOrchestratorStartedEvent : RecordedEvent := newEvent now (-1) .orchestratorStarted

def newEventRaisedEvent (name : String) (input : Option String) : RecordedEvent :=
  newEvent now (-1) (.eventRaised ⟨name, input⟩)

def newTaskScheduledEvent (taskId : Int) (name : String) (input : Option String) :
    RecordedEvent :=
  newEvent now taskId (.taskScheduled ⟨name, input⟩)

def newTaskCompletedEvent (taskId : Int) (result : Option String) : RecordedEvent :=
  newEvent now (-1) (.taskCompleted ⟨taskId, result⟩)

def newTaskFailedEvent (taskId : Int) (failureDetails : Option TaskFailureDetails) :
    RecordedEvent :=
  newEvent now (-1) (.taskFailed ⟨taskId, failureDetails⟩)

def newTimerCreatedEvent (eventId : Int) (fireAt : Timestamp) : RecordedEvent :=
  newEvent now eventId (.timerCreated ⟨some fireAt⟩)

def newTimerFiredEvent (timerId : Int) (fireAt : Timestamp) : RecordedEvent :=
  newEvent now (-1) (.timerFired ⟨timerId, some fireAt⟩)

def newSubOrchestrationCreatedEvent (eventId : Int) (name : String) (input : Option String)
    (instanceId : String) : RecordedEvent :=
  newEvent now eventId (.subOrchestrationInstanceCreated ⟨instanceId, name, input⟩)

def newEventSentEvent (eventId : Int) : RecordedEvent := newEvent now eventId .eventSent

def newSuspendOrchestrationEvent : RecordedEvent := newEvent now (-1) .executionSuspended

def newResumeOrchestrationEvent : RecordedEvent := newEvent now (-1) .executionResumed

end Constructors

/-- The events that the constructors build, at positive task ids, and the completed and failed
events of sub-orchestrations in the shape of a task's. -/
inductive Constructed : RecordedEvent → Prop
  | executionStarted (now name input parent) :
    Constructed (newExecutionStartedEvent now name input parent)
  | executionCompleted (now) {eventId} (h : 0 < eventId) :
    Constructed (newExecutionCompletedEvent now eventId)
  | executionTerminated (now reason recurse) :
    Constructed (newExecutionTerminatedEvent now reason recurse)
  | orchestratorStarted (now) : Constructed (newOrchestratorStartedEvent now)
  | eventRaised (now name input) : Constructed (newEventRaisedEvent now name input)
  | taskScheduled (now) {taskId} (name input) (h : 0 < taskId) :
    Constructed (newTaskScheduledEvent now taskId name input)
  | taskCompleted (now) {taskId} (result) (h : 0 < taskId) :
    Constructed (newTaskCompletedEvent now taskId result)
  | taskFailed (now) {taskId} (failureDetails) (h : 0 < taskId) :
    Constructed (newTaskFailedEvent now taskId failureDetails)
  | timerCreated (now) {eventId} (fireAt) (h : 0 < eventId) :
    Constructed (newTimerCreatedEvent now eventId fireAt)
  | timerFired (now) {timerId} (fireAt) (h : 0 < timerId) :
    Constructed (newTimerFiredEvent now timerId fireAt)
  | subOrchestrationCreated (now) {eventId} (name input instanceId) (h : 0 < eventId) :
    Constructed (newSubOrchestrationCreatedEvent now eventId name input instanceId)
  | subOrchestrationCompleted (now) {taskId} (result) (h : 0 < taskId) :
    Constructed (newEvent now (-1) (.subOrchestrationInstanceCompleted ⟨taskId, result⟩))
  | subOrchestrationFailed (now) {taskId} (failureDetails) (h : 0 < taskId) :
    Constructed (newEvent now (-1) (.subOrchestrationInstanceFailed ⟨taskId, failureDetails⟩))
  | eventSent (now) {eventId} (h : 0 < eventId) : Constructed (newEventSentEvent now eventId)
  | suspendOrchestration (now) : Constructed (newSuspendOrchestrationEvent now)
  | resumeOrchestration (now) : Constructed (newResumeOrchestrationEvent now)

def EventType.referredId : EventType → Option Int
  | .taskCompleted t => some t.taskScheduledId
  | .taskFailed t => some t.taskScheduledId
  | .subOrchestrationInstanceCompleted so => some so.taskScheduledId
  | .subOrchestrationInstanceFailed so => some so.taskScheduledId
  | .timerFired t => some t.timerId
  | _ => none

theorem Constructed.shape {e : RecordedEvent} (h : Constructed e) :
    ∃ t, e.eventType = some t ∧ (e.eventId = -1 ∨ 0 < e.eventId ∧ t.referredId = none) := by
  cases h with
  | executionCompleted now h => exact ⟨_, rfl, .inr ⟨h, rfl⟩⟩
  | taskScheduled now name input h => exact ⟨_, rfl, .inr ⟨h, rfl⟩⟩
  | timerCreated now fireAt h => exact ⟨_, rfl, .inr ⟨h, rfl⟩⟩
  | subOrchestrationCreated now name input instanceId h => exact ⟨_, rfl, .inr ⟨h, rfl⟩⟩
  | eventSent now h => exact ⟨_, rfl, .inr ⟨h, rfl⟩⟩
  | _ => exact ⟨_, rfl, .inl rfl⟩

end DurableTask
