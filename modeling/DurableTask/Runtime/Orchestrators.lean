import DurableTask.Executor.Step
import DurableTask.Runtime.Calls
import DurableTask.Text.Json

/-! # The orchestrators of the repository

The orchestrators of the examples and of the executor's test. What they send
and return is JSON, as everywhere in the repository.
-/

namespace DurableTask

open Interaction Text

def callTestActivity (activityType input : String) : TaskFuture (Except String String) :=
  callActivity jsonString fromJsonString "test_activity" activityType input

def stringOrchestrator (f : TaskFuture (OrchestratorResult String)) : OrchestratorFunction :=
  .new jsonString fun _ _ => f

def unitOrchestrator (f : TaskFuture (OrchestratorResult Unit)) : OrchestratorFunction :=
  .new (fun _ => .ok "null") fun _ _ => f

def testOrchestration : OrchestratorFunction :=
  stringOrchestrator ((callTestActivity "test" "input").bind fun _ =>
    .ready (.ok (.output "hello")))

def test2 : OrchestratorFunction := stringOrchestrator (.ready (.ok (.output "hello")))

/-- `sequence_orchestration` of `activity_sequence.rs`. -/
def sequenceOrchestration : OrchestratorFunction :=
  unitOrchestrator ((createTimer 10000).bind fun _ =>
    (callTestActivity "test_activity" "test").bind fun _ => .ready (.ok (.output ())))

/-- `parallel_orchestration` of `parallel.rs`. -/
def parallelOrchestration : OrchestratorFunction :=
  unitOrchestrator (((callTestActivity "test_activity" "test 1").join
    (callTestActivity "test_activity" "test 2")).bind fun _ => .ready (.ok (.output ())))

/-- `external_events` of `external_events.rs`. -/
def externalEvents : OrchestratorFunction :=
  stringOrchestrator ((awaitSignalEvent fromJsonString "test_signal").map fun r => r.map .output)

/-- `terminate_test` of `terminate_test.rs`. -/
def terminateTest : OrchestratorFunction :=
  unitOrchestrator ((createTimer 30000).bind fun _ => .ready (.ok (.output ())))

def orchestrators : List OrchestratorFunction :=
  [testOrchestration, test2, sequenceOrchestration, parallelOrchestration, externalEvents,
    terminateTest]

def plainEnv : Env := ⟨fun _ => 0, id, some 128, id, fun _ => .refl _⟩
def executorOf (func : OrchestratorFunction) : OrchestrationExecutorFuture where
  env := plainEnv
  instanceId := "test"
  registry := Registry.empty.addOrchestrator "test" func

theorem executorOf_registered (func : OrchestratorFunction) :
    (executorOf func).registry.getOrchestrator "test" = some func := by
  simp [executorOf, Registry.getOrchestrator, Registry.addOrchestrator]

theorem eq_of_registered {func func' : OrchestratorFunction} {name : String}
    (h : (executorOf func).registry.getOrchestrator name = some func') : func' = func := by
  simp only [executorOf, Registry.getOrchestrator, Registry.addOrchestrator, Registry.empty,
    Function.update_apply] at h
  split at h <;> cases h
  rfl

def historyEvent (eventType : EventType) : HistoryEvent := ⟨-1, none, some eventType⟩

/-- `new_execution_started_event` for the registered orchestrator. -/
def executionStarted : HistoryEvent := historyEvent (.executionStarted ⟨"test", none⟩)

/-- `new_task_scheduled_event`: its event id is the id of the action. -/
def taskScheduled (id : Int) : HistoryEvent := ⟨id, none, some (.taskScheduled ⟨"test", none⟩)⟩

def taskCompleted (id : Int) (result : Option String) : HistoryEvent :=
  historyEvent (.taskCompleted ⟨id, result⟩)

def taskFailed (id : Int) (failureDetails : Option TaskFailureDetails) : HistoryEvent :=
  historyEvent (.taskFailed ⟨id, failureDetails⟩)

/-- `new_timer_created_event`: its event id is the id of the action. -/
def timerCreated (id : Int) : HistoryEvent := ⟨id, none, some (.timerCreated ⟨none⟩)⟩

def timerFired (id : Int) : HistoryEvent := historyEvent (.timerFired ⟨id, some default⟩)

def eventRaisedEvent (name : String) (input : Option String) : HistoryEvent :=
  historyEvent (.eventRaised ⟨name, input⟩)

def executionTerminatedEvent : HistoryEvent := historyEvent (.executionTerminated ⟨none, false⟩)

theorem Except.exists_of_map {ε α β : Type*} {x : Except ε α} {f : α → β} {b : β}
    (h : x.map f = .ok b) : ∃ a, x = .ok a ∧ f a = b := by
  cases x with
  | error e => cases h
  | ok a => exact ⟨a, rfl, by cases h; rfl⟩

end DurableTask
