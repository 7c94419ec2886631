import DurableTask.Guarantees.Answers
import DurableTask.Guarantees.Durability
import DurableTask.Text.Json

/-! # Remote calls

An activity that is called by an orchestrator is run by the worker in a task of
its own, and its argument and its output travel as payloads. If the codecs on
both sides fit, the call is what it looks like in the code of the orchestrator: a
call of the function.
-/

namespace DurableTask

open Interaction OrchestrationExecutorContext OrchestrationExecutorFuture

variable {Environment : Type}

def Worker.answers (worker : Worker Environment) (instanceId : String) : Service
  | .activity name input, v => ∃ taskId, worker.executeActivity
    ⟨name, input, some ⟨instanceId⟩, taskId⟩ = .ok ⟨instanceId, taskId, some v, none⟩
  | _, _ => True

def Worker.executor (worker : Worker Environment) (request : OrchestratorRequest) :
    OrchestrationExecutorFuture :=
  ⟨worker.env request, request.instanceId, worker.registry.toRegistry⟩

/-- The codecs of a call fit those of the activity. -/
structure Activity.Fits (a : Activity Environment) (encode : Encoder a.Arg)
    (decode : Decoder a.Out) : Prop where
  argument : ∀ x payload, encode x = .ok payload → a.decode payload = .ok x
  output : ∀ o payload, a.encode o = .ok payload → decode payload = .ok o

section

variable {worker : Worker Environment} {a : Activity Environment} {encode : Encoder a.Arg}
  {decode : Decoder a.Out} {typeName activityType instanceId payload : String} {x : a.Arg}

theorem Worker.answers_activity {name : String} {input : Option String}
    (hget : worker.registry.getActivity name = some a.intoActivityFn)
    (h : worker.answers instanceId (.activity name input) payload) :
    ∃ taskId o, a.outcome ⟨instanceId, taskId, worker.environment⟩ input = .ok o ∧
      a.encode o = .ok payload := by
  obtain ⟨taskId, h⟩ := h
  have hexec : (⟨worker.registry, worker.environment⟩ : ActivityExecutor Environment).execute
      instanceId name taskId input =
        resultOf (some a) ⟨instanceId, taskId, worker.environment⟩ input :=
    ActivityExecutor.execute_eq hget _ _ _
  simp only [Worker.executeActivity, hexec, resultOf] at h
  refine ⟨taskId, ?_⟩
  cases ho : a.outcome ⟨instanceId, taskId, worker.environment⟩ input with
  | error e => simp [ho, Except.bind, Except.map] at h
  | ok o =>
    cases he : a.encode o with
    | error e => simp [ho, he, Except.bind, Except.map] at h
    | ok json =>
      simp [ho, he, Except.bind, Except.map] at h
      exact ⟨o, rfl, h ▸ he⟩

theorem call_runs {toLowercase : String → String} {m : Multiset TaskRequest}
    {r : Except String a.Out} (hfits : a.Fits encode decode)
    (hget : worker.registry.getActivity
      (if activityType = "" then typeName else activityType) = some a.intoActivityFn)
    (h : (Flow.call (.activity encode decode typeName activityType x)).Runs toLowercase
      (worker.answers instanceId) m (some r)) :
    ∃ taskId o, a.func ⟨instanceId, taskId, worker.environment⟩ x = .ok o ∧ r = .ok o := by
  obtain ⟨q, payload, hq, hs, hr⟩ := h.of_call
  obtain ⟨json, hjson, rfl⟩ := Option.map_eq_some_iff.mp hq
  obtain ⟨taskId, o, ho, he⟩ := Worker.answers_activity hget hs
  have hx : encode x = .ok json := by
    cases hx : encode x <;> simp [hx, Except.toOption] at hjson
    rw [hjson]
  have harg : a.argument (some json) = .ok x := hfits.argument x json hx
  have hresult : r = .ok o := by
    simp [ApiCall.result?, hfits.output o payload he, Except.toOption] at hr
    exact hr.symm
  rw [Activity.outcome, harg] at ho
  exact ⟨taskId, o, ho, hresult⟩

/--
An orchestrator that awaits an activity goes on with what the activity returns for the very
argument of the call: what it reports is what it would report if it had called the function.
-/
theorem call_is_local {request : OrchestratorRequest} {response : OrchestratorResponse}
    {k : Except String a.Out → Flow (OrchestratorResult String)} (hfits : a.Fits encode decode)
    (hget : worker.registry.getActivity
      (if activityType = "" then typeName else activityType) = some a.intoActivityFn)
    (hflow : (worker.executor request).RunsFlow
      (.andThen (.call (.activity encode decode typeName activityType x)) k)
      (request.pastEvents ++ request.newEvents))
    (hfaithful : (worker.executor request).Faithful (worker.answers request.instanceId)
      (request.pastEvents ++ request.newEvents))
    (h : worker.executeOrchestrator request = .ok response) :
    ∀ b ∈ response.actions, b.isComplete = true →
      (∃ e ∈ request.pastEvents ++ request.newEvents, e.kind = .terminate) ∧
        b = newCompleteOrchestrationAction b.id .terminated none [] none ∨
      ∃ taskId o requests r, a.func ⟨request.instanceId, taskId, worker.environment⟩ x = .ok o ∧
        (k (.ok o)).Runs (worker.env request).toLowercase (worker.answers request.instanceId)
          requests (some r) ∧ b = completionAction b.id r := by
  intro b hb hc
  have hexec : ∃ ctx, (worker.executor request).replay
      (request.pastEvents ++ request.newEvents) = .ok ctx ∧
        response.actions = ctx.getActions (worker.env request) := by
    simp only [Worker.executeOrchestrator] at h
    split at h
    · cases h
    · rename_i actions hactions
      cases h
      exact execute_ok hactions
  obtain ⟨ctx, hr, hactions⟩ := hexec
  obtain ⟨result, hruns, -, hcomplete⟩ := hflow.actions hfaithful hr
  rw [hactions] at hb
  rcases hcomplete b hb hc with ⟨r, rfl, he⟩ | he
  · obtain ⟨m₁, m₂, v, -, hcall, hk⟩ := hruns.of_andThen
    obtain ⟨taskId, o, ho, rfl⟩ := call_runs hfits hget hcall
    exact .inr ⟨taskId, o, m₂, r, ho, hk, he⟩
  · exact .inl he

end

def greet : Activity Unit where
  Arg := String
  Out := String
  decode := Text.fromJsonString
  encode := Text.jsonString
  func _ name := .ok ("hello " ++ name)

theorem greet_fits : greet.Fits Text.jsonString Text.fromJsonString := by
  have hfits (s payload : String) (h : Text.jsonString s = .ok payload) :
      Text.fromJsonString payload = .ok s := by
    have hread := Text.fromJsonString_jsonString s
    rwa [h] at hread
  exact ⟨hfits, hfits⟩

def greeting : Flow (OrchestratorResult String) :=
  .andThen (.call (.activity Text.jsonString Text.fromJsonString "" "greet" "you")) fun r =>
    .done ((r.bind Text.jsonString).map .output)

def greetingWorker : Worker Unit :=
  ((Worker.new () fun _ => plainEnv).addActivity "greet" greet).addOrchestrator "test"
    ⟨fun _ _ => greeting.future⟩

def greetingRequest : OrchestratorRequest :=
  ⟨"test", [executionStarted, taskScheduled 1], [taskCompleted 1 (some "\"hello you\"")]⟩

def greetingAnswer (q : TaskRequest) : Option String :=
  if q = .activity "greet" (some "\"you\"") then some "\"hello you\"" else none

theorem greetingWorker_answers {q : TaskRequest} {v : String}
    (h : answeredBy greetingAnswer q v) : greetingWorker.answers "test" q v := by
  change greetingAnswer q = some v at h
  unfold greetingAnswer at h
  split at h
  · rename_i hq
    cases h
    subst hq
    exact ⟨1, rfl⟩
  · cases h

theorem greeting_is_local : ∃ taskId o requests r,
    greet.func ⟨"test", taskId, ()⟩ "you" = .ok o ∧
      (Flow.done (((.ok o : Except String String).bind Text.jsonString).map
        OrchestratorResultValue.output)).Runs id (greetingWorker.answers "test") requests (some r) ∧
      newCompleteOrchestrationAction 2 .completed (some "\"hello you\"") [] none =
        completionAction 2 r := by
  have hfaithful : (greetingWorker.executor greetingRequest).Faithful
      (greetingWorker.answers "test") (greetingRequest.pastEvents ++ greetingRequest.newEvents) :=
    OrchestrationExecutorFuture.Faithful.mono
      (show OrchestrationExecutorFuture.Faithful _ (answeredBy greetingAnswer) _ by decide)
      fun _ _ => greetingWorker_answers
  have hflow : (greetingWorker.executor greetingRequest).RunsFlow greeting
      (greetingRequest.pastEvents ++ greetingRequest.newEvents) := by
    refine ⟨by decide, fun e he s func hk hreg => ?_⟩
    have hfunc : func = ⟨fun _ _ => greeting.future⟩ := eq_of_registered hreg
    rw [hfunc]
  have hexec : greetingWorker.executeOrchestrator greetingRequest = .ok
      ⟨"test", [newCompleteOrchestrationAction 2 .completed (some "\"hello you\"") [] none],
        none⟩ := by decide
  have hlocal := call_is_local greet_fits rfl hflow hfaithful hexec _ (List.mem_singleton_self _)
    rfl
  rcases hlocal with ⟨-, h⟩ | h
  · cases h
  · exact h

end DurableTask
