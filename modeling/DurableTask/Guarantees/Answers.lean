import DurableTask.Runtime.Orchestrators
import DurableTask.Worker.Loop

/-! # Answers to activity requests

The task that is spawned for an activity request ends in one of three ways: it
sends the output, it sends a response that says nothing, or it sends nothing at
all. The last two are what becomes of every failure.
-/

namespace DurableTask

variable {Environment : Type}

/-- What is registered with a worker before it is started. -/
inductive Registration (Environment : Type) where
  | orchestrator (name : String) (func : OrchestratorFunction)
  | activity (name : String) (func : Activity Environment)

def Worker.register (self : Worker Environment) : Registration Environment → Worker Environment
  | .orchestrator name func => self.addOrchestrator name func
  | .activity name func => self.addActivity name func

def Worker.configured (environment : Environment) (env : OrchestratorRequest → Env)
    (regs : List (Registration Environment)) : Worker Environment :=
  regs.foldl Worker.register (.new environment env)

def Registration.replace (name : String) (found : Option (Activity Environment)) :
    Registration Environment → Option (Activity Environment)
  | .orchestrator _ _ => found
  | .activity name' func => if name' = name then some func else found

def registered (regs : List (Registration Environment)) (name : String) :
    Option (Activity Environment) :=
  regs.foldl (Registration.replace name) none

/-- A response carries the output of the activity, or says that it failed. -/
def Answered (activity : Option (Activity Environment)) (ctx : ActivityContext Environment)
    (input : Option String) (response : ActivityResponse) : Prop :=
  match activity with
  | none => response.failureDetails.isSome
  | some a =>
    match a.outcome ctx input with
    | .ok o => ∃ json, a.encode o = .ok json ∧ response.result = some json
    | .error _ => response.failureDetails.isSome

/-- The activity is registered and has an output for the input, which can be encoded. -/
def Succeeds (activity : Option (Activity Environment)) (ctx : ActivityContext Environment)
    (input : Option String) : Prop :=
  ∃ a o json, activity = some a ∧ a.outcome ctx input = .ok o ∧ a.encode o = .ok json

theorem register_getActivity {worker : Worker Environment} {name : String}
    {found : Option (Activity Environment)} (reg : Registration Environment)
    (h : worker.registry.getActivity name = found.map Activity.intoActivityFn) :
    (worker.register reg).registry.getActivity name =
      (reg.replace name found).map Activity.intoActivityFn := by
  cases reg with
  | orchestrator name' func => exact h
  | activity name' func =>
    by_cases hn : name' = name
    · subst hn
      simp [Worker.register, Worker.addActivity, WorkerRegistry.addActivity,
        WorkerRegistry.getActivity, Registration.replace]
    · simpa [Worker.register, Worker.addActivity, WorkerRegistry.addActivity,
        WorkerRegistry.getActivity, Registration.replace, hn, Function.update_of_ne (Ne.symm hn)]
        using h

theorem configured_getActivity (environment : Environment) (env : OrchestratorRequest → Env)
    (regs : List (Registration Environment)) (name : String) :
    (Worker.configured environment env regs).registry.getActivity name =
      (registered regs name).map Activity.intoActivityFn := by
  have key (regs : List (Registration Environment)) (worker : Worker Environment)
      (found : Option (Activity Environment))
      (h : worker.registry.getActivity name = found.map Activity.intoActivityFn) :
      (regs.foldl Worker.register worker).registry.getActivity name =
        (regs.foldl (Registration.replace name) found).map Activity.intoActivityFn := by
    induction regs generalizing worker found with
    | nil => exact h
    | cons reg regs ih => exact ih _ _ (register_getActivity reg h)
  exact key regs _ none rfl

theorem configured_environment (environment : Environment) (env : OrchestratorRequest → Env)
    (regs : List (Registration Environment)) :
    (Worker.configured environment env regs).environment = environment := by
  have key (regs : List (Registration Environment)) (worker : Worker Environment) :
      (regs.foldl Worker.register worker).environment = worker.environment := by
    induction regs generalizing worker with
    | nil => rfl
    | cons reg regs ih =>
      rw [List.foldl_cons, ih]
      cases reg <;> rfl
  exact key regs _

theorem calls_activityRequest {worker : Worker Environment} {request : ActivityRequest}
    {inst : OrchestrationInstance} {activity : Option (Activity Environment)}
    (hinst : request.orchestrationInstance = some inst)
    (hget : worker.registry.getActivity request.name = activity.map Activity.intoActivityFn) :
    worker.calls (.ok ⟨some (.activityRequest request)⟩) =
      match resultOf activity ⟨inst.instanceId, request.taskId, worker.environment⟩
        request.input with
      | .ok result => [.completeActivityTask ⟨inst.instanceId, request.taskId, result, none⟩]
      | .error _ => [] := by
  have hexec : (⟨worker.registry, worker.environment⟩ : ActivityExecutor Environment).execute
      inst.instanceId request.name request.taskId request.input = resultOf activity
        ⟨inst.instanceId, request.taskId, worker.environment⟩ request.input :=
    ActivityExecutor.execute_eq hget _ _ _
  simp only [Worker.calls, Worker.executeActivity, hinst, hexec]
  cases resultOf activity _ request.input <;> rfl

/--
The task that is spawned for a request sends exactly one response, to the request's instance and
task, and it says what became of the input.
-/
def Worker.Answers (worker : Worker Environment) (activity : Option (Activity Environment))
    (request : ActivityRequest) (inst : OrchestrationInstance) : Prop :=
  ∃ response, worker.calls (.ok ⟨some (.activityRequest request)⟩) =
      [.completeActivityTask response] ∧
    response.instanceId = inst.instanceId ∧ response.taskId = request.taskId ∧
    Answered activity ⟨inst.instanceId, request.taskId, worker.environment⟩ request.input response

theorem answers_iff {worker : Worker Environment} {request : ActivityRequest}
    {inst : OrchestrationInstance} {activity : Option (Activity Environment)}
    (hinst : request.orchestrationInstance = some inst)
    (hget : worker.registry.getActivity request.name = activity.map Activity.intoActivityFn) :
    worker.Answers activity request inst ↔
      Succeeds activity ⟨inst.instanceId, request.taskId, worker.environment⟩ request.input := by
  unfold Worker.Answers
  rw [calls_activityRequest hinst hget]
  constructor
  · rintro ⟨response, hcalls, -, -, hanswered⟩
    cases activity with
    | none =>
      -- the response is that of a success without a result
      cases hcalls
      cases hanswered
    | some a =>
      simp only [Answered, resultOf] at hcalls hanswered
      cases ho : a.outcome ⟨inst.instanceId, request.taskId, worker.environment⟩ request.input with
      | error e =>
        -- nothing was sent
        rw [ho] at hcalls
        cases hcalls
      | ok o =>
        rw [ho] at hanswered
        obtain ⟨json, hjson, -⟩ := hanswered
        exact ⟨a, o, json, rfl, ho, hjson⟩
  · rintro ⟨a, o, json, rfl, ho, hjson⟩
    have hresult : resultOf (some a) ⟨inst.instanceId, request.taskId, worker.environment⟩
        request.input = .ok (some json) := by
      simp [resultOf, ho, Except.bind, Except.map, hjson]
    refine ⟨⟨inst.instanceId, request.taskId, some json, none⟩, ?_, rfl, rfl, ?_⟩
    · simp only [hresult]
    · simp only [Answered, ho]
      exact ⟨json, hjson, rfl⟩

/--
A request that names an instance is answered exactly if its activity is registered, returns from
the decoded input and has an output that can be encoded. Over a whole stream of items the calls of
the worker are those of the tasks that it spawns, in any order.
-/
theorem activity_answered_iff (environment : Environment) (env : OrchestratorRequest → Env)
    (regs : List (Registration Environment)) :
    let worker := Worker.configured environment env regs
    (∀ request inst, request.orchestrationInstance = some inst →
      (worker.Answers (registered regs request.name) request inst ↔
        Succeeds (registered regs request.name)
          ⟨inst.instanceId, request.taskId, environment⟩ request.input)) ∧
    ∀ items s, worker.Steps ⟨items, [], []⟩ s → s.stream = [] → s.tasks = [] →
      s.sent.Perm (items.flatMap worker.calls) := by
  intro worker
  constructor
  · intro request inst hinst
    have hget := configured_getActivity environment env regs request.name
    rw [answers_iff hinst hget, configured_environment]
  · intro items s hsteps hstream htasks
    exact hsteps.sent hstream htasks

def echo : Activity Unit where
  Arg := String
  Out := String
  decode s := if s = "" then .error "end of input" else .ok s
  encode := .ok
  func _ s := if s = "fail" then .error "failed" else .ok s

def activityRequest (name : String) (input : Option String) : ActivityRequest :=
  ⟨name, input, some ⟨"test"⟩, 1⟩

theorem activity_unanswered :
    let regs := [Registration.activity "echo" echo]
    let worker := Worker.configured () (fun _ => plainEnv) regs
    (worker.calls (.ok ⟨some (.activityRequest (activityRequest "other" (some "x")))⟩) =
        [.completeActivityTask ⟨"test", 1, none, none⟩] ∧
      ¬worker.Answers (registered regs "other") (activityRequest "other" (some "x")) ⟨"test"⟩) ∧
    (worker.calls (.ok ⟨some (.activityRequest (activityRequest "echo" (some "fail")))⟩) = [] ∧
      ¬worker.Answers (registered regs "echo") (activityRequest "echo" (some "fail")) ⟨"test"⟩) ∧
    (worker.calls (.ok ⟨some (.activityRequest (activityRequest "echo" (some "")))⟩) = [] ∧
      ¬worker.Answers (registered regs "echo") (activityRequest "echo" (some "")) ⟨"test"⟩) := by
  intro regs worker
  have unknown : worker.calls
      (.ok ⟨some (.activityRequest (activityRequest "other" (some "x")))⟩) =
        [.completeActivityTask ⟨"test", 1, none, none⟩] := by decide
  have failed : worker.calls
      (.ok ⟨some (.activityRequest (activityRequest "echo" (some "fail")))⟩) = [] := by decide
  have undecoded : worker.calls
      (.ok ⟨some (.activityRequest (activityRequest "echo" (some "")))⟩) = [] := by decide
  refine ⟨⟨unknown, ?_⟩, ⟨failed, ?_⟩, undecoded, ?_⟩
  · rintro ⟨response, hcalls, -, -, hanswered⟩
    rw [unknown] at hcalls
    cases hcalls
    cases hanswered
  · rintro ⟨response, hcalls, -⟩
    rw [failed] at hcalls
    cases hcalls
  · rintro ⟨response, hcalls, -⟩
    rw [undecoded] at hcalls
    cases hcalls

end DurableTask
