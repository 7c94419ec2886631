import DurableTask.Runtime.Orchestrators
import DurableTask.Worker.Environment

/-! # What a worker was set up with

Orchestrators, activities and values are added to a worker one by one, and what
is added last under a name or of a type is in force. However they were added,
the worker runs like one that was given tables of what is in force.
-/

namespace DurableTask

open Storage

variable {T : Type} [DecidableEq T] {El : T → Type}

/-- What a setup is about: the name of an orchestrator or of an activity, or a type. -/
inductive Subject (T : Type) where
  | orchestrator (name : String)
  | activity (name : String)
  | value (t : T)
  deriving DecidableEq

namespace Setup

def subject : Setup El → Subject T
  | .addOrchestrator name _ => .orchestrator name
  | .addActivity name _ => .activity name
  | .addEnvironment t _ => .value t

def orchestrator? : Setup El → Option (Write fun _ : String => OrchestratorFunction)
  | .addOrchestrator name func => some ⟨name, func⟩
  | .addActivity _ _ => none
  | .addEnvironment _ _ => none

def activity? : Setup El → Option (Write fun _ : String => Activity (Contents El))
  | .addOrchestrator _ _ => none
  | .addActivity name func => some ⟨name, func⟩
  | .addEnvironment _ _ => none

def value? : Setup El → Option (Write El)
  | .addOrchestrator _ _ => none
  | .addActivity _ _ => none
  | .addEnvironment t data => some ⟨t, data⟩

end Setup

def ActivityFunction.over (f : ActivityFunction (Contents El)) :
    ActivityFunction (Environment El) where
  call ctx := f.call ctx.view

theorem Activity.intoActivityFn_over (a : Activity (Contents El)) :
    (a.over : Activity (Environment El)).intoActivityFn = a.intoActivityFn.over := by
  simp only [Activity.intoActivityFn, ActivityFunction.over, Activity.over]
  congr 1
  funext ctx input
  simp only [Activity.argument]
  cases a.decode (input.getD "test") <;> rfl

namespace Worker

def describedBy (env : OrchestratorRequest → Env) (setups : List (Setup El)) :
    Worker (Contents El) where
  registry :=
    { orchestrators := latest (setups.filterMap Setup.orchestrator?)
      activities := fun name =>
        (latest (setups.filterMap Setup.activity?) name).map Activity.intoActivityFn }
  environment := latest (setups.filterMap Setup.value?)
  env := env

variable (env : OrchestratorRequest → Env) (setups : List (Setup El))

theorem setUp_env : (setUp env setups).env = env := by
  have key (worker : Worker (Environment El)) : (setups.foldl perform worker).env = worker.env := by
    induction setups generalizing worker with
    | nil => rfl
    | cons setup setups ih =>
      rw [List.foldl_cons, ih]
      cases setup <;> rfl
  exact key _

theorem setUp_orchestrators :
    (setUp env setups).registry.orchestrators = (describedBy env setups).registry.orchestrators :=
  view_foldl (fun worker : Worker (Environment El) => worker.registry.orchestrators)
    (by rintro worker (_ | _ | _) w ⟨⟩; rfl) (by rintro worker (_ | _ | _) ⟨⟩ <;> rfl) rfl setups

theorem setUp_activities (name : String) :
    (setUp env setups).registry.activities name =
      ((describedBy env setups).registry.activities name).map ActivityFunction.over := by
  let wrap (setup : Setup El) :
      Option (Write fun _ : String => ActivityFunction (Environment El)) :=
    setup.activity?.map (Sigma.map id fun _ a => a.intoActivityFn.over)
  have hall : (setUp env setups).registry.activities = latest (setups.filterMap wrap) :=
    view_foldl (fun worker : Worker (Environment El) => worker.registry.activities)
      (by
        rintro worker (_ | ⟨name, func⟩ | _) w ⟨⟩
        exact congrArg (Function.update worker.registry.activities name <| some ·)
          func.intoActivityFn_over)
      (by rintro worker (_ | _ | _) ⟨⟩ <;> rfl) rfl setups
  rw [hall, ← List.map_filterMap, latest_map, describedBy, Option.map_map]
  rfl

theorem setUp_values : (setUp env setups).environment.get = (describedBy env setups).environment :=
  view_foldl (fun worker : Worker (Environment El) => worker.environment.get)
    (by rintro worker (_ | _ | ⟨t, data⟩) w ⟨⟩; exact Environment.get_insert data)
    (by rintro worker (_ | _ | _) ⟨⟩ <;> rfl) rfl setups

theorem setUp_executeOrchestrator (request : OrchestratorRequest) :
    (setUp env setups).executeOrchestrator request =
      (describedBy env setups).executeOrchestrator request := by
  have hregistry : (setUp env setups).registry.toRegistry =
      (describedBy env setups).registry.toRegistry :=
    congrArg Registry.mk (setUp_orchestrators env setups)
  rw [executeOrchestrator, executeOrchestrator, hregistry, setUp_env]
  rfl

theorem setUp_executeActivity (request : ActivityRequest) :
    (setUp env setups).executeActivity request =
      (describedBy env setups).executeActivity request := by
  have hexecute (instanceId : String) :
      (⟨(setUp env setups).registry, (setUp env setups).environment⟩ :
        ActivityExecutor (Environment El)).execute instanceId request.name request.taskId
          request.input =
      (⟨(describedBy env setups).registry, (describedBy env setups).environment⟩ :
        ActivityExecutor (Contents El)).execute instanceId request.name request.taskId
          request.input := by
    simp only [ActivityExecutor.execute, WorkerRegistry.getActivity, setUp_activities]
    cases (describedBy env setups).registry.activities request.name with
    | none => rfl
    | some f =>
      simp only [Option.map_some, ActivityFunction.over, ActivityContext.view, setUp_values]
  simp only [executeActivity, hexecute]

theorem setUp_calls (item : StreamItem) :
    (setUp env setups).calls item = (describedBy env setups).calls item := by
  unfold calls
  simp only [setUp_executeOrchestrator, setUp_executeActivity]

theorem Step.congr {E E' : Type} {self : Worker E} {other : Worker E'}
    (h : self.calls = other.calls) {s s' : State} (hs : self.Step s s') : other.Step s s' := by
  cases hs with
  | spawn item stream tasks sent => exact .spawn item stream tasks sent
  | finish item stream before after sent =>
    rw [h]
    exact .finish item stream before after sent

theorem steps_congr {E E' : Type} {self : Worker E} {other : Worker E'}
    (h : self.calls = other.calls) {s s' : State} : self.Steps s s' ↔ other.Steps s s' :=
  ⟨Relation.ReflTransGen.mono (fun _ _ => Step.congr h) s s',
    Relation.ReflTransGen.mono (fun _ _ => Step.congr h.symm) s s'⟩

section Order

variable {setups} {setups' : List (Setup El)}

theorem eq_of_parts {E : Type} {worker worker' : Worker E}
    (horchestrators : worker.registry.orchestrators = worker'.registry.orchestrators)
    (hactivities : worker.registry.activities = worker'.registry.activities)
    (henvironment : worker.environment = worker'.environment) (henv : worker.env = worker'.env) :
    worker = worker' := by
  obtain ⟨⟨⟨_⟩, _⟩, _, _⟩ := worker
  obtain ⟨⟨⟨_⟩, _⟩, _, _⟩ := worker'
  subst horchestrators hactivities henvironment henv
  rfl

/-- Setups about different names and types may change places. -/
theorem setUp_congr (h : ∀ subject, setups'.filter (·.subject = subject) =
    setups.filter (·.subject = subject)) : setUp env setups' = setUp env setups := by
  have horchestrators : latest (setups'.filterMap Setup.orchestrator?) =
      latest (setups.filterMap Setup.orchestrator?) :=
    latest_filterMap_congr Subject.orchestrator (by rintro (_ | _ | _) w ⟨⟩; rfl) h
  have hactivities : latest (setups'.filterMap Setup.activity?) =
      latest (setups.filterMap Setup.activity?) :=
    latest_filterMap_congr Subject.activity (by rintro (_ | _ | _) w ⟨⟩; rfl) h
  have hvalues : latest (setups'.filterMap Setup.value?) =
      latest (setups.filterMap Setup.value?) :=
    latest_filterMap_congr Subject.value (by rintro (_ | _ | _) w ⟨⟩; rfl) h
  have hdescribed : describedBy env setups' = describedBy env setups := by
    simp only [describedBy, horchestrators, hactivities, hvalues]
  refine eq_of_parts ?_ (funext fun name => ?_) (Environment.ext_get ?_) ?_
  · rw [setUp_orchestrators, setUp_orchestrators, hdescribed]
  · rw [setUp_activities, setUp_activities, hdescribed]
  · rw [setUp_values, setUp_values, hdescribed]
  · rw [setUp_env, setUp_env]

end Order

end Worker

/--
However a worker was set up, it has the runs of the worker with the tables of what was added last,
and adding a value gives back the one that was added last of its type. Setups about different
names and types may change places.
-/
theorem setUp_runs (env : OrchestratorRequest → Env) (setups : List (Setup El)) :
    (∀ s s', (Worker.setUp env setups).Steps s s' ↔
      (Worker.describedBy env setups).Steps s s') ∧
    (∀ t (val : El t), ((Worker.setUp env setups).environment.insert val).2 =
      latest (setups.filterMap Setup.value?) t) ∧
    ∀ setups', (∀ subject, setups'.filter (·.subject = subject) =
        setups.filter (·.subject = subject)) →
      Worker.setUp env setups' = Worker.setUp env setups := by
  refine ⟨fun s s' => Worker.steps_congr (funext (Worker.setUp_calls env setups)),
    fun t val => ?_, fun setups' h => Worker.setUp_congr env h⟩
  rw [Environment.insert_snd, Worker.setUp_values]
  rfl

def welcome : Activity (Contents fun _ : Unit => String) where
  Arg := String
  Out := String
  decode := Text.fromJsonString
  encode := Text.jsonString
  func ctx name :=
    match ctx.environment () with
    | some salutation => .ok (salutation ++ name)
    | none => .error "no salutation"

def welcomeSetups : List (Setup fun _ : Unit => String) :=
  [.addEnvironment () "Hello ", .addActivity "welcome" welcome, .addEnvironment () "Hi "]

theorem welcome_runs :
    let worker := Worker.setUp (fun _ => plainEnv) welcomeSetups
    let described := Worker.describedBy (fun _ => plainEnv) welcomeSetups
    (∀ s s', worker.Steps s s' ↔ described.Steps s s') ∧
    Worker.setUp (fun _ => plainEnv) [.addActivity "welcome" welcome,
      .addEnvironment () "Hello ", .addEnvironment () "Hi "] = worker ∧
    described.calls
        (.ok ⟨some (.activityRequest ⟨"welcome", some "\"World\"", some ⟨"test"⟩, 1⟩)⟩) =
      [.completeActivityTask ⟨"test", 1, some "\"Hi World\"", none⟩] := by
  intro worker described
  have hruns := setUp_runs (fun _ => plainEnv) welcomeSetups
  refine ⟨hruns.1, hruns.2.2 _ fun subject => ?_, by decide⟩
  cases subject <;> simp [welcomeSetups, List.filter_cons, Setup.subject]

end DurableTask
