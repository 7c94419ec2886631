import DurableTask.Guarantees.Provenance
import DurableTask.Guarantees.Remote
import DurableTask.Guarantees.Standstill
import DurableTask.Worker.TaskHub
import Mathlib.Order.FixedPoints

/-! # Distributed execution

Instances are distributed over the tasks of a worker, and what they ask of each
other travels through the sidecar. Whatever the order in which the worker and
the sidecar take their turns, every instance is at a point of one direct
execution, in which activities and sub-orchestrations are called on the spot.
-/

namespace DurableTask

open OrchestrationExecutorFuture

/-- Orchestrators as flows, by their names, the instance and the input. -/
abbrev Programs := String → String → Option String → Flow (OrchestratorResult String)

section

variable {Environment : Type} (worker : Worker Environment) (prog : Programs) (env : Env)

/-- The orchestrators that are registered are these flows. -/
def Worker.RunsFlows : Prop := ∀ name func, worker.registry.getOrchestrator name = some func →
  ∀ id input, func.call id input = (prog name id input).future

/--
One level of direct execution: a sub-orchestration is executed on the spot, and what it asks for in
turn is answered by `service`.
-/
def evaluation : (String → Service) →o (String → Service) where
  toFun service id q v :=
    match q with
    | .activity _ _ => worker.answers id q v
    | .subOrchestration name child input => ∃ requests,
      (prog name child input).Runs env.toLowercase (service child) requests (some (.ok (.output v)))
    | .timer => v = ""
    | .signal _ => True
  monotone' service service' h id q v := by
    cases q with
    | subOrchestration name child input =>
      rintro ⟨requests, hruns⟩
      exact ⟨requests, hruns.mono (h child)⟩
    | _ => exact fun hv => hv

def direct : String → Service := (evaluation worker prog env).lfp

variable {worker prog env}

theorem direct_iff {id : String} {q : TaskRequest} {v : String} :
    direct worker prog env id q v ↔ evaluation worker prog env (direct worker prog env) id q v := by
  conv_lhs => rw [direct, ← OrderHom.map_lfp]
  rfl

end

def Instance.received (i : Instance) : List HistoryEvent := i.news.getD [] ++ i.inbox

section

variable {Environment : Type} (worker : Worker Environment) (prog : Programs) (env : Env)

def Worker.executorFor (id : String) : OrchestrationExecutorFuture :=
  ⟨env, id, worker.registry.toRegistry⟩

/-- What has come back from an instance is what a direct execution comes to that it answers. -/
structure Refines (id : String) (x : ExecutionStartedEvent) (history : List HistoryEvent)
    (episodes : List Episode) : Prop where
  tracked : (worker.executorFor env id).Unasked history episodes ∨
    ∃ answered waiting result, (worker.executorFor env id).Tracks (prog x.name id x.input)
        (direct worker prog env id) history episodes answered waiting result ∧
      ((∀ N ∈ env.budget, answered.card < N) → Lacks env history episodes answered waiting)
  reported : ∀ ep ∈ episodes, ∀ a ∈ ep.actions, a.isComplete = true →
    ∃ (requests : Multiset TaskRequest) (r : OrchestratorResult String),
      (prog x.name id x.input).Runs env.toLowercase (direct worker prog env id) requests (some r) ∧
        a = completionAction a.id r

/-- What holds of an instance between two turns, and of the calls that it is owed. -/
structure Instance.Sound (id : String) (owed : Multiset ClientCall) (i : Instance) : Prop where
  unstarted : i.started = none → i = default
  run : (worker.executorFor env id).Run i.history i.episodes
  faithful : ∀ env', env.Alike env' →
    ((worker.executorFor env id).under env').Faithful (direct worker prog env id) i.history
  starts : ∀ e ∈ i.history ++ i.received, ∀ x, e.kind = .start x → i.started = some x
  once : (i.history ++ i.received).countP HistoryEvent.isStart ≤ 1
  answers : ∀ e ∈ i.received, e.kind.isNews = true ∧
    AnswersTask env (direct worker prog env id) i.tasks e.kind
  /-- Nothing but the answer to the request that is under way. -/
  orchestrator : (owed.filter fun c => c.isOrchestratorTask = true) =
    (i.news.toList.flatMap fun news =>
      worker.calls (.ok ⟨some (.orchestratorRequest ⟨id, i.history, news⟩)⟩) : List ClientCall)
  /-- Nothing but the results of activities that were asked for. -/
  activities : ∀ response, .completeActivityTask response ∈ owed → ∃ name input,
    newScheduleTaskAction response.taskId name input ∈ i.tasks ∧
      worker.executeActivity ⟨name, input, some ⟨id⟩, response.taskId⟩ = .ok response
  /-- Every arm that hands over a value polls. -/
  loud : ∀ e ∈ i.history ++ i.received, e.kind.silent = false
  refines : ∀ x, i.started = some x → Refines worker prog env id x i.history i.episodes

/-- What holds of the hub between two turns. -/
structure TaskHub.Sound (s : TaskHub) : Prop where
  instances : ∀ id, (s.instances id).Sound worker prog env id (s.owed worker id)
  /-- A sub-orchestration is one that its parent was to create. -/
  parents : ∀ id parent taskId, (s.instances id).parent = some (parent, taskId) → ∃ x,
    (s.instances id).started = some x ∧
      newCreateSubOrchestrationAction taskId x.name id x.input ∈ (s.instances parent).tasks

end

variable {Environment : Type} {worker : Worker Environment} {prog : Programs} {env : Env}

theorem Refines.confirmed {id : String} {x : ExecutionStartedEvent}
    {history events : List HistoryEvent} {episodes : List Episode}
    (h : Refines worker prog env id x history episodes)
    (hk : ∀ e ∈ events, ∃ id, e.kind = .acknowledge id) :
    Refines worker prog env id x (history ++ events) episodes := by
  refine ⟨h.tracked.imp (fun hu => hu.confirmed hk) ?_, h.reported⟩
  rintro ⟨answered, waiting, result, htracks, hlacks⟩
  exact ⟨answered, waiting, result, htracks.append, fun hb => (hlacks hb).confirmed hk⟩

namespace Instance

variable {id : String} {owed owed' : Multiset ClientCall} {i : Instance} {e : HistoryEvent}

theorem sound_default : (default : Instance).Sound worker prog env id 0 where
  unstarted _ := rfl
  run := .nil
  faithful _ _ := trivial
  starts _ he := by cases he
  once := Nat.zero_le _
  answers _ he := by cases he
  orchestrator := rfl
  activities _ hr := absurd hr (Multiset.notMem_zero _)
  loud _ he := by cases he
  refines _ hx := by cases hx

theorem Sound.create (h : i.Sound worker prog env id owed) {x : ExecutionStartedEvent}
    {parent : Option (String × Int)} (hnew : i.started = none)
    (he : e.eventType = some (.executionStarted x)) :
    (⟨some x, parent, [], [e], none, []⟩ : Instance).Sound worker prog env id owed := by
  obtain rfl := h.unstarted hnew
  have hk : e.kind = .start x := by rw [HistoryEvent.kind, he]
  refine ⟨fun hx => absurd hx (Option.some_ne_none x), .nil, fun _ _ => trivial,
    fun e' he' y hy => ?_, ?_, fun e' he' => ?_, h.orchestrator, h.activities, fun e' he' => ?_,
    fun y _ => ⟨.inl ⟨by simp, rfl, by simp⟩, by simp⟩⟩
  · rw [List.mem_singleton.mp he', hk] at hy
    cases hy
    rfl
  · exact List.countP_le_length
  · rw [List.mem_singleton.mp he', hk]
    exact ⟨rfl, trivial⟩
  · rw [List.mem_singleton.mp he', hk]
    rfl

theorem Sound.receive (h : i.Sound worker prog env id owed) (hstarted : i.started ≠ none)
    (hnews : e.kind.isNews = true) (hstart : e.isStart = false) (hloud : e.kind.silent = false)
    (hanswers : AnswersTask env (direct worker prog env id) i.tasks e.kind) :
    ({ i with inbox := i.inbox ++ [e] } : Instance).Sound worker prog env id owed := by
  have hreceived : ({ i with inbox := i.inbox ++ [e] } : Instance).received = i.received ++ [e] :=
    (List.append_assoc _ _ _).symm
  refine ⟨fun hx => absurd hx hstarted, h.run, h.faithful, ?_, ?_, ?_, h.orchestrator,
    h.activities, ?_, h.refines⟩
  · rw [hreceived, ← List.append_assoc]
    intro e' he' x hx
    rcases List.mem_append.mp he' with he' | he'
    · exact h.starts e' he' x hx
    · rw [List.mem_singleton.mp he'] at hx
      rw [HistoryEvent.isStart, hx] at hstart
      cases hstart
  · rw [hreceived, ← List.append_assoc, List.countP_append, List.countP_singleton, hstart]
    exact h.once
  · rw [hreceived]
    intro e' he'
    rcases List.mem_append.mp he' with he' | he'
    · exact h.answers e' he'
    · rw [List.mem_singleton.mp he']
      exact ⟨hnews, hanswers⟩
  · rw [hreceived, ← List.append_assoc]
    intro e' he'
    rcases List.mem_append.mp he' with he' | he'
    · exact h.loud e' he'
    · exact List.mem_singleton.mp he' ▸ hloud

theorem Sound.dispatch (h : i.Sound worker prog env id owed) (hstarted : i.started ≠ none)
    {news rest : List HistoryEvent} (hnone : i.news = none) (hinbox : i.inbox.Perm (news ++ rest)) :
    ({ i with inbox := rest, news := some news } : Instance).Sound worker prog env id (owed +
      (worker.calls (.ok ⟨some (.orchestratorRequest ⟨id, i.history, news⟩)⟩) :
        Multiset ClientCall)) := by
  have hreceived : i.received = i.inbox := by rw [received, hnone]; rfl
  have hperm : i.received.Perm
      ({ i with inbox := rest, news := some news } : Instance).received := hreceived ▸ hinbox
  have hall := hperm.append_left i.history
  refine ⟨fun hx => absurd hx hstarted, h.run, h.faithful, ?_, ?_, ?_, ?_, ?_,
    fun e' he' => h.loud e' (hall.mem_iff.mpr he'), h.refines⟩
  · exact fun e' he' => h.starts e' (hall.mem_iff.mpr he')
  · exact (hall.countP_eq _).symm.trans_le h.once
  · exact fun e' he' => h.answers e' (hperm.mem_iff.mpr he')
  · have hold := h.orchestrator
    rw [hnone] at hold
    rw [Multiset.filter_add, hold, Multiset.filter_eq_self.mpr]
    · simp
    · intro c hc
      obtain ⟨actions, -, rfl⟩ := TaskHub.calls_orchestrator hc
      rfl
  · intro response hr
    rcases Multiset.mem_add.mp hr with hr | hr
    · exact h.activities response hr
    · obtain ⟨actions, -, hc⟩ := TaskHub.calls_orchestrator hr
      cases hc

theorem Sound.schedule (h : i.Sound worker prog env id owed) {taskId : Int} {name : String}
    {input : Option String} (ha : newScheduleTaskAction taskId name input ∈ i.tasks) :
    i.Sound worker prog env id (owed +
      (worker.calls (.ok ⟨some (.activityRequest ⟨name, input, some ⟨id⟩, taskId⟩)⟩) :
        Multiset ClientCall)) := by
  refine ⟨h.unstarted, h.run, h.faithful, h.starts, h.once, h.answers, ?_, ?_, h.loud, h.refines⟩
  · rw [Multiset.filter_add, h.orchestrator, Multiset.filter_eq_nil.mpr, add_zero]
    intro c hc
    obtain ⟨result, -, rfl⟩ := TaskHub.calls_activity hc
    simp [ClientCall.isOrchestratorTask]
  · intro response hr
    rcases Multiset.mem_add.mp hr with hr | hr
    · exact h.activities response hr
    · obtain ⟨result, hexec, hc⟩ := TaskHub.calls_activity hr
      cases hc
      exact ⟨name, input, ha, hexec⟩

theorem Sound.complete {payload : String} {taskId : Int}
    {failureDetails : Option TaskFailureDetails} (h : i.Sound worker prog env id owed')
    (howed : owed' =
      owed + {.completeActivityTask ⟨id, taskId, some payload, failureDetails⟩})
    (he : e.eventType = some (.taskCompleted ⟨taskId, some payload⟩)) :
    ({ i with inbox := i.inbox ++ [e] } : Instance).Sound worker prog env id owed := by
  have hk : e.kind = .resolve taskId (some payload) "failed to unblock activity" true := by
    rw [HistoryEvent.kind, he]
  obtain ⟨name, input, hm, hexec⟩ := h.activities _
    (howed ▸ Multiset.mem_add.mpr (.inr (Multiset.mem_singleton_self _)))
  have hstarted : i.started ≠ none := by
    intro hnone
    rw [h.unstarted hnone] at hm
    cases hm
  have htaken : i.Sound worker prog env id owed := by
    refine ⟨h.unstarted, h.run, h.faithful, h.starts, h.once, h.answers, ?_, ?_, h.loud,
      h.refines⟩
    · have hold := h.orchestrator
      rwa [howed, Multiset.filter_add, Multiset.filter_singleton, if_neg (by simp [
        ClientCall.isOrchestratorTask]), Multiset.empty_eq_zero, add_zero] at hold
    · exact fun r hr => h.activities r (howed ▸ Multiset.mem_add.mpr (.inl hr))
  refine htaken.receive hstarted (by rw [hk]; rfl) (by rw [HistoryEvent.isStart, hk]; rfl)
    (by rw [hk]; rfl) ?_
  rw [hk]
  refine ⟨_, hm, rfl, payload, rfl, fun q hq => ?_⟩
  cases hq
  refine direct_iff.mpr ⟨taskId, ?_⟩
  obtain rfl : failureDetails = none := by
    simp only [Worker.executeActivity] at hexec
    split at hexec <;> cases hexec
    rfl
  exact hexec

section

variable {x : ExecutionStartedEvent} {news confirmations : List HistoryEvent}
  {actions order : List OrchestratorAction} {customStatus : Option String}

theorem Sound.executes (h : i.Sound worker prog env id owed')
    (howed : owed' = owed + {.completeOrchestratorTask ⟨id, actions, customStatus⟩})
    (hnews : i.news = some news) :
    (owed.filter fun c => c.isOrchestratorTask = true) = 0 ∧
      (worker.executor ⟨id, i.history, news⟩).execute i.history news = .ok actions := by
  have hcalls := h.orchestrator
  rw [howed, Multiset.filter_add, Multiset.filter_singleton, if_pos (by rfl), hnews] at hcalls
  simp only [Option.toList_some, List.flatMap_cons, List.flatMap_nil, List.append_nil] at hcalls
  have hmem : ClientCall.completeOrchestratorTask ⟨id, actions, customStatus⟩ ∈
      worker.calls (.ok ⟨some (.orchestratorRequest ⟨id, i.history, news⟩)⟩) := by
    rw [← Multiset.mem_coe, ← hcalls]
    exact Multiset.mem_add.mpr (.inr (Multiset.mem_singleton_self _))
  obtain ⟨actions', hexec, hc⟩ := TaskHub.calls_orchestrator hmem
  cases hc
  constructor
  · simpa [Worker.calls, hexec] using hcalls
  · simp only [Worker.executeOrchestrator] at hexec
    split at hexec
    · cases hexec
    · rename_i hr
      cases hexec
      exact hr

theorem Sound.started (h : i.Sound worker prog env id owed) (hnews : i.news = some news) :
    ∃ x, i.started = some x := by
  cases hx : i.started with
  | none =>
    rw [h.unstarted hx] at hnews
    cases hnews
  | some x => exact ⟨x, rfl⟩

theorem Sound.runsFlow (h : i.Sound worker prog env id owed) (hprog : worker.RunsFlows prog)
    (hx : i.started = some x) (hnews : i.news = some news) :
    (worker.executorFor env id).RunsFlow (prog x.name id x.input) (i.history ++ news) := by
  have hreceived : i.history ++ i.received = i.history ++ news ++ i.inbox := by
    rw [received, hnews, Option.getD_some, List.append_assoc]
  constructor
  · have honce := h.once
    rw [hreceived, List.countP_append] at honce
    exact Nat.le_of_add_right_le honce
  · intro e he s func hk hreg
    have hs := h.starts e (hreceived ▸ List.mem_append_left _ he) s hk
    rw [hx] at hs
    cases hs
    exact hprog _ _ hreg id _

theorem Sound.plays (h : i.Sound worker prog env id owed')
    (howed : owed' = owed + {.completeOrchestratorTask ⟨id, actions, customStatus⟩})
    (hprog : worker.RunsFlows prog) (halike : ∀ request, env.Alike (worker.env request))
    (hnews : i.news = some news) : (worker.executorFor env id).Plays i.history
      ⟨worker.env ⟨id, i.history, news⟩, news, actions, confirmations⟩ := by
  obtain ⟨x, hx⟩ := h.started hnews
  refine ⟨halike _, fun e he => (h.answers e ?_).1, (h.runsFlow hprog hx hnews).once,
    (h.executes howed hnews).2⟩
  rw [received, hnews]
  exact List.mem_append_left _ he

theorem Sound.faithful_news (h : i.Sound worker prog env id owed) (hprog : worker.RunsFlows prog)
    (hnews : i.news = some news) {env' : Env} (henv : env.Alike env') :
    ((worker.executorFor env id).under env').Faithful (direct worker prog env id)
      (i.history ++ news) := by
  obtain ⟨x, hx⟩ := h.started hnews
  refine h.run.faithful_news henv (h.runsFlow hprog hx hnews) (h.faithful env' henv) fun e he =>
    h.answers e ?_
  rw [received, hnews]
  exact List.mem_append_left _ he

/-- The episode that the worker has answered has come as far as a direct execution. -/
theorem Sound.refines_news (h : i.Sound worker prog env id owed')
    (howed : owed' = owed + {.completeOrchestratorTask ⟨id, actions, customStatus⟩})
    (hprog : worker.RunsFlows prog) (halike : ∀ request, env.Alike (worker.env request))
    (hnews : i.news = some news) (hx : i.started = some x) :
    Refines worker prog env id x (i.history ++ news) (i.episodes ++
      [⟨worker.env ⟨id, i.history, news⟩, news, actions, confirmations⟩]) := by
  have hplays : (worker.executorFor env id).Plays i.history
      ⟨worker.env ⟨id, i.history, news⟩, news, actions, confirmations⟩ :=
    h.plays howed hprog halike hnews
  have hflow := h.runsFlow hprog hx hnews
  have hfaithful := h.faithful_news hprog hnews (halike ⟨id, i.history, news⟩)
  have hloud : ∀ e ∈ i.history ++ news, e.kind.silent = false := by
    intro e he
    refine h.loud e ?_
    rw [received, hnews, ← List.append_assoc]
    exact List.mem_append_left _ he
  obtain ⟨ctx, hr, -⟩ := hplays.replay
  by_cases hlaunched : Launched ctx
  · obtain ⟨result, htracks⟩ := hflow.tracks h.run hplays hfaithful hr hlaunched
    refine ⟨.inr ⟨_, _, result, htracks, hflow.lacks h.run hplays hfaithful hr hlaunched hloud⟩,
      fun ep hep a ha hc => ?_⟩
    rcases List.mem_append.mp hep with hep | hep
    · exact (h.refines x hx).reported ep hep a ha hc
    · rw [List.mem_singleton.mp hep] at ha
      obtain ⟨r, rfl, he⟩ := htracks.outcome _ (by rw [List.getLast?_concat]; rfl) a ha hc
      exact ⟨_, r, htracks.halts.runs, he⟩
  · have hunasked := hflow.unasked h.run hplays hfaithful hr hlaunched
    refine ⟨.inl hunasked, fun ep hep a ha hc => ?_⟩
    rcases List.mem_append.mp hep with hep | hep
    · exact (h.refines x hx).reported ep hep a ha hc
    · rw [List.mem_singleton.mp hep] at ha
      have hincomplete := hunasked.incomplete _ (by rw [List.getLast?_concat]; rfl) a ha
      rw [hc] at hincomplete
      cases hincomplete

theorem mem_recorded {e : HistoryEvent} (hnews : i.news = some news)
    (he : e ∈ i.history ++ news ++ confirmations ++ i.inbox) :
    e ∈ i.history ++ i.received ∨ e ∈ confirmations := by
  rw [received, hnews, Option.getD_some]
  simp only [List.mem_append] at he ⊢
  tauto

theorem countP_recorded (hnews : i.news = some news)
    (hack : ∀ e ∈ confirmations, ∃ id, e.kind = .acknowledge id) :
    (i.history ++ news ++ confirmations ++ i.inbox).countP HistoryEvent.isStart =
      (i.history ++ i.received).countP HistoryEvent.isStart := by
  have hzero : confirmations.countP HistoryEvent.isStart = 0 := by
    rw [List.countP_eq_zero]
    intro e he
    obtain ⟨id', hid⟩ := hack e he
    simp [HistoryEvent.isStart, EventKind.isStart, hid]
  rw [received, hnews, Option.getD_some]
  simp only [List.countP_append, hzero]
  omega

/-- The episode is recorded and its tasks are confirmed. -/
theorem Sound.episode (h : i.Sound worker prog env id owed')
    (howed : owed' = owed + {.completeOrchestratorTask ⟨id, actions, customStatus⟩})
    (hprog : worker.RunsFlows prog) (halike : ∀ request, env.Alike (worker.env request))
    (hnews : i.news = some news) (horder : order.Perm (actions.filter fun a => !a.isComplete))
    (hconf : List.Forall₂ Confirms order confirmations) :
    ({ i with
      history := i.history ++ news ++ confirmations
      news := none
      episodes := i.episodes ++ [⟨worker.env ⟨id, i.history, news⟩, news, actions,
        confirmations⟩] } : Instance).Sound worker prog env id owed := by
  obtain ⟨x, hx⟩ := h.started hnews
  have hplays : (worker.executorFor env id).Plays i.history
      ⟨worker.env ⟨id, i.history, news⟩, news, actions, confirmations⟩ :=
    h.plays howed hprog halike hnews
  have hack := (confirmations_kind hconf).1
  have hreceived : i.received = news ++ i.inbox := by rw [received, hnews]; rfl
  refine ⟨fun hnone => ?_, h.run.episode hplays horder hconf, fun env' henv => ?_,
    fun e he y hy => ?_, ?_, fun e he => ?_, ?_, fun response hr => ?_, fun e he => ?_,
    fun y hy => ?_⟩
  · rw [hx] at hnone
    cases hnone
  · exact faithful_confirmed (h.faithful_news hprog hnews henv) hack
  · rcases mem_recorded hnews he with he | he
    · exact h.starts e he y hy
    · obtain ⟨id', hid⟩ := hack e he
      rw [hid] at hy
      cases hy
  · exact (countP_recorded hnews hack).trans_le h.once
  · have hin : e ∈ i.received := hreceived ▸ List.mem_append_right _ he
    refine (h.answers e hin).imp_right fun ha => ha.mono ?_
    rw [tasks, tasks, List.flatMap_append]
    exact List.subset_append_left _ _
  · exact (h.executes howed hnews).1
  · obtain ⟨name, input, hm, hexec⟩ := h.activities response
      (howed ▸ Multiset.mem_add.mpr (.inl hr))
    refine ⟨name, input, ?_, hexec⟩
    rw [tasks, List.flatMap_append]
    exact List.mem_append_left _ hm
  · rcases mem_recorded hnews he with he | he
    · exact h.loud e he
    · obtain ⟨id', hid⟩ := hack e he
      rw [hid]
      rfl
  · rw [hx] at hy
    cases hy
    exact (h.refines_news howed hprog halike hnews hx).confirmed hack

end

end Instance

namespace TaskHub

variable {s s' : TaskHub} {id : String} {i : Instance}

theorem sound_initial : initial.Sound worker prog env where
  instances _ := Instance.sound_default
  parents _ _ _ h := by cases h

theorem Sound.set (h : s.Sound worker prog env) (hs : s'.instances = (s.set id i).instances)
    (hi : i.Sound worker prog env id (s'.owed worker id))
    (howed : ∀ id' ≠ id, s'.owed worker id' = s.owed worker id')
    (hparent : i.parent = (s.instances id).parent) (hstarted : i.started = (s.instances id).started)
    (htasks : (s.instances id).tasks ⊆ i.tasks) : s'.Sound worker prog env := by
  refine ⟨fun id' => ?_, fun id' parent taskId hp => ?_⟩
  · rw [hs]
    by_cases hid : id' = id
    · subst hid
      rwa [instances_set_self]
    · rw [instances_set_ne s i hid, howed id' hid]
      exact h.instances id'
  · have hsame : (s'.instances id').parent = (s.instances id').parent ∧
        (s'.instances id').started = (s.instances id').started := by
      rw [hs]
      by_cases hid : id' = id
      · subst hid
        rw [instances_set_self]
        exact ⟨hparent, hstarted⟩
      · rw [instances_set_ne s i hid]
        exact ⟨rfl, rfl⟩
    have hgrows : (s.instances parent).tasks ⊆ (s'.instances parent).tasks := by
      rw [hs]
      by_cases hid : parent = id
      · subst hid
        rwa [instances_set_self]
      · rw [instances_set_ne s i hid]
        exact List.Subset.refl _
    rw [hsame.1] at hp
    obtain ⟨x, hx, hm⟩ := h.parents id' parent taskId hp
    exact ⟨x, hsame.2.trans hx, hgrows hm⟩

theorem Sound.create (h : s.Sound worker prog env) {event : ExecutionStartedEvent}
    {parent : Option (String × Int)} {e : HistoryEvent} (hnew : (s.instances id).started = none)
    (hparent : s.Creates id event parent) (he : e.eventType = some (.executionStarted event)) :
    (s.set id ⟨some event, parent, [], [e], none, []⟩).Sound worker prog env := by
  refine ⟨fun id' => ?_, fun id' parent' taskId hp => ?_⟩
  · by_cases hid : id' = id
    · subst hid
      rw [instances_set_self]
      exact (h.instances id').create hnew he
    · rw [instances_set_ne s _ hid]
      exact h.instances id'
  · -- the instance that is created has no tasks, so the parents are others
    have hgrows {p : String} {a : OrchestratorAction} (ha : a ∈ (s.instances p).tasks) :
        a ∈ ((s.set id ⟨some event, parent, [], [e], none, []⟩).instances p).tasks := by
      by_cases hid : p = id
      · subst hid
        rw [(h.instances p).unstarted hnew] at ha
        cases ha
      · rwa [instances_set_ne s _ hid]
    by_cases hid : id' = id
    · subst hid
      rw [instances_set_self] at hp ⊢
      cases hp
      exact ⟨event, rfl, hgrows hparent⟩
    · rw [instances_set_ne s _ hid] at hp ⊢
      obtain ⟨x, hx, hm⟩ := h.parents id' parent' taskId hp
      exact ⟨x, hx, hgrows hm⟩

/-- What arrives answers what was asked for, as direct execution does. -/
theorem Sound.arrives {e : HistoryEvent} (h : s.Sound worker prog env) (he : s.Arrives id e) :
    e.kind.isNews = true ∧ e.isStart = false ∧ e.kind.silent = false ∧
      AnswersTask env (direct worker prog env id) (s.instances id).tasks e.kind := by
  cases he with
  | notice he =>
    rw [HistoryEvent.isStart]
    rcases he with hk | ⟨t, hk⟩ | hk <;> rw [hk] <;> exact ⟨rfl, rfl, rfl, trivial⟩
  | @timerFired taskId fireAt ha he =>
    have hk : e.kind = .resolve taskId (some "") "failed to unblock timer" true := by
      rw [HistoryEvent.kind, he]
      rfl
    rw [HistoryEvent.isStart, hk]
    refine ⟨rfl, rfl, rfl, _, ha, rfl, "", rfl, fun q hq => ?_⟩
    cases hq
    exact direct_iff.mpr rfl
  | @eventRaised name payload he =>
    have hk : e.kind = .raise ⟨name, some payload⟩ := by rw [HistoryEvent.kind, he]
    rw [HistoryEvent.isStart, hk]
    exact ⟨rfl, rfl, rfl, payload, rfl, direct_iff.mpr trivial⟩
  | @subOrchestrationCompleted child output taskId id' ep hparent hep ha he =>
    have hk : e.kind = .resolve taskId (some output) "failed to unblock sub orchestrator" true := by
      rw [HistoryEvent.kind, he]
    obtain ⟨x, hx, hm⟩ := h.parents child id taskId hparent
    obtain ⟨requests, r, hruns, hr⟩ := ((h.instances child).refines x hx).reported ep hep _ ha rfl
    rw [HistoryEvent.isStart, hk]
    refine ⟨rfl, rfl, rfl, _, hm, rfl, output, rfl, fun q hq => ?_⟩
    cases hq
    refine direct_iff.mpr ⟨requests, ?_⟩
    -- the report is that of an output
    rcases r with r | _ | output'
    · cases hr
    · cases hr
    · cases hr
      exact hruns

theorem Sound.step (hprog : worker.RunsFlows prog)
    (halike : ∀ request, env.Alike (worker.env request)) (h : s.Sound worker prog env)
    (hstep : Step worker s s') : s'.Sound worker prog env := by
  cases hstep with
  | work hw =>
    refine ⟨fun id => ?_, h.parents⟩
    rw [owed_work hw]
    exact h.instances id
  | create hnew hparent he => exact h.create hnew hparent he
  | arrive hstarted he =>
    obtain ⟨hnews, hstart, hloud, hanswers⟩ := h.arrives he
    exact h.set rfl ((h.instances _).receive hstarted hnews hstart hloud hanswers) (fun _ _ => rfl)
      rfl rfl (List.Subset.refl _)
  | dispatch hstarted hnews hinbox =>
    refine h.set rfl ?_ (fun id' hne => owed_stream_ne rfl calls_orchestrator_id hne) rfl rfl
      (List.Subset.refl _)
    rw [owed_stream_self rfl calls_orchestrator_id]
    exact (h.instances _).dispatch hstarted hnews hinbox
  | @schedule id taskId name input ha =>
    refine h.set (Function.update_eq_self id s.instances).symm ?_
      (fun id' hne => owed_stream_ne rfl calls_activity_id hne) rfl rfl (List.Subset.refl _)
    rw [owed_stream_self rfl calls_activity_id]
    exact (h.instances _).schedule ha
  | @orchestratorCompleted id _ _ _ _ _ _ _ hsent hnews horder hconf =>
    refine h.set rfl ?_ (fun id' hne => owed_sent_ne hsent rfl hne) rfl rfl ?_
    · exact (h.instances id).episode (owed_sent_self hsent rfl rfl) hprog halike hnews horder hconf
    · rw [Instance.tasks, Instance.tasks, List.flatMap_append]
      exact List.subset_append_left _ _
  | @activityCompleted id _ _ _ _ _ _ hsent he =>
    exact h.set rfl ((h.instances id).complete (owed_sent_self hsent rfl rfl) he)
      (fun id' hne => owed_sent_ne hsent rfl hne) rfl rfl (List.Subset.refl _)

theorem sound_of_steps (hprog : worker.RunsFlows prog)
    (halike : ∀ request, env.Alike (worker.env request)) (h : Steps worker initial s) :
    s.Sound worker prog env := by
  induction h with
  | refl => exact sound_initial
  | tail _ hstep ih => exact ih.step hprog halike hstep

/--
Whatever the order of the turns, how often an activity is handed out and how long a message is on
its way: unless the worker has not started it, what an instance has asked for so far is exactly what
one direct execution of its orchestrator asks for, in which activities and sub-orchestrations are
executed on the spot and which goes on until it needs an answer that the worker was not given, and
what it has reported last is the outcome of this execution.
-/
theorem steps_refine (hprog : worker.RunsFlows prog)
    (halike : ∀ request, env.Alike (worker.env request)) (h : Steps worker initial s)
    {x : ExecutionStartedEvent} (hx : (s.instances id).started = some x) :
    (worker.executorFor env id).Unasked (s.instances id).history (s.instances id).episodes ∨
      ∃ answered waiting result,
        (worker.executorFor env id).Tracks (prog x.name id x.input) (direct worker prog env id)
          (s.instances id).history (s.instances id).episodes answered waiting result ∧
        ((∀ N ∈ env.budget, answered.card < N) →
          Lacks env (s.instances id).history (s.instances id).episodes answered waiting) :=
  (((sound_of_steps hprog halike h).instances id).refines x hx).tracked

end TaskHub

def relay : Flow (OrchestratorResult String) :=
  .andThen (.call (.subOrchestrator Text.jsonString Text.fromJsonString "" "greeting" "sub" "you"))
    fun r => .done ((r.bind Text.jsonString).map .output)

def relayPrograms : Programs := fun name _ _ => if name = "relay" then relay else greeting

def relayWorker : Worker Unit :=
  (((Worker.new () fun _ => plainEnv).addActivity "greet" greet).addOrchestrator "greeting"
    ⟨fun _ _ => greeting.future⟩).addOrchestrator "relay" ⟨fun _ _ => relay.future⟩

theorem relayWorker_runsFlows : relayWorker.RunsFlows relayPrograms := by
  intro name func hreg id input
  simp only [relayWorker, Worker.addOrchestrator, Worker.addActivity, Worker.new,
    WorkerRegistry.addOrchestrator, WorkerRegistry.addActivity, WorkerRegistry.empty,
    Registry.getOrchestrator, Registry.addOrchestrator, Registry.empty,
    Function.update_apply] at hreg
  split at hreg
  · rename_i hname
    cases hreg
    rw [relayPrograms, if_pos hname]
  · rename_i hname
    split at hreg <;> cases hreg
    rw [relayPrograms, if_neg hname]

def relayStarted : HistoryEvent := historyEvent (.executionStarted ⟨"relay", none⟩)

def greetingStarted : HistoryEvent := historyEvent (.executionStarted ⟨"greeting", some "\"you\""⟩)

def greetingCreated : HistoryEvent :=
  ⟨1, none, some (.subOrchestrationInstanceCreated ⟨"sub", "greeting", some "\"you\""⟩)⟩

def greetScheduled : HistoryEvent := ⟨1, none, some (.taskScheduled ⟨"greet", some "\"you\""⟩)⟩

def greetingCompleted : HistoryEvent :=
  historyEvent (.subOrchestrationInstanceCompleted ⟨1, some "\"hello you\""⟩)

def greeted : OrchestratorAction :=
  newCompleteOrchestrationAction 2 .completed (some "\"hello you\"") [] none

theorem relay_steps : ∃ s : TaskHub, TaskHub.Steps relayWorker .initial s ∧
    (s.instances "main").started = some ⟨"relay", none⟩ ∧
      (s.instances "main").episodes.getLast?.map Episode.actions = some [greeted] := by
  have h₁ : TaskHub.Steps relayWorker .initial _ :=
    .single (@TaskHub.Step.create _ _ _ "main" ⟨"relay", none⟩ none relayStarted rfl trivial rfl)
  have h₂ := TaskHub.steps_episode "main"
    [newCreateSubOrchestrationAction 1 "greeting" "sub" (some "\"you\"")] [greetingCreated] h₁ rfl
    (by decide) rfl rfl (.cons (.createSubOrchestration _ _ _) .nil)
  have h₃ := h₂.tail (@TaskHub.Step.create _ _ _ "sub" ⟨"greeting", some "\"you\""⟩
    (some ("main", 1)) greetingStarted rfl (by decide) rfl)
  have h₄ := TaskHub.steps_episode "sub" [newScheduleTaskAction 1 "greet" (some "\"you\"")]
    [greetScheduled] h₃ rfl (by decide) rfl rfl (.cons (.scheduleTask _ _ _) .nil)
  have h₅ := TaskHub.steps_activity "sub" 1 (e := taskCompleted 1 (some "\"hello you\"")) h₄
    (show newScheduleTaskAction 1 "greet" (some "\"you\"") ∈ _ by decide) rfl rfl
  have h₆ := TaskHub.steps_episode "sub" [greeted] [] h₅ rfl (by decide) rfl rfl .nil
  have h₇ := h₆.tail (@TaskHub.Step.arrive _ _ _ "main" greetingCompleted (by decide)
    (@TaskHub.Arrives.subOrchestrationCompleted _ _ _ "sub" "\"hello you\"" 1 2 _ rfl
      (List.mem_append_right _ (List.mem_singleton_self _)) (List.mem_singleton_self _) rfl))
  have h₈ := TaskHub.steps_episode "main" [greeted] [] h₇ rfl (by decide) rfl rfl .nil
  exact ⟨_, h₈, rfl, rfl⟩

theorem relay_refines : ∃ requests, relay.Runs id (direct relayWorker relayPrograms plainEnv "main")
    requests (some (.ok (.output "\"hello you\""))) := by
  obtain ⟨s, hsteps, hx, hlast⟩ := relay_steps
  obtain ⟨ep, hep, hactions⟩ := Option.map_eq_some_iff.mp hlast
  have hm : greeted ∈ ep.actions := by simp [hactions]
  rcases TaskHub.steps_refine relayWorker_runsFlows (fun _ => ⟨rfl, rfl⟩) hsteps hx with
    hunasked | ⟨answered, waiting, result, htracks, -⟩
  · cases hunasked.incomplete ep hep greeted hm
  · obtain ⟨r, rfl, he⟩ := htracks.outcome ep hep greeted hm rfl
    rcases r with r | _ | output
    · cases he
    · cases he
    · cases he
      exact ⟨_, htracks.halts.runs⟩

end DurableTask
