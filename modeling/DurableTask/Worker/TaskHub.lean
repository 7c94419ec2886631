import DurableTask.Guarantees.Scheduling
import DurableTask.Worker.Loop
import Mathlib.Algebra.Order.Group.Multiset

/-! # The task hub

The sidecar keeps the instances: how each was created, what it has delivered to
the worker and what has come back. It hands out work items, and what the worker
sends becomes history. The worker, its tasks and the sidecar take turns in any
order, and what is on its way may wait as long as it likes.
-/

namespace DurableTask

/-- What the sidecar keeps of an instance. -/
structure Instance where
  /-- How it was created, if it was. -/
  started : Option ExecutionStartedEvent
  /-- The instance and the task that it is the sub-orchestration of, if it is one. -/
  parent : Option (String × Int)
  /-- What was delivered and confirmed. -/
  history : List HistoryEvent
  /-- What has arrived since. -/
  inbox : List HistoryEvent
  /-- What the worker was given and has not answered. -/
  news : Option (List HistoryEvent)
  episodes : List Episode

instance : Inhabited Instance := ⟨⟨none, none, [], [], none, []⟩⟩

def Instance.tasks (i : Instance) : List OrchestratorAction := i.episodes.flatMap Episode.tasks

structure TaskHub where
  instances : String → Instance
  worker : Worker.State

namespace TaskHub

def initial : TaskHub := ⟨fun _ => default, ⟨[], [], []⟩⟩

def set (s : TaskHub) (id : String) (i : Instance) : TaskHub :=
  { s with instances := Function.update s.instances id i }

@[simp] theorem instances_set_self (s : TaskHub) (id : String) (i : Instance) :
    (s.set id i).instances id = i := by
  simp [set]

theorem instances_set_ne {id id' : String} (s : TaskHub) (i : Instance) (h : id' ≠ id) :
    (s.set id i).instances id' = s.instances id' := by
  simp [set, h]

/-- A client may create any instance, an orchestration those that it was asked to create. -/
def Creates (s : TaskHub) (id : String) (event : ExecutionStartedEvent) :
    Option (String × Int) → Prop
  | none => True
  | some (parent, taskId) => newCreateSubOrchestrationAction taskId event.name id event.input ∈
    (s.instances parent).tasks

instance (s : TaskHub) (id : String) (event : ExecutionStartedEvent) :
    (parent : Option (String × Int)) → Decidable (s.Creates id event parent)
  | none => inferInstanceAs (Decidable True)
  | some (parent, taskId) => inferInstanceAs (Decidable (newCreateSubOrchestrationAction taskId
    event.name id event.input ∈ (s.instances parent).tasks))

/-- What may reach an instance besides the results of activities. -/
inductive Arrives (s : TaskHub) (id : String) (e : HistoryEvent) : Prop where
  | notice (h : e.kind = .skip ∨ (∃ t, e.kind = .tick t) ∨ e.kind = .complete)
  | timerFired {taskId : Int} {fireAt : Timestamp}
    (ha : newCreateTimerAction taskId fireAt ∈ (s.instances id).tasks)
    (he : e.eventType = some (.timerFired ⟨taskId, some fireAt⟩))
  | eventRaised {name payload : String}
    (he : e.eventType = some (.eventRaised ⟨name, some payload⟩))
  | subOrchestrationCompleted {child output : String} {taskId id' : Int} {ep : Episode}
    (hparent : (s.instances child).parent = some (id, taskId))
    (hep : ep ∈ (s.instances child).episodes)
    (ha : newCompleteOrchestrationAction id' .completed (some output) [] none ∈ ep.actions)
    (he : e.eventType = some (.subOrchestrationInstanceCompleted ⟨taskId, some output⟩))

/-- A turn of the worker or of the sidecar. -/
inductive Step {Environment : Type} (worker : Worker Environment) : TaskHub → TaskHub → Prop where
  | work {s : TaskHub} {w : Worker.State} (h : worker.Step s.worker w) :
    Step worker s { s with worker := w }
  | create {s : TaskHub} {id : String} {event : ExecutionStartedEvent}
      {parent : Option (String × Int)} {e : HistoryEvent} (hnew : (s.instances id).started = none)
      (hparent : s.Creates id event parent) (he : e.eventType = some (.executionStarted event)) :
    Step worker s (s.set id ⟨some event, parent, [], [e], none, []⟩)
  | arrive {s : TaskHub} {id : String} {e : HistoryEvent}
      (hstarted : (s.instances id).started ≠ none) (he : s.Arrives id e) :
    Step worker s
      (s.set id { s.instances id with inbox := (s.instances id).inbox ++ [e] })
  /-- What has arrived may be delivered in any order, and some of it later. -/
  | dispatch {s : TaskHub} {id : String} {news rest : List HistoryEvent}
      (hstarted : (s.instances id).started ≠ none) (hnews : (s.instances id).news = none)
      (hinbox : (s.instances id).inbox.Perm (news ++ rest)) :
    Step worker s { s.set id { s.instances id with inbox := rest, news := some news } with
      worker.stream := s.worker.stream ++
        [.ok ⟨some (.orchestratorRequest ⟨id, (s.instances id).history, news⟩)⟩] }
  /-- An activity may be handed out late, or once more. -/
  | schedule {s : TaskHub} {id : String} {taskId : Int} {name : String} {input : Option String}
      (ha : newScheduleTaskAction taskId name input ∈ (s.instances id).tasks) :
    Step worker s { s with worker.stream := s.worker.stream ++
      [.ok ⟨some (.activityRequest ⟨name, input, some ⟨id⟩, taskId⟩)⟩] }
  /-- An episode is over: what it asks for is confirmed, in any order. -/
  | orchestratorCompleted {s : TaskHub} {id : String} {actions order : List OrchestratorAction}
      {customStatus : Option String} {before after : List ClientCall}
      {news confirmations : List HistoryEvent}
      (hsent : s.worker.sent =
        before ++ .completeOrchestratorTask ⟨id, actions, customStatus⟩ :: after)
      (hnews : (s.instances id).news = some news)
      (horder : order.Perm (actions.filter fun a => !a.isComplete))
      (hconf : List.Forall₂ Confirms order confirmations) :
    Step worker s { s.set id { s.instances id with
        history := (s.instances id).history ++ news ++ confirmations
        news := none
        episodes := (s.instances id).episodes ++
          [⟨worker.env ⟨id, (s.instances id).history, news⟩, news, actions, confirmations⟩] } with
      worker.sent := before ++ after }
  | activityCompleted {s : TaskHub} {id payload : String} {taskId : Int}
      {failureDetails : Option TaskFailureDetails} {before after : List ClientCall}
      {e : HistoryEvent} (hsent : s.worker.sent = before ++
        .completeActivityTask ⟨id, taskId, some payload, failureDetails⟩ :: after)
      (he : e.eventType = some (.taskCompleted ⟨taskId, some payload⟩)) :
    Step worker s { s.set id { s.instances id with inbox := (s.instances id).inbox ++ [e] } with
      worker.sent := before ++ after }

/-- The turns of the worker and the sidecar, in any order. -/
abbrev Steps {Environment : Type} (worker : Worker Environment) : TaskHub → TaskHub → Prop :=
  Relation.ReflTransGen (Step worker)

end TaskHub

def ClientCall.instanceId : ClientCall → String
  | .completeOrchestratorTask response => response.instanceId
  | .completeActivityTask response => response.instanceId

def ClientCall.isOrchestratorTask : ClientCall → Bool
  | .completeOrchestratorTask _ => true
  | .completeActivityTask _ => false

namespace TaskHub

variable {Environment : Type} {worker : Worker Environment} {s s' : TaskHub} {id : String}

def owed (worker : Worker Environment) (s : TaskHub) (id : String) : Multiset ClientCall :=
  (s.worker.account worker : Multiset ClientCall).filter fun c => c.instanceId = id

theorem owed_work {w : Worker.State} (h : worker.Step s.worker w) :
    owed worker { s with worker := w } id = owed worker s id := by
  rw [owed, Multiset.coe_eq_coe.mpr h.account]
  rfl

theorem owed_stream {item : StreamItem}
    (hw : s'.worker = { s.worker with stream := s.worker.stream ++ [item] }) :
    owed worker s' id = owed worker s id +
      (worker.calls item : Multiset ClientCall).filter fun c => c.instanceId = id := by
  rw [owed, owed, ← Multiset.filter_add, Multiset.coe_add, hw]
  simp [Worker.State.account]

theorem owed_stream_self {item : StreamItem}
    (hw : s'.worker = { s.worker with stream := s.worker.stream ++ [item] })
    (hitem : ∀ c ∈ worker.calls item, c.instanceId = id) :
    owed worker s' id = owed worker s id + (worker.calls item : Multiset ClientCall) := by
  rw [owed_stream hw, Multiset.filter_eq_self.mpr hitem]

theorem owed_stream_ne {item : StreamItem}
    (hw : s'.worker = { s.worker with stream := s.worker.stream ++ [item] })
    (hitem : ∀ c ∈ worker.calls item, c.instanceId = id) {id' : String} (hne : id' ≠ id) :
    owed worker s' id' = owed worker s id' := by
  have hnone : (worker.calls item : Multiset ClientCall).filter
      (fun c => c.instanceId = id') = 0 :=
    Multiset.filter_eq_nil.mpr fun c hc he => hne (he.symm.trans (hitem c hc))
  rw [owed_stream hw, hnone, add_zero]

theorem owed_sent {before after : List ClientCall} {c : ClientCall}
    (hsent : s.worker.sent = before ++ c :: after)
    (hw : s'.worker = { s.worker with sent := before ++ after }) :
    owed worker s id = owed worker s' id + ({c} : Multiset ClientCall).filter
      fun c => c.instanceId = id := by
  rw [owed, owed, ← Multiset.filter_add, hw]
  congr 1
  rw [Worker.State.account, Worker.State.account, hsent, ← Multiset.coe_singleton,
    Multiset.coe_add, Multiset.coe_eq_coe]
  have hlast := (List.perm_append_singleton c
    (before ++ after ++ (s.worker.tasks ++ s.worker.stream).flatMap worker.calls)).symm
  simp only [List.append_assoc, List.cons_append] at hlast ⊢
  exact List.perm_middle.trans hlast

theorem owed_sent_self {before after : List ClientCall} {c : ClientCall}
    (hsent : s.worker.sent = before ++ c :: after)
    (hw : s'.worker = { s.worker with sent := before ++ after }) (hc : c.instanceId = id) :
    owed worker s id = owed worker s' id + {c} := by
  rw [owed_sent hsent hw, Multiset.filter_singleton, if_pos hc]

theorem owed_sent_ne {before after : List ClientCall} {c : ClientCall}
    (hsent : s.worker.sent = before ++ c :: after)
    (hw : s'.worker = { s.worker with sent := before ++ after }) {id' : String}
    (hne : id' ≠ c.instanceId) : owed worker s' id' = owed worker s id' := by
  rw [owed_sent hsent hw, Multiset.filter_singleton, if_neg hne.symm]
  exact (add_zero _).symm

theorem calls_orchestrator {request : OrchestratorRequest} {c : ClientCall}
    (h : c ∈ worker.calls (.ok ⟨some (.orchestratorRequest request)⟩)) :
    ∃ actions, worker.executeOrchestrator request = .ok ⟨request.instanceId, actions, none⟩ ∧
      c = .completeOrchestratorTask ⟨request.instanceId, actions, none⟩ := by
  simp only [Worker.calls, Worker.executeOrchestrator] at h ⊢
  split at h
  · rename_i response hr
    rw [List.mem_singleton] at h
    subst h
    revert hr
    split <;> intro hr <;> cases hr
    exact ⟨_, rfl, rfl⟩
  · cases h

theorem calls_activity {name : String} {input : Option String} {taskId : Int} {c : ClientCall}
    (h : c ∈ worker.calls (.ok ⟨some (.activityRequest ⟨name, input, some ⟨id⟩, taskId⟩)⟩)) :
    ∃ result, worker.executeActivity ⟨name, input, some ⟨id⟩, taskId⟩ =
        .ok ⟨id, taskId, result, none⟩ ∧
      c = .completeActivityTask ⟨id, taskId, result, none⟩ := by
  simp only [Worker.calls, Worker.executeActivity] at h ⊢
  split at h
  · rename_i response hr
    rw [List.mem_singleton] at h
    subst h
    revert hr
    split <;> intro hr <;> cases hr
    exact ⟨_, rfl, rfl⟩
  · cases h

theorem calls_orchestrator_id {pastEvents newEvents : List HistoryEvent} :
    ∀ c ∈ worker.calls (.ok ⟨some (.orchestratorRequest ⟨id, pastEvents, newEvents⟩)⟩),
      c.instanceId = id := by
  intro c hc
  obtain ⟨actions, -, rfl⟩ := calls_orchestrator hc
  rfl

theorem calls_activity_id {name : String} {input : Option String} {taskId : Int} :
    ∀ c ∈ worker.calls (.ok ⟨some (.activityRequest ⟨name, input, some ⟨id⟩, taskId⟩)⟩),
      c.instanceId = id := by
  intro c hc
  obtain ⟨result, -, rfl⟩ := calls_activity hc
  rfl

theorem steps_turn {item : StreamItem} {instances : String → Instance}
    (h : Steps worker s ⟨instances, ⟨[item], [], []⟩⟩) :
    Steps worker s ⟨instances, ⟨[], [], worker.calls item⟩⟩ :=
  (h.tail (.work (.spawn item [] [] []))).tail (.work (.finish item [] [] [] []))

/-- An instance can be given its news, and the episode is recorded. -/
theorem steps_episode {instances : String → Instance} {i : Instance} (id : String)
    (actions : List OrchestratorAction) (confirmations : List HistoryEvent)
    (h : Steps worker s ⟨instances, ⟨[], [], []⟩⟩) (hi : instances id = i)
    (hstarted : i.started ≠ none) (hnews : i.news = none)
    (hexec : worker.executeOrchestrator ⟨id, i.history, i.inbox⟩ = .ok ⟨id, actions, none⟩)
    (hconf : List.Forall₂ Confirms (actions.filter fun a => !a.isComplete) confirmations) :
    Steps worker s ⟨Function.update instances id { i with
      history := i.history ++ i.inbox ++ confirmations
      inbox := []
      news := none
      episodes := i.episodes ++
        [⟨worker.env ⟨id, i.history, i.inbox⟩, i.inbox, actions, confirmations⟩] },
      ⟨[], [], []⟩⟩ := by
  subst hi
  have hgiven := h.tail (.dispatch (s := ⟨instances, ⟨[], [], []⟩⟩) hstarted hnews
    (.of_eq (List.append_nil _).symm))
  have hcalls : worker.calls (.ok ⟨some (.orchestratorRequest ⟨id, (instances id).history,
      (instances id).inbox⟩)⟩) = [.completeOrchestratorTask ⟨id, actions, none⟩] := by
    simp only [Worker.calls, hexec]
  have hdone := steps_turn hgiven
  rw [hcalls] at hdone
  have hsent : [ClientCall.completeOrchestratorTask ⟨id, actions, none⟩] =
    [] ++ .completeOrchestratorTask ⟨id, actions, none⟩ :: [] := rfl
  have hrecorded := hdone.tail (.orchestratorCompleted hsent
    (congrArg Instance.news (instances_set_self _ id _)) (.refl _) hconf)
  simpa [set] using hrecorded

/-- An activity can be handed out, and its result arrives. -/
theorem steps_activity {instances : String → Instance} (id : String) (taskId : Int)
    {name payload : String} {input : Option String} {e : HistoryEvent}
    (h : Steps worker s ⟨instances, ⟨[], [], []⟩⟩)
    (ha : newScheduleTaskAction taskId name input ∈ (instances id).tasks)
    (hexec : worker.executeActivity ⟨name, input, some ⟨id⟩, taskId⟩ =
      .ok ⟨id, taskId, some payload, none⟩)
    (he : e.eventType = some (.taskCompleted ⟨taskId, some payload⟩)) :
    Steps worker s ⟨Function.update instances id
      { instances id with inbox := (instances id).inbox ++ [e] }, ⟨[], [], []⟩⟩ := by
  have hgiven := h.tail (.schedule (s := ⟨instances, ⟨[], [], []⟩⟩) ha)
  have hcalls : worker.calls (.ok ⟨some (.activityRequest ⟨name, input, some ⟨id⟩, taskId⟩)⟩) =
      [.completeActivityTask ⟨id, taskId, some payload, none⟩] := by
    simp only [Worker.calls, hexec]
  have hdone := steps_turn hgiven
  rw [hcalls] at hdone
  have hsent : [ClientCall.completeActivityTask ⟨id, taskId, some payload, none⟩] =
    [] ++ .completeActivityTask ⟨id, taskId, some payload, none⟩ :: [] := rfl
  have harrived := hdone.tail (.activityCompleted hsent he)
  exact harrived

end TaskHub

end DurableTask
