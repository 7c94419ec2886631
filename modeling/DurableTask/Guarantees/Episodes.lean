import DurableTask.Executor.Agreement
import DurableTask.Runtime.Orchestrators

/-! # Episodes

A history is cut into old and new events, and each episode opens and closes
with an event of its own. Neither the cut nor these events matter: they change
the time that the executor keeps and never reads, and a drain that follows
finds every channel empty.
-/

namespace DurableTask

open Interaction OrchestrationExecutorContext

def HistoryEvent.isBoundary (e : HistoryEvent) : Bool :=
  match e.eventType with
  | some .orchestratorStarted => true
  | some .orchestratorCompleted => true
  | _ => false

def withoutBoundaries (history : List HistoryEvent) : List HistoryEvent :=
  history.filter fun e => !e.isBoundary

/-- The same actions, the times of timers and the order aside. -/
def SameActions (actions actions' : List OrchestratorAction) : Prop :=
  (actions.map OrchestratorAction.timeless).Perm (actions'.map OrchestratorAction.timeless)

namespace OrchestrationExecutorFuture

variable {self : OrchestrationExecutorFuture} {env : Env} {ctx ctx' : OrchestrationExecutorContext}
  {e : HistoryEvent}

theorem processEvent_boundary (he : e.isBoundary = true) :
    ∃ currentTimeUtc, self.processEvent ctx e = .ok { ctx with currentTimeUtc } := by
  obtain ⟨eventId, timestamp, eventType⟩ := e
  rcases eventType with _ | eventType
  · cases he
  · cases eventType with
    | orchestratorStarted => exact ⟨_, rfl⟩
    | orchestratorCompleted => exact ⟨_, rfl⟩
    | _ => cases he

theorem processEvent_boundary_twin (h : Twin ctx ctx') (he : e.isBoundary = true) :
    ∃ ctx₁, self.processEvent ctx e = .ok ctx₁ ∧ Twin ctx₁.drain ctx' := by
  obtain ⟨time, hp⟩ := self.processEvent_boundary he
  have hd : { ctx with currentTimeUtc := time }.Drained := h.drained.of_octx rfl
  refine ⟨_, hp, ?_⟩
  rw [drain_of_drained hd]
  exact ⟨⟨h.isComplete, h.pendingTasks, h.pendingEvents, h.orchestratorFn, h.world⟩,
    h.sequenceNumber, h.pendingActions, hd, h.drained', h.incomplete⟩

theorem processEvents_boundaries (henv : self.env.Alike env) (h : Twin ctx ctx')
    (events : List HistoryEvent) : Agree Twin (self.processEvents ctx events)
      ((self.under env).processEvents ctx' (withoutBoundaries events)) := by
  induction events generalizing ctx ctx' with
  | nil => exact .ok h
  | cons e events ih =>
    cases hb : e.isBoundary with
    | true =>
      obtain ⟨ctx₁, hp, htwin⟩ := self.processEvent_boundary_twin h hb
      rw [processEvents_cons_ok hp, withoutBoundaries, List.filter_cons_of_neg (by simp [hb])]
      exact ih htwin
    | false =>
      have he := processEvent_twin henv h e
      rw [withoutBoundaries, List.filter_cons_of_pos (by simp [hb])]
      unfold processEvents
      generalize self.processEvent ctx e = x at he ⊢
      generalize (self.under env).processEvent ctx' e = y at he ⊢
      cases he with
      | error p => exact .error p
      | ok h₁ => exact ih h₁

/--
Two pairs of old and new events whose concatenations are the same up to the boundaries of episodes
have the same effect: `execute` panics alike on both, or returns the same actions. The two
executions may differ in their clocks and in the order of their hash maps.
-/
theorem execute_episodes {oldEvents newEvents oldEvents' newEvents' : List HistoryEvent}
    (henv : self.env.Alike env) (h : withoutBoundaries (oldEvents ++ newEvents) =
      withoutBoundaries (oldEvents' ++ newEvents')) :
    Agree SameActions (self.execute oldEvents newEvents)
      ((self.under env).execute oldEvents' newEvents') := by
  have hfirst := processEvents_boundaries henv (twin_new henv) (oldEvents ++ newEvents)
  have hsecond : Agree Twin ((self.under env).replay (oldEvents' ++ newEvents'))
      ((self.under env).replay (withoutBoundaries (oldEvents' ++ newEvents'))) :=
    processEvents_boundaries (Env.Alike.refl env) (twin_new (Env.Alike.refl env)) _
  rw [h] at hfirst
  rw [execute_eq, execute_eq]
  apply (hfirst.meet hsecond).map
  rintro c c' ⟨d, hc, hc'⟩
  exact (hc.getActions_perm self.env env).trans (hc'.getActions_perm env env).symm

theorem sequenceOrchestration_episodes : Agree SameActions
    ((executorOf sequenceOrchestration).execute [] [executionStarted])
    (((executorOf sequenceOrchestration).under { plainEnv with now := fun _ => 5 }).execute
      [historyEvent .orchestratorStarted, executionStarted]
      [historyEvent .orchestratorCompleted]) :=
  execute_episodes ⟨rfl, rfl⟩ (by decide)

end OrchestrationExecutorFuture

end DurableTask
