import DurableTask.Executor.Ledger
import DurableTask.Guarantees.Absence

/-! # Acknowledgements

An acknowledgement names an action by its id, and the executor reads nothing
else of it. A history that was written by another program is absorbed: the
action under the id is removed whatever it is, and an unknown id is passed over.
-/

namespace DurableTask

open OrchestrationExecutorContext

namespace HistoryEvent

def isAcknowledgement (e : HistoryEvent) : Bool :=
  match e.eventType with
  | some (.taskScheduled _) => true
  | some (.timerCreated _) => true
  | some (.subOrchestrationInstanceCreated _) => true
  | _ => false

def records (e : HistoryEvent) (a : OrchestratorAction) : Bool :=
  match e.eventType, a.orchestratorActionType with
  | some (.taskScheduled event), some (.scheduleTask action) => event.name = action.name
  | some (.timerCreated _), some (.createTimer _) => true
  | some (.subOrchestrationInstanceCreated event), some (.createSubOrchestration action) =>
    event.name = action.name
  | _, _ => false

theorem kind_of_isAcknowledgement {e : HistoryEvent} (h : e.isAcknowledgement = true) :
    e.kind = .acknowledge e.eventId := by
  obtain ⟨id, timestamp, _ | type⟩ := e
  · cases h
  · cases type with
    | taskScheduled event => rfl
    | timerCreated event => rfl
    | subOrchestrationInstanceCreated event => rfl
    | _ => cases h

end HistoryEvent

namespace OrchestrationExecutorFuture

variable {self : OrchestrationExecutorFuture} {ctx ctx' : OrchestrationExecutorContext}
  {history history' : List HistoryEvent} {e : HistoryEvent}

/-- If the event is an acknowledgement, an action that it records is pending under its id. -/
def Fits (ctx : OrchestrationExecutorContext) (e : HistoryEvent) : Prop :=
  e.isAcknowledgement = true → ∃ a ∈ ctx.pendingActions.lookup e.eventId, e.records a = true

instance (ctx : OrchestrationExecutorContext) (e : HistoryEvent) : Decidable (Fits ctx e) :=
  inferInstanceAs (Decidable (_ → _))

/-- The run ends with a failure at an event: it panics, or reports that the orchestration failed. -/
def Rejects (executor : OrchestrationExecutorFuture) (ctx : OrchestrationExecutorContext)
    (e : HistoryEvent) : Prop :=
  ∀ ctx', executor.processEvent ctx e = .ok ctx' →
    ∃ id a, ctx'.drain.pendingActions.lookup id = some a ∧ a.isFailure = true ∧
      ctx.pendingActions.lookup id ≠ some a

/-- No acknowledgement of the history is absorbed that does not fit. -/
def Guarded (executor : OrchestrationExecutorFuture) (history : List HistoryEvent) : Prop :=
  ∀ past e later ctx, history = past ++ e :: later → executor.replay past = .ok ctx →
    e.isAcknowledgement = true →
      (∀ ctx' a, executor.processEvent ctx e = .ok ctx' →
        ctx.pendingActions.lookup e.eventId = some a →
        ctx'.drain.pendingActions.lookup e.eventId = none → e.records a = true) ∧
      (¬Fits ctx e → executor.Rejects ctx e)

theorem processEvent_acknowledgement (he : e.isAcknowledgement = true) :
    self.processEvent ctx e = .ok (ctx.acknowledge e.eventId) :=
  processEvent_acknowledge (HistoryEvent.kind_of_isAcknowledgement he)

theorem drain_acknowledge (h : self.replay history = .ok ctx) (id : Int) :
    (ctx.acknowledge id).drain = ctx.acknowledge id := by
  have hd : (ctx.acknowledge id).Drained := (replay_drained h).of_octx rfl
  exact drain_of_drained hd

theorem not_rejects (h : self.replay history = .ok ctx) (he : e.isAcknowledgement = true) :
    ¬self.Rejects ctx e := by
  intro hrej
  obtain ⟨id, a, hl, -, hne⟩ := hrej _ (processEvent_acknowledgement he)
  rw [drain_acknowledge h] at hl
  exact hne (AList.lookup_of_erase _ _ _ hl)

theorem Guarded.fits (hg : Guarded self history) :
    self.Throughout Fits (.new self.env.budget) history := by
  apply Throughout.intro
  intro past e later ctx hsplit hr he
  by_contra hfit
  exact not_rejects hr he ((hg past e later ctx hsplit hr he).2 fun h => hfit (h he))

/--
A history is guarded against exactly if there is nothing to guard: each of its acknowledgements
finds an action of its kind and name pending under its id.
-/
theorem guarded_iff (executor : OrchestrationExecutorFuture) (history : List HistoryEvent) :
    Guarded executor history ↔ executor.Throughout Fits (.new executor.env.budget) history := by
  constructor
  · exact Guarded.fits
  · intro hf past e later ctx hsplit hr he
    have hfit := throughout_iff.mp hf past e later ctx hsplit hr
    constructor
    · intro ctx' a _ hl _
      obtain ⟨b, hb, hrec⟩ := hfit he
      rw [hl] at hb
      cases hb
      exact hrec
    · intro hn
      exact absurd hfit hn

theorem mismatch_absorbed :
    ¬Guarded (executorOf sequenceOrchestration) [executionStarted, taskScheduled 1] ∧
      ¬Guarded (executorOf sequenceOrchestration) [executionStarted, timerCreated 7] := by
  constructor
  · intro hg
    exact absurd hg.fits (by decide)
  · intro hg
    exact absurd hg.fits (by decide)

end OrchestrationExecutorFuture

end DurableTask
