import DurableTask.Executor.Step
import Mathlib.Data.List.Induction

/-! # Replaying a history

What the executor makes of an event depends on little of it. The kinds below
keep just that, so that each proof about a step has one case for each way the
executor can act. The replay flag is never read: a run of `execute` is one pass
over the whole history, wherever it is cut into old and new events.
-/

namespace DurableTask

open OrchestrationExecutorContext

/-- What the executor makes of an event. -/
inductive EventKind where
  | skip
  | tick (timestamp : Option Timestamp)
  | start (event : ExecutionStartedEvent)
  | complete
  | terminate
  | acknowledge (id : Int)
  /-- A completion event: the task it names, its payload, and whether its arm polls. -/
  | resolve (id : Int) (payload : Option String) (message : String) (polls : Bool)
  | raise (event : EventRaisedEvent)
  deriving DecidableEq, Repr

def EventKind.isStart : EventKind → Bool
  | .start _ => true
  | _ => false

namespace HistoryEvent

def kind (e : HistoryEvent) : EventKind :=
  match e.eventType with
  | some .orchestratorStarted => .tick e.timestamp
  | some (.executionStarted s) => .start s
  | some .executionCompleted => .complete
  | some (.executionTerminated _) => .terminate
  | some (.taskScheduled _) => .acknowledge e.eventId
  | some (.subOrchestrationInstanceCreated _) => .acknowledge e.eventId
  | some (.timerCreated _) => .acknowledge e.eventId
  | some (.taskCompleted c) =>
    .resolve c.taskScheduledId c.result "failed to unblock activity" true
  | some (.taskFailed c) =>
    .resolve c.taskScheduledId (c.failureDetails.map TaskFailureDetails.errorMessage)
      "failed to unblock activity" false
  | some (.subOrchestrationInstanceCompleted c) =>
    .resolve c.taskScheduledId c.result "failed to unblock sub orchestrator" true
  | some (.subOrchestrationInstanceFailed c) =>
    .resolve c.taskScheduledId (c.failureDetails.map TaskFailureDetails.errorMessage)
      "failed to unblock activity" true
  | some (.timerFired c) =>
    .resolve c.timerId (c.fireAt.map fun _ => "") "failed to unblock timer" true
  | some (.eventRaised r) => .raise r
  | _ => .skip

def isStart (e : HistoryEvent) : Bool := e.kind.isStart

theorem isStart_iff {e : HistoryEvent} : e.isStart = true ↔ ∃ s, e.kind = .start s := by
  unfold isStart EventKind.isStart
  cases e.kind <;> simp

end HistoryEvent

namespace OrchestrationExecutorFuture

variable (self : OrchestrationExecutorFuture)

def processKind (ctx : OrchestrationExecutorContext) :
    EventKind → Except Panic OrchestrationExecutorContext
  | .skip => .ok ctx
  | .tick timestamp => .ok { ctx with currentTimeUtc := timestamp.getD ctx.currentTimeUtc }
  | .start event => self.start ctx event
  | .complete => self.executionCompleted ctx
  | .terminate => .ok ctx.executionTerminated
  | .acknowledge id => .ok (ctx.acknowledge id)
  | .resolve id payload message true => self.resolveAndPoll ctx id payload message
  | .resolve id payload message false => ctx.resolveTask id payload message
  | .raise event => self.eventRaised ctx event

theorem processEvent_eq (ctx : OrchestrationExecutorContext) (e : HistoryEvent) :
    self.processEvent ctx e = self.processKind ctx e.kind := by
  obtain ⟨eventId, timestamp, eventType⟩ := e
  rcases eventType with _ | eventType
  · rfl
  · cases eventType <;> rfl

variable {self} {ctx ctx' : OrchestrationExecutorContext} {events more : List HistoryEvent}

theorem processEvent_acknowledge {e : HistoryEvent} {id : Int} (hk : e.kind = .acknowledge id) :
    self.processEvent ctx e = .ok (ctx.acknowledge id) := by
  rw [processEvent_eq, hk]
  rfl

theorem processEvents_append :
    self.processEvents ctx (events ++ more) =
      (self.processEvents ctx events).bind fun ctx' => self.processEvents ctx' more := by
  induction events generalizing ctx with
  | nil => rfl
  | cons e events ih =>
    simp only [List.cons_append, processEvents]
    cases self.processEvent ctx e with
    | error p => rfl
    | ok ctx' => exact ih

theorem processEvents_append_ok (h : self.processEvents ctx events = .ok ctx') :
    self.processEvents ctx (events ++ more) = self.processEvents ctx' more := by
  rw [processEvents_append, h]
  rfl

theorem processEvents_cons_ok {e : HistoryEvent} {ctx₁ : OrchestrationExecutorContext}
    (h : self.processEvent ctx e = .ok ctx₁) :
    self.processEvents ctx (e :: events) = self.processEvents ctx₁.drain events := by
  simp only [processEvents, h]

theorem processEvents_split (h : self.processEvents ctx (events ++ more) = .ok ctx') :
    ∃ ctx₁, self.processEvents ctx events = .ok ctx₁ ∧ self.processEvents ctx₁ more = .ok ctx' := by
  rw [processEvents_append] at h
  cases he : self.processEvents ctx events with
  | error p => rw [he] at h; cases h
  | ok ctx₁ => exact ⟨ctx₁, rfl, by rwa [he] at h⟩

theorem processEvents_cons_split {e : HistoryEvent}
    (h : self.processEvents ctx (e :: events) = .ok ctx') :
    ∃ ctx₁, self.processEvent ctx e = .ok ctx₁ ∧
      self.processEvents ctx₁.drain events = .ok ctx' := by
  simp only [processEvents] at h
  cases he : self.processEvent ctx e with
  | error p => rw [he] at h; cases h
  | ok ctx₁ => exact ⟨ctx₁, rfl, by rwa [he] at h⟩

/-- What holds at the start and is preserved by every event holds after every run. -/
theorem processEvents_induct {P : List HistoryEvent → OrchestrationExecutorContext → Prop}
    (nil : P [] ctx)
    (step : ∀ past e ctx₁ ctx₂, self.processEvents ctx past = .ok ctx₁ → P past ctx₁ →
      self.processEvent ctx₁ e = .ok ctx₂ → P (past ++ [e]) ctx₂.drain)
    (h : self.processEvents ctx events = .ok ctx') : P events ctx' := by
  induction events using List.reverseRecOn generalizing ctx' with
  | nil => cases h; exact nil
  | append_singleton events e ih =>
    obtain ⟨ctx₁, h₁, h₂⟩ := processEvents_split h
    obtain ⟨ctx₂, he, hd⟩ := processEvents_cons_split h₂
    cases hd
    exact step events e ctx₁ ctx₂ h₁ (ih h₁) he

/-- Every event of a run finds a state in which it meets a condition. -/
def Throughout (self : OrchestrationExecutorFuture)
    (P : OrchestrationExecutorContext → HistoryEvent → Prop) :
    OrchestrationExecutorContext → List HistoryEvent → Prop
  | _, [] => True
  | ctx, e :: events => P ctx e ∧
    match self.processEvent ctx e with
    | .error _ => True
    | .ok ctx' => Throughout self P ctx'.drain events

instance decidableThroughout (P : OrchestrationExecutorContext → HistoryEvent → Prop)
    [∀ ctx e, Decidable (P ctx e)] :
    (ctx : OrchestrationExecutorContext) → (events : List HistoryEvent) →
      Decidable (self.Throughout P ctx events)
  | _, [] => inferInstanceAs (Decidable True)
  | ctx, e :: events =>
    match h : self.processEvent ctx e with
    | .error _ => decidable_of_iff (P ctx e) (by simp [Throughout, h])
    | .ok ctx' =>
      have := decidableThroughout P ctx'.drain events
      decidable_of_iff (P ctx e ∧ self.Throughout P ctx'.drain events) (by simp [Throughout, h])

theorem Throughout.intro {P : OrchestrationExecutorContext → HistoryEvent → Prop}
    (h : ∀ past e later ctx₁, events = past ++ e :: later →
      self.processEvents ctx past = .ok ctx₁ → P ctx₁ e) : self.Throughout P ctx events := by
  induction events generalizing ctx with
  | nil => trivial
  | cons e events ih =>
    refine ⟨h [] e events ctx rfl rfl, ?_⟩
    cases he : self.processEvent ctx e with
    | error p => trivial
    | ok ctx₁ =>
      refine ih fun past e' later ctx₂ hs hp => h (e :: past) e' later ctx₂ (by rw [hs]; rfl) ?_
      rw [processEvents_cons_ok he, hp]

/-- The condition holds at every place of the run. -/
theorem throughout_iff {P : OrchestrationExecutorContext → HistoryEvent → Prop} :
    self.Throughout P ctx events ↔ ∀ past e later ctx₁, events = past ++ e :: later →
      self.processEvents ctx past = .ok ctx₁ → P ctx₁ e := by
  constructor
  · induction events generalizing ctx with
    | nil =>
      intro _ past e later ctx₁ hs
      cases past <;> cases hs
    | cons e events ih =>
      rintro ⟨he, hrest⟩ past e' later ctx₁ hs hp
      cases past with
      | nil =>
        cases hs
        cases hp
        exact he
      | cons _ past =>
        cases hs
        obtain ⟨ctx₂, he₂, hp⟩ := processEvents_cons_split hp
        rw [he₂] at hrest
        exact ih hrest past e' later ctx₁ rfl hp
  · exact Throughout.intro

theorem processEvents_error_split {p : Panic} (h : self.processEvents ctx events = .error p) :
    ∃ past e later ctx₁, events = past ++ e :: later ∧ self.processEvents ctx past = .ok ctx₁ ∧
      self.processEvent ctx₁ e = .error p := by
  induction events generalizing ctx with
  | nil => cases h
  | cons e events ih =>
    cases he : self.processEvent ctx e with
    | error p' =>
      simp only [processEvents, he] at h
      cases h
      exact ⟨[], e, events, ctx, rfl, rfl, he⟩
    | ok ctx₁ =>
      rw [processEvents_cons_ok he] at h
      obtain ⟨past, e', later, ctx₂, rfl, hp, he'⟩ := ih h
      exact ⟨e :: past, e', later, ctx₂, rfl, (processEvents_cons_ok he).trans hp, he'⟩

/-- What events that meet a condition preserve holds after a run of such events. -/
theorem Throughout.preserves {P : OrchestrationExecutorContext → HistoryEvent → Prop}
    {I : OrchestrationExecutorContext → Prop}
    (step : ∀ ctx e ctx', I ctx → P ctx e → self.processEvent ctx e = .ok ctx' → I ctx'.drain)
    (hP : self.Throughout P ctx events) (hI : I ctx)
    (h : self.processEvents ctx events = .ok ctx') : I ctx' := by
  induction events generalizing ctx with
  | nil => cases h; exact hI
  | cons e events ih =>
    obtain ⟨ctx₁, he, h⟩ := processEvents_cons_split h
    obtain ⟨hPe, hP⟩ := hP
    rw [he] at hP
    exact ih hP (step ctx e ctx₁ hI hPe he) h

theorem Throughout.mono {P Q : OrchestrationExecutorContext → HistoryEvent → Prop}
    (hPQ : ∀ ctx e, P ctx e → Q ctx e) (hP : self.Throughout P ctx events) :
    self.Throughout Q ctx events :=
  throughout_iff.mpr fun past e later ctx₁ hs hp =>
    hPQ ctx₁ e (throughout_iff.mp hP past e later ctx₁ hs hp)

/-- A run of events that neither panic nor lose the invariant ends in it. -/
theorem Throughout.total {P : OrchestrationExecutorContext → HistoryEvent → Prop}
    {I : OrchestrationExecutorContext → Prop}
    (step : ∀ ctx e, I ctx → P ctx e → ∃ ctx', self.processEvent ctx e = .ok ctx' ∧ I ctx'.drain)
    (hP : self.Throughout P ctx events) (hI : I ctx) :
    ∃ ctx', self.processEvents ctx events = .ok ctx' ∧ I ctx' := by
  induction events generalizing ctx with
  | nil => exact ⟨ctx, rfl, hI⟩
  | cons e events ih =>
    obtain ⟨hPe, hP⟩ := hP
    obtain ⟨ctx₁, he, hI₁⟩ := step ctx e hI hPe
    rw [he] at hP
    rw [processEvents_cons_ok he]
    exact ih hP hI₁

theorem Throughout.left {P : OrchestrationExecutorContext → HistoryEvent → Prop}
    (hP : self.Throughout P ctx (events ++ more)) : self.Throughout P ctx events := by
  induction events generalizing ctx with
  | nil => trivial
  | cons e events ih =>
    refine ⟨hP.1, ?_⟩
    have hP' := hP.2
    cases he : self.processEvent ctx e with
    | error p => trivial
    | ok ctx₁ =>
      rw [he] at hP'
      exact ih hP'

theorem Throughout.snoc {P : OrchestrationExecutorContext → HistoryEvent → Prop} {e : HistoryEvent}
    (hP : self.Throughout P ctx events) (h : self.processEvents ctx events = .ok ctx')
    (he : P ctx' e) : self.Throughout P ctx (events ++ [e]) := by
  induction events generalizing ctx with
  | nil =>
    cases h
    refine ⟨he, ?_⟩
    cases self.processEvent ctx' e <;> trivial
  | cons e' events ih =>
    obtain ⟨ctx₁, he', h⟩ := processEvents_cons_split h
    obtain ⟨hPe, hP⟩ := hP
    rw [he'] at hP
    refine ⟨hPe, ?_⟩
    rw [he']
    exact ih hP h

theorem Throughout.right {P : OrchestrationExecutorContext → HistoryEvent → Prop}
    (hP : self.Throughout P ctx (events ++ more)) (h : self.processEvents ctx events = .ok ctx') :
    self.Throughout P ctx' more := by
  induction events generalizing ctx with
  | nil => cases h; exact hP
  | cons e events ih =>
    obtain ⟨ctx₁, he, h⟩ := processEvents_cons_split h
    have hP' := hP.2
    rw [he] at hP'
    exact ih hP' h

end OrchestrationExecutorFuture

namespace OrchestrationExecutorContext

def replaying (b : Bool) (ctx : OrchestrationExecutorContext) : OrchestrationExecutorContext :=
  { ctx with isReplaying := b }

variable {b : Bool} {ctx : OrchestrationExecutorContext}

theorem resolveTask_replaying (id : Int) (payload : Option String) (message : String) :
    (ctx.replaying b).resolveTask id payload message =
      (ctx.resolveTask id payload message).map (replaying b) := by
  simp only [resolveTask, replaying]
  cases ctx.pendingTasks.lookup id with
  | none => rfl
  | some t =>
    cases payload with
    | none => rfl
    | some v =>
      dsimp only
      cases ctx.world.send t (some v) <;> rfl

theorem foldl_replaying {α : Type}
    {f : OrchestrationExecutorContext → α → OrchestrationExecutorContext}
    (hf : ∀ ctx a, f (replaying b ctx) a = replaying b (f ctx a)) (l : List α)
    (ctx : OrchestrationExecutorContext) :
    l.foldl f (ctx.replaying b) = (l.foldl f ctx).replaying b := by
  induction l generalizing ctx with
  | nil => rfl
  | cons a l ih => rw [List.foldl_cons, List.foldl_cons, hf, ih]

theorem takeAction_replaying (m : Int × OrchestratorAction) :
    (ctx.replaying b).takeAction m = (ctx.takeAction m).replaying b := by
  dsimp only [takeAction, replaying, insertAction]
  split <;> rfl

theorem drainActions_replaying : (ctx.replaying b).drainActions = ctx.drainActions.replaying b :=
  foldl_replaying (fun _ m => takeAction_replaying m) ctx.world.octx.actionsTx
    { ctx with world.octx.actionsTx := [] }

theorem drainTasks_replaying : (ctx.replaying b).drainTasks = ctx.drainTasks.replaying b :=
  foldl_replaying (f := takeTask) (fun _ _ => rfl) ctx.world.octx.tasksTx
    { ctx with world.octx.tasksTx := [] }

theorem drainEvents_replaying : (ctx.replaying b).drainEvents = ctx.drainEvents.replaying b :=
  foldl_replaying (f := takeWaiter) (fun _ _ => rfl) ctx.world.octx.eventsTx
    { ctx with world.octx.eventsTx := [] }

theorem drain_replaying : (ctx.replaying b).drain = ctx.drain.replaying b := by
  unfold drain
  by_cases h : ctx.orchestratorFn.isSome
  · rw [if_pos h, if_pos (by exact h), drainActions_replaying, drainTasks_replaying,
      drainEvents_replaying]
  · rw [if_neg h, if_neg (by exact h)]

end OrchestrationExecutorContext

namespace OrchestrationExecutorFuture

variable {self : OrchestrationExecutorFuture} {ctx : OrchestrationExecutorContext} {b : Bool}
  {events : List HistoryEvent}

theorem poll_replaying (ctx : OrchestrationExecutorContext) :
    self.poll (ctx.replaying b) = (self.poll ctx).map (replaying b) := by
  obtain ⟨_, isComplete, _, _, _, _, _, orchestratorFn, _, _, w⟩ := ctx
  cases isComplete with
  | true => rfl
  | false =>
    cases orchestratorFn with
    | none => rfl
    | some fn =>
      simp only [poll, replaying, Bool.false_eq_true, ↓reduceIte]
      rcases fn.pollUnpin self.env w with _ | ⟨_ | _, fn', w'⟩ <;> rfl

theorem processKind_replaying (k : EventKind) :
    self.processKind (ctx.replaying b) k = (self.processKind ctx k).map (replaying b) := by
  obtain ⟨_, isComplete, _, _, _, _, pendingEvents, orchestratorFn, _, _, w⟩ := ctx
  cases k with
  | skip => rfl
  | tick timestamp => rfl
  | start event =>
    simp only [processKind, start, replaying]
    cases self.registry.getOrchestrator event.name with
    | none => rfl
    | some func =>
      dsimp only
      rcases BoxFuture.pollUnpin self.env _ _ with _ | ⟨_ | _, fn', w⟩ <;> rfl
  | complete =>
    cases orchestratorFn with
    | none => rfl
    | some fn =>
      simp only [processKind, executionCompleted, replaying]
      rcases fn.pollUnpin self.env w with _ | ⟨_ | _, fn', w⟩ <;> rfl
  | terminate => cases isComplete <;> rfl
  | acknowledge id => rfl
  | resolve id payload message polls =>
    cases polls with
    | false => exact resolveTask_replaying id payload message
    | true =>
      simp only [processKind, resolveAndPoll, resolveTask_replaying]
      cases resolveTask _ id payload message with
      | error p => rfl
      | ok ctx' => exact poll_replaying ctx'
  | raise event =>
    simp only [processKind, eventRaised, replaying]
    cases pendingEvents.lookup (self.env.toLowercase event.name) with
    | none => rfl
    | some waiters =>
      dsimp only
      cases waiters.head? with
      | none => rfl
      | some t =>
        dsimp only
        cases w.send t event.input with
        | none => rfl
        | some w' => exact poll_replaying ⟨_, _, _, _, _, _, _, _, _, _, w'⟩

theorem processEvents_replaying :
    self.processEvents (ctx.replaying b) events =
      (self.processEvents ctx events).map (replaying b) := by
  induction events generalizing ctx with
  | nil => rfl
  | cons e events ih =>
    simp only [processEvents, processEvent_eq, processKind_replaying]
    cases self.processKind ctx e.kind with
    | error p => rfl
    | ok ctx' =>
      simp only [Except.map, drain_replaying]
      exact ih

abbrev replay (self : OrchestrationExecutorFuture) (history : List HistoryEvent) :
    Except Panic OrchestrationExecutorContext :=
  self.processEvents (.new self.env.budget) history

theorem replay_append_ok {past : List HistoryEvent} {e : HistoryEvent}
    {ctx₁ : OrchestrationExecutorContext} (h : self.replay past = .ok ctx)
    (he : self.processEvent ctx e = .ok ctx₁) : self.replay (past ++ [e]) = .ok ctx₁.drain := by
  rw [replay, processEvents_append_ok h, processEvents_cons_ok he]
  rfl

theorem replay_snoc {past : List HistoryEvent} {e : HistoryEvent}
    {ctx₁ : OrchestrationExecutorContext} (h : self.replay past = .ok ctx)
    (h₁ : self.replay (past ++ [e]) = .ok ctx₁) :
    ∃ ctx₂, self.processEvent ctx e = .ok ctx₂ ∧ ctx₁ = ctx₂.drain := by
  rw [replay, processEvents_append_ok h] at h₁
  obtain ⟨ctx₂, he, h₂⟩ := processEvents_cons_split h₁
  cases h₂
  exact ⟨ctx₂, he, rfl⟩

theorem execute_eq (oldEvents newEvents : List HistoryEvent) :
    self.execute oldEvents newEvents =
      (self.replay (oldEvents ++ newEvents)).map (getActions self.env) := by
  have hnew (ctx : OrchestrationExecutorContext) :
      { ctx with isReplaying := true } = ctx.replaying true := rfl
  have hold (ctx : OrchestrationExecutorContext) :
      { ctx with isReplaying := false } = ctx.replaying false := rfl
  simp only [execute, hnew, hold, processEvents_replaying, replay, processEvents_append]
  cases self.processEvents (.new self.env.budget) oldEvents with
  | error p => rfl
  | ok ctx =>
    simp only [Except.map, Except.bind, processEvents_replaying]
    cases self.processEvents ctx newEvents <;> rfl

theorem execute_ok {oldEvents newEvents : List HistoryEvent} {actions : List OrchestratorAction}
    (h : self.execute oldEvents newEvents = .ok actions) :
    ∃ ctx, self.replay (oldEvents ++ newEvents) = .ok ctx ∧ actions = ctx.getActions self.env := by
  rw [execute_eq] at h
  cases hr : self.replay (oldEvents ++ newEvents) with
  | error p => rw [hr] at h; cases h
  | ok ctx => rw [hr] at h; exact ⟨ctx, rfl, by cases h; rfl⟩

end OrchestrationExecutorFuture

end DurableTask
