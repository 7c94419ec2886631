import DurableTask.Guarantees.Termination

/-! # Outcomes

An orchestration comes to an outcome when its program returns and when it is
terminated. Each outcome is entered under a fresh id, and the flag that would
keep a second one out is never set. Where nothing is entered once an outcome
has come, at most one is returned, and it is the first.
-/

namespace DurableTask

open OrchestrationExecutorContext

/-- An outcome has come: something was returned, or a termination was processed. -/
def OrchestrationExecutorContext.Decided (ctx : OrchestrationExecutorContext) : Prop :=
  ctx.world.returned ≠ [] ∨ ctx.completionStatus = .terminated

instance (ctx : OrchestrationExecutorContext) : Decidable ctx.Decided :=
  inferInstanceAs (Decidable (_ ∨ _))

namespace OrchestrationExecutorFuture

variable {self : OrchestrationExecutorFuture} {ctx ctx' : OrchestrationExecutorContext}
  {k : EventKind} {e : HistoryEvent} {outs : List OrchestratorAction}

def outcome (executor : OrchestrationExecutorFuture) (ctx : OrchestrationExecutorContext)
    (k : EventKind) : Option OrchestratorAction :=
  match k with
  | .terminate => some (terminatedAction (ctx.sequenceNumber + 1))
  | _ => (executor.returns ctx k).map (completionAction (ctx.sequenceNumber + 1))

def outcomes (executor : OrchestrationExecutorFuture) :
    OrchestrationExecutorContext → List HistoryEvent → List OrchestratorAction
  | _, [] => []
  | ctx, e :: events => (executor.outcome ctx e.kind).toList ++
    match executor.processEvent ctx e with
    | .error _ => []
    | .ok ctx' => outcomes executor ctx'.drain events

/--
Once an outcome has come, the event is no termination, and the program does not return from the
shared poll.
-/
def DecidesOnce (executor : OrchestrationExecutorFuture) (ctx : OrchestrationExecutorContext)
    (e : HistoryEvent) : Prop :=
  ctx.Decided → e.kind ≠ .terminate ∧
    ((executor.returns ctx e.kind).isSome → e.kind.isStart = true ∨ e.kind = .complete)

instance (executor : OrchestrationExecutorFuture) (ctx : OrchestrationExecutorContext)
    (e : HistoryEvent) : Decidable (executor.DecidesOnce ctx e) :=
  inferInstanceAs (Decidable (_ → _))

theorem outcomes_append (events more : List HistoryEvent) (ctx : OrchestrationExecutorContext) :
    self.outcomes ctx (events ++ more) = self.outcomes ctx events ++
      match self.processEvents ctx events with
      | .error _ => []
      | .ok ctx' => self.outcomes ctx' more := by
  induction events generalizing ctx with
  | nil => rfl
  | cons e events ih =>
    rw [List.cons_append]
    simp only [outcomes, processEvents]
    cases he : self.processEvent ctx e with
    | error p => simp
    | ok ctx' => rw [List.append_assoc, ← ih]

theorem outcome_of_ownEntry {id : Int} {a : OrchestratorAction}
    (hm : (id, a) ∈ self.ownEntry ctx k) : self.outcome ctx k = some a := by
  have shared (hm : (id, a) ∈ (self.returns ctx k).toList.map fun r =>
      (completionAction (ctx.sequenceNumber + 1) r).entry) :
      (self.returns ctx k).map (completionAction (ctx.sequenceNumber + 1)) = some a := by
    obtain ⟨r, hr, he⟩ := List.mem_map.mp hm
    cases he
    rw [Option.mem_toList.mp hr, Option.map_some]
  cases k with
  | terminate =>
    cases List.mem_singleton.mp hm
    rfl
  | start e => cases hm
  | complete => cases hm
  | _ => exact shared hm

theorem ownEntry_of_decided (hk : self.DecidesOnce ctx e) (hd : ctx.Decided) :
    self.ownEntry ctx e.kind = [] := by
  obtain ⟨hterm, hret⟩ := hk hd
  unfold ownEntry
  generalize e.kind = k at hterm hret
  cases k with
  | terminate => exact absurd rfl hterm
  | start s => rfl
  | complete => rfl
  | _ =>
    cases hr : self.returns ctx _ with
    | none => rfl
    | some r => simp [hr, EventKind.isStart] at hret

/-- The outcomes so far are on record, and the completion that is pending is the first of them. -/
structure FirstOnly (ctx : OrchestrationExecutorContext) (outs : List OrchestratorAction) :
    Prop where
  decided : outs ≠ [] → ctx.Decided
  undecided : outs = [] → ¬ctx.Decided
  pending : ∀ id a, ctx.pendingActions.lookup id = some a → a.isComplete = true →
    outs.head? = some a

theorem FirstOnly.step (h : FirstOnly ctx outs) (hd : ctx.Drained) (hc : ctx.isComplete = false)
    (hk : self.DecidesOnce ctx e) (he : self.processEvent ctx e = .ok ctx') :
    FirstOnly ctx'.drain (outs ++ (self.outcome ctx e.kind).toList) := by
  obtain ⟨n, l, lost, hb⟩ := processEvent_entries hd hc he
  have hdecided : ctx'.drain.Decided ↔ ctx.Decided ∨ (self.outcome ctx e.kind).isSome := by
    unfold Decided outcome
    rw [hb.returned, hb.completionStatus]
    cases e.kind with
    | terminate => simp
    | _ =>
      cases self.returns ctx _ <;> simp
  constructor
  · intro hne
    rw [hdecided]
    cases ho : self.outcome ctx e.kind with
    | some a => exact .inr rfl
    | none =>
      rw [ho, Option.toList_none, List.append_nil] at hne
      exact .inl (h.decided hne)
  · intro hnil
    obtain ⟨houts, ho⟩ := List.append_eq_nil_iff.mp hnil
    rw [hdecided, Option.toList_eq_nil_iff.mp ho]
    rintro (hdec | hsome)
    · exact h.undecided houts hdec
    · cases hsome
  · intro id a hl ha
    rcases hb.entered hl with hm | ⟨hm, -⟩ | hl
    · -- the executor enters an outcome, so none has come before
      have hnil : outs = [] := by
        by_contra hne
        rw [ownEntry_of_decided hk (h.decided hne)] at hm
        cases hm
      rw [hnil, outcome_of_ownEntry hm]
      rfl
    · rw [hb.incomplete a hm] at ha
      cases ha
    · rw [List.head?_append, h.pending id a hl ha, Option.some_or]

theorem replay_firstOnly {history : List HistoryEvent} (h : self.replay history = .ok ctx)
    (hk : self.Throughout self.DecidesOnce (.new self.env.budget) history) :
    FirstOnly ctx (self.outcomes (.new self.env.budget) history) := by
  revert hk
  refine processEvents_induct (P := fun history ctx =>
    self.Throughout self.DecidesOnce (.new self.env.budget) history →
      FirstOnly ctx (self.outcomes (.new self.env.budget) history)) ?_ ?_ h
  · intro _
    refine ⟨fun hne => absurd rfl hne, fun _ => ?_, fun id a hl _ => (by cases hl)⟩
    rintro (hr | hs)
    · exact hr rfl
    · cases hs
  · intro past e ctx₁ ctx₂ hr ih he hk
    have hstep := (ih hk.left).step (replay_drained hr) (replay_isComplete hr) (hk.right hr).1 he
    rw [outcomes_append, hr]
    simpa [outcomes, he] using hstep

theorem length_le_one_of_some_eq {α : Type} {l : List α} {o : Option α} (hn : l.Nodup)
    (h : ∀ a ∈ l, o = some a) : l.length ≤ 1 := by
  rcases l with _ | ⟨a, _ | ⟨b, l⟩⟩
  · simp
  · simp
  · have hab : a = b := Option.some.inj ((h a (by simp)).symm.trans (h b (by simp)))
    simp [hab] at hn

/--
In a run in which nothing is entered once an outcome has come, `execute` returns at most one
`CompleteOrchestration`, and it is that of the first outcome.
-/
theorem execute_outcome {oldEvents newEvents : List HistoryEvent}
    {actions : List OrchestratorAction}
    (hk : self.Throughout self.DecidesOnce (.new self.env.budget) (oldEvents ++ newEvents))
    (h : self.execute oldEvents newEvents = .ok actions) :
    (actions.filter OrchestratorAction.isComplete).length ≤ 1 ∧
      ∀ a ∈ actions, a.isComplete = true →
        (self.outcomes (.new self.env.budget) (oldEvents ++ newEvents)).head? = some a := by
  obtain ⟨ctx, hr, rfl⟩ := execute_ok h
  have hfirst {a : OrchestratorAction} (ha : a ∈ ctx.getActions self.env)
      (hc : a.isComplete = true) :
      (self.outcomes (.new self.env.budget) (oldEvents ++ newEvents)).head? = some a := by
    obtain ⟨id, hl⟩ := mem_getActions.mp ha
    exact (replay_firstOnly hr hk).pending id a hl hc
  constructor
  · apply length_le_one_of_some_eq ((getActions_nodup self.env hr).filter _)
    intro a ha
    rw [List.mem_filter] at ha
    exact hfirst ha.1 ha.2
  · intro a ha hc
    exact hfirst ha hc

theorem outcome_entered_twice :
    (executorOf terminateTest).execute [executionStarted, timerCreated 1]
      [executionTerminatedEvent, executionTerminatedEvent] =
        .ok [terminatedAction 3, terminatedAction 2] ∧
    (executorOf terminateTest).execute [executionStarted, timerCreated 1]
      [executionTerminatedEvent, timerFired 1] =
        .ok [completionAction 3 (.ok (.output "null")), terminatedAction 2] :=
  ⟨by decide, by decide⟩

theorem terminateTest_outcome : ∃ actions, (executorOf terminateTest).execute
    [executionStarted, timerCreated 1] [executionTerminatedEvent, eventRaisedEvent "x" none] =
      .ok actions ∧ (actions.filter OrchestratorAction.isComplete).length ≤ 1 ∧
        ∀ a ∈ actions, a.isComplete = true → terminatedAction 2 = a := by
  have h : (executorOf terminateTest).execute [executionStarted, timerCreated 1]
      [executionTerminatedEvent, eventRaisedEvent "x" none] = .ok [terminatedAction 2] := by
    decide
  have ho := execute_outcome (by decide) h
  exact ⟨_, h, ho.1, fun a ha hc => Option.some.inj (ho.2 a ha hc)⟩

end OrchestrationExecutorFuture

end DurableTask
