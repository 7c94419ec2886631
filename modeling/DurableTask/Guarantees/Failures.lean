import DurableTask.Guarantees.Completion

/-! # Failures and results of calls

The payload of a completion reaches the call as plain text. Whether it was a
result or the message of a failure is not kept, so the call decodes either.
-/

namespace DurableTask

open Interaction OrchestrationExecutorContext OrchestrationExecutorFuture Text

def HistoryEvent.outcome (e : HistoryEvent) : Option (Except String String) :=
  match e.eventType with
  | some (.taskCompleted c) => c.result.map .ok
  | some (.subOrchestrationInstanceCompleted c) => c.result.map .ok
  | some (.taskFailed c) => c.failureDetails.map fun d => .error d.errorMessage
  | some (.subOrchestrationInstanceFailed c) => c.failureDetails.map fun d => .error d.errorMessage
  | _ => none

theorem HistoryEvent.outcome_of_kind {e : HistoryEvent} {id : Int} {m message : String}
    {polls : Bool} (he : e.kind = .resolve id (some m) message polls) :
    e.outcome = some (.ok m) ∨ e.outcome = some (.error m) ∨ e.outcome = none ∧ m = "" := by
  obtain ⟨eventId, timestamp, eventType⟩ := e
  rcases eventType with _ | eventType
  · cases he
  · cases eventType with
    | taskCompleted c =>
      obtain ⟨-, hr, -⟩ := EventKind.resolve.inj he
      exact .inl (by simp [outcome, hr])
    | subOrchestrationInstanceCompleted c =>
      obtain ⟨-, hr, -⟩ := EventKind.resolve.inj he
      exact .inl (by simp [outcome, hr])
    | taskFailed c =>
      obtain ⟨-, hr, -⟩ := EventKind.resolve.inj he
      obtain ⟨d, hd, rfl⟩ := Option.map_eq_some_iff.mp hr
      exact .inr (.inl (by simp [outcome, hd]))
    | subOrchestrationInstanceFailed c =>
      obtain ⟨-, hr, -⟩ := EventKind.resolve.inj he
      obtain ⟨d, hd, rfl⟩ := Option.map_eq_some_iff.mp hr
      exact .inr (.inl (by simp [outcome, hd]))
    | timerFired c =>
      obtain ⟨-, hr, -⟩ := EventKind.resolve.inj he
      obtain ⟨d, hd, rfl⟩ := Option.map_eq_some_iff.mp hr
      exact .inr (.inr ⟨rfl, rfl⟩)
    | _ => cases he

/-- The two calls whose results are decoded, with the names they take. -/
inductive Call where
  | activity (typeName activityType : String)
  | subOrchestrator (typeName orchestratorType instanceId : String)

namespace Call

variable {A R : Type}

def future (encode : Encoder A) (decode : Decoder R) (input : A) :
    Call → TaskFuture (Except String R)
  | .activity typeName activityType => callActivity encode decode typeName activityType input
  | .subOrchestrator typeName orchestratorType instanceId =>
    callSubOrchestrator encode decode typeName orchestratorType instanceId input

def awaiting (encode : Encoder A) (decode : Decoder R) (input : A) (t : TaskRef) :
    (call : Call) → (call.future encode decode input).State
  | .activity _ _ => some t
  | .subOrchestrator _ _ _ => some t

/-- The call returns a result when it is polled in a world, its task being `t`. -/
def Returns (call : Call) (env : Env) (encode : Encoder A) (decode : Decoder R) (input : A)
    (t : TaskRef) (w : World) (r : Except String R) : Prop :=
  ∃ w', ((call.future encode decode input).poll (call.awaiting encode decode input t)).run
    (handle env) w = .ok (.ready r, w')

theorem returns_iff (call : Call) {env : Env} {encode : Encoder A} {decode : Decoder R} {input : A}
    {t : TaskRef} {w : World} {r : Except String R} :
    call.Returns env encode decode input t w r ↔
      ∃ w', (awaitTask decode t).run (handle env) w = .ok (.ready r, w') := by
  cases call <;> rfl

end Call

/-- A call is polled while its task is as the executor left it, the budget permitting. -/
structure PolledAs (w : World) (t : TaskRef) (c : Cell) : Prop where
  cell : ∃ c', w.cells[t]? = some c' ∧ c.Evolves c' ∧ c'.dropped = false ∧ c'.outcome = none
  budget : ¬w.budget.exhausted

variable {self : OrchestrationExecutorFuture} {ctx : OrchestrationExecutorContext}
  {history : List HistoryEvent} {e : HistoryEvent} {w : World} {t : TaskRef} {A R : Type}
  {encode : Encoder A} {decode : Decoder R} {input : A}

theorem awaitTask_of_ready {env : Env} {w' : World} {m : String} {r : Except String R}
    (hh : handle env (.poll t) w = .ok (.ready m, w')) :
    (∃ w'', (awaitTask decode t).run (handle env) w = .ok (.ready r, w'')) ↔
      ∃ v, decode m = .ok v ∧ r = .ok v := by
  rw [awaitTask, Prog.run_step_ok hh]
  dsimp only
  cases hdec : decode m with
  | ok v =>
    simp [decodeOutput, hdec, Prog.bind, eq_comm]
  | error err =>
    simp [decodeOutput, hdec, panicWith, Prog.bind, Prog.run, handle]

theorem PolledAs.handle_given (env : Env) {c : Cell} {m : String} (hp : PolledAs w t c)
    (hg : c.At (.given m)) : ∃ w', handle env (.poll t) w = .ok (.ready m, w') := by
  obtain ⟨⟨c', hc', he, hd, hn⟩, hb⟩ := hp
  have hg' : c'.At (.given m) := by
    rcases he.stage _ hg with h | ⟨v, -, h⟩
    · exact h
    · rw [h.2] at hn
      cases hn
  obtain ⟨c₁, b₁, hpoll, -⟩ := (Cell.poll_given (b := w.budget) hd hg').resolve_left
    fun h => hb h.2
  refine ⟨{ w with cells := w.cells.set t c₁, budget := b₁ }, ?_⟩
  simp only [handle, World.pollTask, hc', hpoll]
  rfl

theorem Call.returns_of_given {call : Call} {c : Cell} {m : String} {r : Except String R}
    {env : Env} (hg : c.At (.given m)) (hp : PolledAs w t c) :
    call.Returns env encode decode input t w r ↔ ∃ v, decode m = .ok v ∧ r = .ok v := by
  obtain ⟨w', hh⟩ := hp.handle_given env hg
  exact call.returns_iff.trans (awaitTask_of_ready hh)

/--
What a call should make of the event that resolved its task: a failure is an error, and only a
result that decodes is a success.
-/
structure Call.SeesOutcome (call : Call) (env : Env) (encode : Encoder A) (decode : Decoder R)
    (input : A) (t : TaskRef) (c : Cell) (e : HistoryEvent) : Prop where
  failed : ∀ m, e.outcome = some (.error m) → ∀ w, PolledAs w t c →
    ∃ msg, call.Returns env encode decode input t w (.error msg)
  succeeded : ∀ w v, PolledAs w t c → call.Returns env encode decode input t w (.ok v) →
    ∃ r, e.outcome = some (.ok r) ∧ decode r = .ok v

theorem exists_polledAs {c : Cell} (hc : w.cells[t]? = some c) (hd : c.dropped = false)
    (hn : c.outcome = none) : PolledAs { w with budget := none } t c where
  cell := ⟨c, hc, .refl c, hd, hn⟩
  budget := by simp [Budget.exhausted]

theorem Call.not_seesOutcome_of_failed {call : Call} {env : Env} {c : Cell} {m m' : String}
    (hg : c.At (.given m)) (hp : PolledAs w t c) (ho : e.outcome = some (.error m')) :
    ¬call.SeesOutcome env encode decode input t c e := by
  rintro ⟨hfailed, -⟩
  obtain ⟨msg, hr⟩ := hfailed m' ho w hp
  obtain ⟨v, -, hv⟩ := (Call.returns_of_given hg hp).mp hr
  cases hv

theorem OrchestrationExecutorFuture.Awaited.given {ctx₁ : OrchestrationExecutorContext} {id : Int}
    {c c₁ : Cell} {m message : String} (ha : Awaited ctx id t c)
    (h : self.replay history = .ok ctx) (hw : c.At .waiting)
    (h₁ : ctx.resolveTask id (some m) message = .ok ctx₁) (hc₁ : ctx₁.world.cells[t]? = some c₁) :
    c₁.At (.given m) ∧ c₁.dropped = false ∧ c₁.outcome = none := by
  obtain ⟨ctx₂, c₂, h₂, hc₂, hd, hn, hgiven, -⟩ :=
    ha.resolved (replay_regular h) (replay_fresh h) (some m) message
  rw [h₁] at h₂
  cases h₂
  rw [hc₁] at hc₂
  cases hc₂
  exact ⟨hgiven hw m rfl, hd, hn⟩

/--
A call sees the outcome of its task exactly if the event was not a failure. The one exception is
a timer event that names the call, whose empty payload must not decode.
-/
theorem call_seesOutcome_iff {ctx₁ : OrchestrationExecutorContext} {id : Int} {c c₁ : Cell}
    {m message : String} {polls : Bool} (call : Call) (encode : Encoder A) (decode : Decoder R)
    (input : A) (h : self.replay history = .ok ctx) (ha : Awaited ctx id t c) (hw : c.At .waiting)
    (he : e.kind = .resolve id (some m) message polls)
    (h₁ : ctx.resolveTask id (some m) message = .ok ctx₁) (hc₁ : ctx₁.world.cells[t]? = some c₁) :
    call.SeesOutcome self.env encode decode input t c₁ e ↔
      (∃ r, e.outcome = some (.ok r)) ∨ e.outcome = none ∧ ∃ err, decode m = .error err := by
  obtain ⟨hg, hd, hn⟩ := ha.given h hw h₁ hc₁
  have hpolled := exists_polledAs hc₁ hd hn
  constructor
  · intro hs
    rcases HistoryEvent.outcome_of_kind he with ho | ho | ⟨ho, -⟩
    · exact .inl ⟨m, ho⟩
    · exact (Call.not_seesOutcome_of_failed hg hpolled ho hs).elim
    · refine .inr ⟨ho, ?_⟩
      cases hdec : decode m with
      | error err => exact ⟨err, rfl⟩
      | ok v =>
        obtain ⟨r, hr, -⟩ := hs.succeeded _ v hpolled
          ((Call.returns_of_given hg hpolled).mpr ⟨v, hdec, rfl⟩)
        rw [ho] at hr
        cases hr
  · intro hcond
    constructor
    · intro m' ho
      rcases hcond with ⟨r, hr⟩ | ⟨hr, -⟩ <;> rw [hr] at ho <;> cases ho
    · intro w v hp hr
      obtain ⟨v', hdec, hv⟩ := (Call.returns_of_given hg hp).mp hr
      cases hv
      rcases hcond with ⟨r, hr⟩ | ⟨-, err, herr⟩
      · rcases HistoryEvent.outcome_of_kind he with ho | ho | ⟨ho, -⟩
        · exact ⟨m, ho, hdec⟩
        · rw [ho] at hr
          cases hr
        · rw [ho] at hr
          cases hr
      · rw [hdec] at herr
        cases herr

/-- `serde_json::from_str::<bool>`, but for white space. -/
def decodeBool : Decoder Bool
  | "true" => .ok true
  | "false" => .ok false
  | _ => .error "expected a boolean"

def askOrchestration : OrchestratorFunction :=
  .new (fun b => .ok (if b then "true" else "false")) fun _ _ =>
    ((Call.subOrchestrator "ask" "ask" "sub-test").future jsonString decodeBool "").map fun r =>
      r.map .output

/-- The sub-orchestrator of `askOrchestration` fails with a message. -/
def askFailed (m : String) : HistoryEvent :=
  historyEvent (.subOrchestrationInstanceFailed ⟨1, some ⟨"error", m⟩⟩)

theorem askOrchestration_awaits : ∃ (ctx : OrchestrationExecutorContext) (c : Cell),
    (executorOf askOrchestration).replay [executionStarted] = .ok ctx ∧ Awaited ctx 1 0 c ∧
      c.At .waiting :=
  exists_awaited (a := newCreateSubOrchestrationAction 1 "ask" "sub-test" (some "\"\"")) (t := 0)
    (show _ = Except.ok (true,
      [.new (.action (newCreateSubOrchestrationAction 1 "ask" "sub-test" (some "\"\"")))])
      by decide) rfl

/--
A failure whose message is `true` is seen as the result `true`, and the orchestration is reported
as completed; a failure with any other message but `false` is a panic.
-/
theorem failure_seen_as_result :
    (∃ (ctx ctx₁ : OrchestrationExecutorContext) (c : Cell),
      (executorOf askOrchestration).replay [executionStarted] = .ok ctx ∧
      ctx.resolveTask 1 (some "true") "failed to unblock activity" = .ok ctx₁ ∧
      ctx₁.world.cells[0]? = some c ∧
      ¬(Call.subOrchestrator "ask" "ask" "sub-test").SeesOutcome plainEnv .ok decodeBool "" 0 c
        (askFailed "true")) ∧
    (executorOf askOrchestration).execute [executionStarted] [askFailed "true"] =
      .ok [newCompleteOrchestrationAction 2 .completed (some "true") [] none,
        newCreateSubOrchestrationAction 1 "ask" "sub-test" (some "\"\"")] ∧
    (executorOf askOrchestration).execute [executionStarted] [askFailed "out of memory"] =
      .error (.program "output deserialization failed") := by
  refine ⟨?_, by decide, by decide⟩
  obtain ⟨ctx, c, h, ha, hw⟩ := askOrchestration_awaits
  obtain ⟨ctx₁, c₁, h₁, hc₁, hd, hn, hgiven, -⟩ :=
    ha.resolved (replay_regular h) (replay_fresh h) (some "true") "failed to unblock activity"
  exact ⟨ctx, ctx₁, c₁, h, h₁, hc₁, Call.not_seesOutcome_of_failed (hgiven hw _ rfl)
    (exists_polledAs hc₁ hd hn) rfl⟩

theorem call_seesOutcome_true : ∃ (ctx ctx₁ : OrchestrationExecutorContext) (c : Cell),
    (executorOf askOrchestration).replay [executionStarted] = .ok ctx ∧
    ctx₁.world.cells[0]? = some c ∧
    ((Call.subOrchestrator "ask" "ask" "sub-test").SeesOutcome plainEnv Except.ok decodeBool "" 0 c
      (historyEvent (.subOrchestrationInstanceCompleted ⟨1, some "true"⟩)) ↔
      (∃ r, (historyEvent (.subOrchestrationInstanceCompleted ⟨1, some "true"⟩)).outcome =
        some (.ok r)) ∨
      (historyEvent (.subOrchestrationInstanceCompleted ⟨1, some "true"⟩)).outcome = none ∧
        ∃ err, decodeBool "true" = .error err) := by
  obtain ⟨ctx, c, h, ha, hw⟩ := askOrchestration_awaits
  obtain ⟨ctx₁, c₁, h₁, hc₁, -⟩ := ha.resolved (replay_regular h) (replay_fresh h) (some "true")
    "failed to unblock sub orchestrator"
  exact ⟨ctx, ctx₁, c₁, h, hc₁, call_seesOutcome_iff _ _ decodeBool "" h ha hw
    (e := historyEvent (.subOrchestrationInstanceCompleted ⟨1, some "true"⟩)) rfl h₁ hc₁⟩

end DurableTask
