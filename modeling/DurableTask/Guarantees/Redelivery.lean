import DurableTask.Executor.Ledger
import DurableTask.Guarantees.Observation
import DurableTask.Invariants.Owned
import DurableTask.Invariants.Resting

/-! # Copies of a completion

A completion that has resolved a task takes the sender of that task with it,
and the program never uses the id again. A copy that arrives while the same
program is pending finds no sender, and all it does is to poll the program once
more.
-/

namespace DurableTask

open Interaction OrchestrationExecutorContext OrchestrationExecutorFuture

/-- The program has used the id, and no sender is left or on its way under it. -/
structure OrchestrationExecutorContext.SpentId (ctx : OrchestrationExecutorContext) (id : Int) :
    Prop where
  le : id ≤ ctx.world.octx.sequenceNumber
  lookup : ctx.pendingTasks.lookup id = none
  sent : ∀ m ∈ ctx.world.octx.tasksTx, m.1 ≠ id

/-- The id is spent for as long as the program whose tasks begin at `base` is pending. -/
structure OrchestrationExecutorContext.Spent (ctx : OrchestrationExecutorContext) (id : Int)
    (base : TaskRef) : Prop where
  base_lt : base < ctx.world.cells.length
  spent : ∀ f, ctx.orchestratorFn = some (.suspended base f) → ctx.SpentId id

variable {env : Env} {ctx ctx' : OrchestrationExecutorContext} {id : Int} {base : TaskRef}

theorem HistoryEvent.taskFailed_of_kind {e : HistoryEvent} {payload : Option String}
    {message : String} (h : e.kind = .resolve id payload message false) :
    ∃ f, e.eventType = some (.taskFailed f) := by
  obtain ⟨eventId, timestamp, eventType⟩ := e
  rcases eventType with _ | eventType
  · cases h
  · cases eventType <;> simp [HistoryEvent.kind] at h ⊢

theorem OrchestrationExecutorContext.SpentId.of_eq (h : ctx.SpentId id)
    (hseq : ctx'.world.octx.sequenceNumber = ctx.world.octx.sequenceNumber)
    (hlookup : ctx'.pendingTasks.lookup id = ctx.pendingTasks.lookup id)
    (hsent : ctx'.world.octx.tasksTx = ctx.world.octx.tasksTx) : ctx'.SpentId id where
  le := hseq ▸ h.le
  lookup := hlookup ▸ h.lookup
  sent := hsent ▸ h.sent

theorem OrchestrationExecutorContext.SpentId.step {w : World} (h : ctx.SpentId id)
    (hs : World.Step env ctx.world w) :
    ({ ctx with world := w } : OrchestrationExecutorContext).SpentId id := by
  cases hs with
  | issue reads mk _ _ =>
    refine ⟨Int.le_add_one h.le, h.lookup, fun m hm => ?_⟩
    simp only [World.issue_eq, List.mem_append, List.mem_singleton] at hm
    rcases hm with hm | rfl
    · exact h.sent m hm
    · have hle := h.le
      dsimp only
      omega
  | _ => exact h.of_eq rfl rfl rfl

theorem OrchestrationExecutorContext.SpentId.takeTask {m : Int × TaskRef}
    {rest : List (Int × TaskRef)} (h : ctx.SpentId id)
    (hm : ctx.world.octx.tasksTx = m :: rest) :
    ({ ctx with world.octx.tasksTx := rest }.takeTask m).SpentId id := by
  have hne : id ≠ m.1 := fun he => h.sent m (by simp [hm]) he.symm
  constructor
  · rw [takeTask_octx]
    exact h.le
  · rw [OrchestrationExecutorContext.takeTask, AList.lookup_insert_ne hne]
    exact h.lookup
  · rw [takeTask_octx]
    intro m' hm'
    exact h.sent m' (by simp [hm, show m' ∈ rest from hm'])

theorem Move.spent (hm : Move env ctx ctx') (h : ctx.Spent id base) : ctx'.Spent id base := by
  refine ⟨Nat.lt_of_lt_of_le h.base_lt hm.rests.length_le, ?_⟩
  intro f hf
  cases hm with
  | step _ _ w _ hs => exact (h.spent f hf).step hs
  | suspend _ f₀ f₁ hfn =>
    cases hf
    exact (h.spent f₀ hfn).of_eq rfl rfl rfl
  | finish _ _ r _ => cases hf
  | takeAction m rest _ =>
    rw [takeAction_eq] at hf ⊢
    exact (h.spent f hf).of_eq rfl rfl rfl
  | takeTask m rest hm => exact (h.spent f hf).takeTask hm
  | _ => exact (h.spent f hf).of_eq rfl rfl rfl

theorem Moves.spent (hm : Moves env ctx ctx') (h : ctx.Spent id base) : ctx'.Spent id base :=
  hm.preserves (fun _ _ hm h => hm.spent h) h

theorem Delivery.spent {k : EventKind} (hd : Delivery env ctx k ctx') (h : ctx.Spent id base) :
    ctx'.Spent id base := by
  refine ⟨by rw [hd.length]; exact h.base_lt, fun f hf => ?_⟩
  have hs := h.spent f (hd.orchestratorFn ▸ hf)
  have erased (id' : Int) : (ctx.pendingTasks.erase id').lookup id = none := by
    cases hl : (ctx.pendingTasks.erase id').lookup id with
    | none => rfl
    | some t =>
      have hl' := AList.lookup_of_erase _ id' id hl
      rw [hs.lookup] at hl'
      cases hl'
  refine ⟨by rw [hd.octx]; exact hs.le, ?_, by rw [hd.octx]; exact hs.sent⟩
  cases hd with
  | send id' v message polls t w hl hsend => exact erased id'
  | close id' message polls t hl => exact erased id'
  | _ => exact hs.lookup

namespace OrchestrationExecutorFuture

variable {self : OrchestrationExecutorFuture} {e : HistoryEvent} {history : List HistoryEvent}

theorem Turn.start_spent {s : ExecutionStartedEvent} (ht : self.Turn ctx (.start s) ctx')
    (h : ctx.Spent id base) : ctx'.Spent id base := by
  obtain rfl | ⟨func, w, -, hs, ⟨st, -, rfl⟩ | ⟨r, -, rfl⟩⟩ := ht.start_cases
  · exact h
  · constructor
    · rw [World.dropBefore_length]
      have hle := World.Steps.length_le hs
      exact Nat.lt_of_lt_of_le h.base_lt hle
    · intro f hf
      cases hf
      exact absurd h.base_lt (Nat.lt_irrefl _)
  · constructor
    · have hlen : (w.dropFrom ctx.world.cells.length).cells.length = w.cells.length :=
        World.dropFrom_length
      have hle := World.Steps.length_le hs
      exact Nat.lt_of_lt_of_le h.base_lt (hlen ▸ hle)
    · intro f hf
      exact (h.spent f hf).of_eq rfl rfl rfl

theorem processEvent_spent (hc : ctx.isComplete = false) (h : ctx.Spent id base)
    (he : self.processEvent ctx e = .ok ctx') : ctx'.drain.Spent id base := by
  refine Moves.spent (drain_moves self.env ctx') ?_
  obtain ⟨s, -, ht⟩ | ⟨-, ctx₁, hd, hm⟩ := processEvent_cases hc he
  · exact ht.start_spent h
  · exact Moves.spent hm (hd.spent h)

theorem processEvents_spent {events : List HistoryEvent} (hr : ctx.Regular)
    (h : ctx.Spent id base) (he : self.processEvents ctx events = .ok ctx') :
    ctx'.Spent id base :=
  processEvents_induct (P := fun _ ctx => ctx.Spent id base) h
    (fun _ _ _ _ h₁ hs he => processEvent_spent (processEvents_regular hr h₁).incomplete hs he) he

/--
In the run the event has handed its payload to a task of the program that is pending after the
run. A program is told from another by the place of the heap where its tasks begin.
-/
def HasResolved (self : OrchestrationExecutorFuture) (history : List HistoryEvent)
    (e : HistoryEvent) : Prop :=
  ∃ (past later : List HistoryEvent) (ctx₁ ctx : OrchestrationExecutorContext) (id : Int)
    (v message : String) (base : TaskRef) (f₁ f : TaskFuture (OrchestratorResult String)),
    history = past ++ e :: later ∧ e.kind = .resolve id (some v) message true ∧
      self.replay past = .ok ctx₁ ∧ (ctx₁.pendingTasks.lookup id).isSome ∧
      ctx₁.orchestratorFn = some (.suspended base f₁) ∧
      self.replay history = .ok ctx ∧ ctx.orchestratorFn = some (.suspended base f)

theorem resolveTask_spent {ctx₁ : OrchestrationExecutorContext} {v message : String}
    {f : TaskFuture (OrchestratorResult String)} (h : self.replay history = .ok ctx)
    (hl : (ctx.pendingTasks.lookup id).isSome)
    (hfn : ctx.orchestratorFn = some (.suspended base f))
    (h₁ : ctx.resolveTask id (some v) message = .ok ctx₁) : ctx₁.Spent id base := by
  have hr := replay_regular h
  obtain ⟨t, hl⟩ := Option.isSome_iff_exists.mp hl
  have hd := resolveTask_delivery self true h₁
  cases hd with
  | miss _ _ _ _ hnone =>
    rw [hl] at hnone
    cases hnone
  | send _ _ _ _ t' w hl' hs =>
    rw [hl] at hl'
    cases hl'
    obtain ⟨c, hc, hlive, rfl⟩ := World.send_ok hs
    obtain ⟨a, ho, rfl, -⟩ := hr.linked.task_at (.inl hl) hc
    obtain ⟨base', f', hfn', hbase⟩ := replay_owned h t c hc hlive
    rw [hfn] at hfn'
    cases hfn'
    constructor
    · rw [List.length_set]
      exact Nat.lt_of_le_of_lt hbase (List.getElem?_eq_some_iff.mp hc).1
    · intro f' _
      refine ⟨(replay_fresh h).le ⟨Nat.zero_le t, c, hc, hlive, ho⟩, AList.lookup_erase _ _, ?_⟩
      intro m hm
      rw [hr.drained.tasks] at hm
      cases hm

theorem spent_of_resolved {past later : List HistoryEvent} {ctx₁ : OrchestrationExecutorContext}
    {v message : String} {f₁ : TaskFuture (OrchestratorResult String)}
    (h₁ : self.replay past = .ok ctx₁) (hk : e.kind = .resolve id (some v) message true)
    (hl : (ctx₁.pendingTasks.lookup id).isSome)
    (hfn : ctx₁.orchestratorFn = some (.suspended base f₁))
    (h : self.replay (past ++ e :: later) = .ok ctx) : ctx.Spent id base := by
  have hr := replay_regular h₁
  rw [replay, processEvents_append_ok h₁] at h
  obtain ⟨ctx₂, he, h₂⟩ := processEvents_cons_split h
  have hr₂ := processEvent_regular hr he
  rw [processEvent_resolve hk] at he
  cases hres : ctx₁.resolveTask id (some v) message with
  | error p => rw [hres] at he; cases he
  | ok ctx₃ =>
    rw [hres] at he
    have hd := resolveTask_delivery self true hres
    have hm := (poll_moves (hd.isComplete.trans hr.incomplete) he).trans (drain_moves self.env ctx₂)
    exact processEvents_spent hr₂ (Moves.spent hm (resolveTask_spent h₁ hl hfn hres)) h₂

theorem HasResolved.processEvent (hres : HasResolved self history e)
    (h : self.replay history = .ok ctx) :
    ctx.running = true ∧ self.processEvent ctx e = self.poll ctx := by
  obtain ⟨past, later, ctx₁, ctx', id, v, message, base, f₁, f, rfl, hk, h₁, hl, hfn₁, h', hfn⟩ :=
    hres
  rw [h] at h'
  cases h'
  have hspent := (spent_of_resolved h₁ hk hl hfn₁ h).spent f hfn
  refine ⟨running_iff.mpr ⟨base, f, hfn⟩, ?_⟩
  rw [processEvent_resolve hk, resolveTask, hspent.lookup]
  rfl

/--
A poll of a program that is pending and was given nothing new since its last poll leaves it, its
tasks and its channels as they are.
-/
def Quiescent (self : OrchestrationExecutorFuture) (history : List HistoryEvent) : Prop :=
  ∀ past later ctx, history = past ++ later → self.replay past = .ok ctx → ctx.running = true →
    ctx.world.notified = false → self.poll ctx = .ok ctx

/-- The events that are left after some past, and the same with copies of what has resolved. -/
inductive Redelivered (self : OrchestrationExecutorFuture) :
    List HistoryEvent → List HistoryEvent → List HistoryEvent → Prop where
  | nil (past : List HistoryEvent) : Redelivered self past [] []
  | event (past : List HistoryEvent) (e : HistoryEvent) (events events' : List HistoryEvent)
      (h : Redelivered self (past ++ [e]) events events') :
      Redelivered self past (e :: events) (e :: events')
  | copy (past : List HistoryEvent) (e : HistoryEvent) (events events' : List HistoryEvent)
      (hres : HasResolved self past e) (h : Redelivered self past events events') :
      Redelivered self past events (e :: events')

theorem notified_of_no_taskFailed (h : self.replay history = .ok ctx)
    (hf : ∀ e ∈ history, ∀ f, e.eventType ≠ some (.taskFailed f)) : ctx.world.notified = false := by
  refine (replay_notices h (.intro fun past e later ctx₁ hs _ hsends => ?_)).notified
  cases hk : e.kind with
  | resolve id payload message polls =>
    cases polls with
    | true => rfl
    | false =>
      obtain ⟨f, hf'⟩ := HistoryEvent.taskFailed_of_kind hk
      exact absurd hf' (hf e (hs ▸ by simp) f)
  | _ =>
    rw [hk] at hsends
    cases hsends

theorem HasResolved.skip {later events : List HistoryEvent} (hres : HasResolved self history e)
    (hf : ∀ e ∈ history, ∀ f, e.eventType ≠ some (.taskFailed f))
    (hq : self.Quiescent (history ++ later)) (h : self.replay history = .ok ctx) :
    self.processEvents ctx (e :: events) = self.processEvents ctx events := by
  obtain ⟨hrun, he⟩ := hres.processEvent h
  rw [hq history later ctx rfl h hrun (notified_of_no_taskFailed h hf)] at he
  rw [processEvents_cons_ok he, drain_of_drained (replay_drained h)]

theorem Redelivered.processEvents {past events events' : List HistoryEvent}
    (hred : self.Redelivered past events events')
    (hf : ∀ e ∈ past ++ events, ∀ f, e.eventType ≠ some (.taskFailed f))
    (hq : self.Quiescent (past ++ events)) (h : self.replay past = .ok ctx) :
    self.processEvents ctx events' = self.processEvents ctx events := by
  induction hred generalizing ctx with
  | nil past => rfl
  | event past e events events' hred ih =>
    cases he : self.processEvent ctx e with
    | error p => simp only [OrchestrationExecutorFuture.processEvents, he]
    | ok ctx₁ =>
      have happend : past ++ [e] ++ events = past ++ e :: events := by simp
      rw [processEvents_cons_ok he, processEvents_cons_ok he]
      exact ih (happend ▸ hf) (happend ▸ hq) (replay_append_ok h he)
  | copy past e events events' hres hred ih =>
    have hpast : ∀ e ∈ past, ∀ f, e.eventType ≠ some (.taskFailed f) :=
      fun e he => hf e (List.mem_append_left _ he)
    rw [hres.skip hpast hq h]
    exact ih hf hq h

/--
In a history without `TaskFailed` events, copies of a completion that has resolved a task, at later
positions at which the program that it was handed to is pending, change nothing: not the context,
so no map, no buffered event and no number in it, and not what `execute` returns.
-/
theorem redelivery_harmless {history' : List HistoryEvent}
    (hf : ∀ e ∈ history, ∀ f, e.eventType ≠ some (.taskFailed f))
    (hq : self.Quiescent history) (hred : self.Redelivered [] history history') :
    self.replay history' = self.replay history ∧
      ∀ oldEvents newEvents oldEvents' newEvents', oldEvents ++ newEvents = history →
        oldEvents' ++ newEvents' = history' →
        self.execute oldEvents' newEvents' = self.execute oldEvents newEvents := by
  have hrun : self.replay history' = self.replay history := hred.processEvents hf hq rfl
  refine ⟨hrun, fun oldEvents newEvents oldEvents' newEvents' ho ho' => ?_⟩
  rw [execute_eq, execute_eq, ho, ho', hrun]

/--
Orchestrators that await calls, timers and signals in sequence and by joining are quiescent, in
every history with one start in which every completion carries a payload and polls.
-/
theorem replay_quiescent (hpat : self.Patient) (hone : history.countP HistoryEvent.isStart ≤ 1)
    (hk : ∀ e ∈ history, e.kind.Answers) : self.Quiescent history := by
  rintro past later ctx rfl h hrun hn
  rw [List.countP_append] at hone
  have hs := replay_resting hpat (Nat.le_of_add_right_le hone)
    (fun e he => hk e (List.mem_append_left _ he)) h
  obtain ⟨base, f, hfn⟩ := running_iff.mp hrun
  obtain ⟨l, hl, hparked⟩ := hs.parked base f hfn
  have hw : { ctx.world with notified := false } = ctx.world := by rw [← hn]
  have hpoll : (f.poll f.state).run (handle self.env) { ctx.world with notified := false } =
      .ok (.suspended f.state, ctx.world) := by
    rw [hw]
    exact hparked ctx.world hl
  rw [poll_suspended (s := f.state) (replay_isComplete h) hfn hpoll]
  obtain ⟨_, _, _, _, _, _, _, orchestratorFn, _, _, _⟩ := ctx
  cases hfn
  rfl

def counted {α : Type} (f : TaskFuture α) : TaskFuture (α × ℕ) where
  State := f.State × ℕ
  state := (f.state, 0)
  poll s := (f.poll s.1).bind fun
    | .suspended s' => .pure (.suspended (s', s.2 + 1))
    | .ready a => .pure (.ready (a, s.2))

def countingOrchestration : OrchestratorFunction :=
  stringOrchestrator ((counted ((createTimer 10000).join
    (callTestActivity "test_activity" "test"))).map fun r =>
      .ok (.output (if r.2 = 2 then "polled twice" else "polled more often")))

/--
Where a second start has replaced the program, a copy resolves the task that the new one has under
the same id. Where the program counts its polls, a poll that issues nothing is seen later.
-/
theorem copies_seen :
    (∃ ctx, (executorOf sequenceOrchestration).replay [executionStarted, timerCreated 1,
      timerFired 1, taskScheduled 2, executionStarted] = .ok ctx ∧ ctx.running = true) ∧
    (executorOf sequenceOrchestration).execute [] [executionStarted, timerCreated 1,
      timerFired 1, taskScheduled 2, executionStarted] =
        .ok [newCreateTimerAction 1 ⟨10, 0⟩] ∧
    (executorOf sequenceOrchestration).execute [] [executionStarted, timerCreated 1,
      timerFired 1, taskScheduled 2, executionStarted, timerFired 1] =
        .ok [newScheduleTaskAction 2 "test_activity" (some "\"test\""),
          newCreateTimerAction 1 ⟨10, 0⟩] ∧
    ((executorOf countingOrchestration).replay [executionStarted, timerFired 1]).map
      (fun ctx => (ctx.running, ctx.getActions plainEnv)) =
        .ok (true, [newScheduleTaskAction 2 "test_activity" (some "\"test\""),
          newCreateTimerAction 1 ⟨10, 0⟩]) ∧
    (((executorOf countingOrchestration).replay [executionStarted, timerFired 1]).bind
      (executorOf countingOrchestration).poll).map
        (fun ctx => (ctx.running, ctx.drain.getActions plainEnv)) =
        .ok (true, [newScheduleTaskAction 2 "test_activity" (some "\"test\""),
          newCreateTimerAction 1 ⟨10, 0⟩]) ∧
    (executorOf countingOrchestration).execute [] [executionStarted, timerFired 1,
      taskCompleted 2 (some "\"hello\"")] ≠
    (executorOf countingOrchestration).execute [] [executionStarted, timerFired 1, timerFired 1,
      taskCompleted 2 (some "\"hello\"")] :=
  ⟨⟨_, rfl, rfl⟩, by decide, by decide, by decide, by decide, by decide⟩

theorem orchestrators_patient {func : OrchestratorFunction} (hfunc : func ∈ orchestrators) :
    (executorOf func).Patient := by
  intro name func' input hreg
  obtain rfl := eq_of_registered hreg
  have hu := undisturbing plainEnv
  have hcall (activityType input : String) :
      TaskFuture.Patient plainEnv (callTestActivity activityType input) :=
    callActivity_patient _ _ _
  simp only [orchestrators, List.mem_cons, List.not_mem_nil, or_false] at hfunc
  rcases hfunc with rfl | rfl | rfl | rfl | rfl | rfl
  · exact ((hcall _ _).bind hu fun _ => .ready _).map _
  · exact (Future.Patient.ready _).map _
  · exact ((createTimer_patient 10000).bind hu fun _ => (hcall _ _).bind hu fun _ => .ready _).map _
  · exact (((hcall _ _).join hu (hcall _ _)).bind hu fun _ => .ready _).map _
  · exact ((awaitSignalEvent_patient _).map _).map _
  · exact ((createTimer_patient 30000).bind hu fun _ => .ready _).map _

/-- The timer of `sequenceOrchestration` has fired, and its activity is scheduled. -/
def sequenceScheduled : List HistoryEvent :=
  [executionStarted, timerCreated 1, timerFired 1, taskScheduled 2]

theorem sequenceOrchestration_redelivered :
    (executorOf sequenceOrchestration).replay [executionStarted, timerCreated 1, timerFired 1,
      timerFired 1, taskScheduled 2, timerFired 1] =
        (executorOf sequenceOrchestration).replay sequenceScheduled ∧
    ∀ oldEvents newEvents oldEvents' newEvents', oldEvents ++ newEvents = sequenceScheduled →
      oldEvents' ++ newEvents' = [executionStarted, timerCreated 1, timerFired 1, timerFired 1,
        taskScheduled 2, timerFired 1] →
      (executorOf sequenceOrchestration).execute oldEvents' newEvents' =
        (executorOf sequenceOrchestration).execute oldEvents newEvents := by
  refine redelivery_harmless ?_ (replay_quiescent (orchestrators_patient (by simp [orchestrators]))
    (by decide) ?_) ?_
  · intro e he f hf
    simp only [sequenceScheduled, List.mem_cons, List.not_mem_nil, or_false] at he
    rcases he with rfl | rfl | rfl | rfl <;> cases hf
  · intro e he id payload message polls hk
    simp only [sequenceScheduled, List.mem_cons, List.not_mem_nil, or_false] at he
    rcases he with rfl | rfl | rfl | rfl <;> cases hk
    exact ⟨rfl, rfl⟩
  · have hfirst : (executorOf sequenceOrchestration).HasResolved
        [executionStarted, timerCreated 1, timerFired 1] (timerFired 1) :=
      ⟨[executionStarted, timerCreated 1], [], _, _, 1, "", "failed to unblock timer", 0, _, _,
        rfl, rfl, rfl, rfl, rfl, rfl, rfl⟩
    have hsecond : (executorOf sequenceOrchestration).HasResolved sequenceScheduled
        (timerFired 1) :=
      ⟨[executionStarted, timerCreated 1], [taskScheduled 2], _, _, 1, "",
        "failed to unblock timer", 0, _, _, rfl, rfl, rfl, rfl, rfl, rfl, rfl⟩
    exact .event _ _ _ _ (.event _ _ _ _ (.event _ _ _ _ (.copy _ _ _ _ hfirst
      (.event _ _ _ _ (.copy _ _ _ _ hsecond (.nil _))))))

end OrchestrationExecutorFuture

end DurableTask
