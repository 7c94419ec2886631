import DurableTask.Executor.Ledger
import DurableTask.Runtime.Orchestrators
import DurableTask.Runtime.Sequence

/-! # Progress of a long replay

The whole history is replayed inside a single poll of the executor, so all the
receiver polls of the program share one cooperative budget. An orchestrator
that awaits its activities one after the other spends one unit for each; when
the budget is used up the next result is never looked at.
-/

namespace DurableTask

open Interaction OrchestrationExecutorContext Text

/-- `TaskScheduled` and `TaskCompleted` for each of the activities, whose ids go on from `i`. -/
inductive Recorded : ℕ → List SequenceStep → List HistoryEvent → Prop where
  | nil {i : ℕ} : Recorded i [] []
  | cons {i : ℕ} {step : SequenceStep} {steps : List SequenceStep} {events : List HistoryEvent}
      (scheduledAt completedAt : Option Timestamp) (eventId : Int)
      (h : Recorded (i + 1) steps events) :
    Recorded i (step :: steps)
      (⟨i, scheduledAt, some (.taskScheduled ⟨step.activity.name, step.activity.input⟩)⟩ ::
        ⟨eventId, completedAt, some (.taskCompleted ⟨i, some step.result⟩)⟩ :: events)

theorem Recorded.split {i : ℕ} {step : SequenceStep} {steps : List SequenceStep}
    {events : List HistoryEvent} (h : Recorded i (step :: steps) events) :
    ∃ done rest, events = done ++ rest ∧ done.length = 2 ∧ Recorded i [step] done ∧
      Recorded (i + 1) steps rest := by
  cases h with
  | cons scheduledAt completedAt eventId h =>
    exact ⟨[_, _], _, rfl, rfl, .cons scheduledAt completedAt eventId .nil, h⟩

def SequenceStep.action (step : SequenceStep) (id : Int) : OrchestratorAction :=
  newScheduleTaskAction id step.activity.name step.activity.input

theorem AList.erase_singleton {α : Type} (id : Int) (v : α) :
    (AList.singleton id v : AList fun _ : Int => α).erase id = ∅ := by
  ext1
  exact List.kerase_cons_eq rfl

theorem AList.lookup_singleton {α : Type} (id : Int) (v : α) :
    (AList.singleton id v : AList fun _ : Int => α).lookup id = some v := by
  rw [← AList.insert_empty, AList.lookup_insert]

namespace OrchestrationExecutorFuture

/-- The program awaits the activity with id `i`, and after it `steps`; `b` polls are left. -/
structure Awaits (executor : OrchestrationExecutorFuture) (a : OrchestratorResult String)
    (ctx : OrchestrationExecutorContext) (i b : ℕ) (step : SequenceStep)
    (steps : List SequenceStep) : Prop where
  drained : ctx.Drained
  isComplete : ctx.isComplete = false
  pendingActions : ctx.pendingActions = AList.singleton (i : Int) (step.action i)
  sequenceNumber : ctx.sequenceNumber = i
  counter : ctx.world.octx.sequenceNumber = i
  budget : ctx.world.budget = some b
  program : ∃ (base : TaskRef) (f : TaskFuture (OrchestratorResult String)) (s : f.State)
    (m : OrchestratorProg (Progress f.State (OrchestratorResult String))) (t : TaskRef) (c : Cell),
    ctx.orchestratorFn = some (.suspended base (f.resume s)) ∧ f.GoesOn executor.env a steps m ∧
    f.ParkedAt executor.env s t step.result m ∧ ctx.pendingTasks = AList.singleton (i : Int) t ∧
    ctx.world.cells[t]? = some c ∧ c.At .waiting ∧ c.dropped = false

/-- The budget is used up, and the program awaits a task whose value it cannot look at. -/
structure Stalled (executor : OrchestrationExecutorFuture) (ctx : OrchestrationExecutorContext) :
    Prop where
  drained : ctx.Drained
  isComplete : ctx.isComplete = false
  pendingActions : ctx.pendingActions = ∅
  pendingTasks : ctx.pendingTasks = ∅
  budget : ctx.world.budget = some 0
  program : ∃ (base : TaskRef) (f : TaskFuture (OrchestratorResult String)) (s : f.State)
    (m : OrchestratorProg (Progress f.State (OrchestratorResult String))) (t : TaskRef) (c : Cell)
    (payload : String),
    ctx.orchestratorFn = some (.suspended base (f.resume s)) ∧
    f.ParkedAt executor.env s t payload m ∧ ctx.world.cells[t]? = some c ∧ c.dropped = false ∧
    c.task = ⟨false, none, .sent (some payload)⟩

variable {self : OrchestrationExecutorFuture} {ctx ctx' : OrchestrationExecutorContext}
  {a : OrchestratorResult String} {steps : List SequenceStep} {step : SequenceStep} {i b : ℕ}

/-- The program went on to an activity, and what it sent was drained. -/
theorem Awaits.of_schedule {base : TaskRef} {f : TaskFuture (OrchestratorResult String)}
    {s : TaskRef → f.State} {m : OrchestratorProg (Progress f.State (OrchestratorResult String))}
    {w : World} (hm : f.GoesOn self.env a steps m)
    (hparked : ∀ t, f.ParkedAt self.env (s t) t step.result m) (hc : ctx.isComplete = false)
    (hpa : ctx.pendingActions = ∅) (hpt : ctx.pendingTasks = ∅)
    (hfn : ctx.orchestratorFn = some (.suspended base (f.resume (s w.cells.length))))
    (hw : ctx.world = (w.scheduleActivity step.activity.name step.activity.input).2)
    (hi : w.octx.sequenceNumber = i) (hd : { ctx with world := w }.Drained)
    (hb : w.budget = some b) : self.Awaits a ctx.drain (i + 1) b step steps := by
  obtain ⟨ha, ht, he⟩ := hd
  dsimp only at ha ht he
  have hdrain : ctx.drain = { ctx with
      pendingActions := AList.singleton ((i : Int) + 1) (step.action (i + 1))
      pendingTasks := AList.singleton ((i : Int) + 1) w.cells.length
      sequenceNumber := (i : Int) + 1
      inserted := ctx.inserted ++ [((i : Int) + 1, step.action (i + 1))]
      world := { ctx.world with
        octx := { ctx.world.octx with actionsTx := [], tasksTx := [], eventsTx := [] } } } := by
    simp [drain, hfn, drainActions, drainTasks, drainEvents, hw, World.scheduleActivity, ha, ht, he,
      takeAction, takeTask, insertAction, hpa, hpt, hi, SequenceStep.action]
  rw [hdrain]
  refine ⟨⟨rfl, rfl, rfl⟩, hc, ?_, ?_, ?_, ?_, base, f, s w.cells.length, m, w.cells.length,
    .new (.action (step.action (i + 1))), hfn, hm, hparked _, ?_, ?_, Cell.at_new _, rfl⟩
  · simp
  · simp
  · simp [hw, World.scheduleActivity, hi]
  · simp [hw, World.scheduleActivity, hb]
  · simp
  · simp [hw, World.scheduleActivity, hi, SequenceStep.action]

/-- What `TaskScheduled` leaves, and what `TaskCompleted` hands over. -/
def given (ctx : OrchestrationExecutorContext) (t : TaskRef) (origin : Origin) (payload : String) :
    OrchestrationExecutorContext :=
  { ctx with
    pendingActions := ∅
    pendingTasks := ∅
    world := { ctx.world with
      cells := ctx.world.cells.set t ⟨origin, ⟨false, none, .sent (some payload)⟩, false, none⟩
      notified := true } }

theorem given_cells {t : TaskRef} {c : Cell} {payload : String}
    (hc : ctx.world.cells[t]? = some c) :
    (given ctx t c.origin payload).world.cells[t]? =
      some ⟨c.origin, ⟨false, none, .sent (some payload)⟩, false, none⟩ := by
  simp [given, (List.getElem?_eq_some_iff.mp hc).1]

theorem processEvents_recorded {t : TaskRef} {c : Cell} {action : OrchestratorAction}
    {events : List HistoryEvent} (hd : ctx.Drained)
    (hpa : ctx.pendingActions = AList.singleton (i : Int) action)
    (hpt : ctx.pendingTasks = AList.singleton (i : Int) t) (hc : ctx.world.cells[t]? = some c)
    (hw : c.At .waiting) (hlive : c.dropped = false) (hrec : Recorded i [step] events)
    (hp : self.poll (given ctx t c.origin step.result) = .ok ctx') :
    self.processEvents ctx events = .ok ctx'.drain := by
  cases hrec with
  | cons scheduledAt completedAt eventId hrec =>
    cases hrec
    have ha : self.processEvent ctx ⟨i, scheduledAt,
        some (.taskScheduled ⟨step.activity.name, step.activity.input⟩)⟩ =
          .ok { ctx with pendingActions := ∅ } := by
      simp only [processEvent, acknowledge, hpa, AList.erase_singleton]
    have hd₁ : ({ ctx with pendingActions := ∅ } : OrchestrationExecutorContext).Drained :=
      hd.of_octx rfl
    rw [processEvents_cons_ok ha, drain_of_drained hd₁]
    change _ = self.processEvents ctx'.drain []
    apply processEvents_cons_ok
    obtain ⟨origin, task, dropped, outcome⟩ := c
    obtain ⟨rfl, rfl⟩ := hw
    cases hlive
    simp only [processEvent, resolveAndPoll, resolveTask, hpt, AList.lookup_singleton]
    simpa [World.send, hc, given, AList.erase_singleton, CompletableTask.new] using hp

section Steps

variable {events : List HistoryEvent} {step' : SequenceStep}

theorem Awaits.next (h : self.Awaits a ctx i (b + 1) step (step' :: steps))
    (hrec : Recorded i [step] events) :
    ∃ ctx', self.processEvents ctx events = .ok ctx' ∧
      self.Awaits a ctx' (i + 1) b step' steps := by
  obtain ⟨hd, hcomplete, hpa, hseq, hctr, hb, base, f, s, m, t, c, hfn, hm, hparked, hpt, hc, hw,
    hlive⟩ := h
  obtain ⟨s', m', hm', hrun, hparked'⟩ := hm
  have hlasts : ¬ctx.world.budget.exhausted := by simp [Budget.exhausted, hb]
  have hpoll := World.pollTask_sent (w := { (given ctx t c.origin step.result).world with
    notified := false }) (t := t) (given_cells hc) rfl rfl hlasts
  have hp : self.poll (given ctx t c.origin step.result) = .ok _ :=
    poll_suspended hcomplete hfn ((hparked.ready hpoll).trans (hrun _))
  refine ⟨_, processEvents_recorded hd hpa hpt hc hw hlive hrec hp, ?_⟩
  exact .of_schedule hm' hparked' hcomplete rfl rfl rfl rfl hctr
    ⟨hd.actions, hd.tasks, hd.events⟩ (by simp [given, hb, Budget.spend])

theorem Awaits.last (h : self.Awaits a ctx i (b + 1) step []) (hrec : Recorded i [step] events) :
    ∃ ctx', self.processEvents ctx events = .ok ctx' ∧
      ctx'.pendingActions = AList.singleton ((i : Int) + 1) (completionAction (i + 1) a) := by
  obtain ⟨hd, hcomplete, hpa, hseq, hctr, hb, base, f, s, m, t, c, hfn, hm, hparked, hpt, hc, hw,
    hlive⟩ := h
  have hlasts : ¬ctx.world.budget.exhausted := by simp [Budget.exhausted, hb]
  have hpoll := World.pollTask_sent (w := { (given ctx t c.origin step.result).world with
    notified := false }) (t := t) (given_cells hc) rfl rfl hlasts
  have hp : self.poll (given ctx t c.origin step.result) = .ok _ :=
    poll_ready hcomplete hfn ((hparked.ready hpoll).trans (hm _))
  refine ⟨_, processEvents_recorded hd hpa hpt hc hw hlive hrec hp, ?_⟩
  rw [drain_of_drained]
  swap
  · exact hd.of_octx rfl
  simp [insertAction, given, hseq]

theorem Awaits.stall (h : self.Awaits a ctx i 0 step steps) (hrec : Recorded i [step] events) :
    ∃ ctx', self.processEvents ctx events = .ok ctx' ∧ self.Stalled ctx' := by
  obtain ⟨hd, hcomplete, hpa, hseq, hctr, hb, base, f, s, m, t, c, hfn, hm, hparked, hpt, hc, hw,
    hlive⟩ := h
  have hpoll := World.pollTask_exhausted (w := { (given ctx t c.origin step.result).world with
    notified := false }) (t := t) (given_cells hc) rfl rfl hb
  have hp : self.poll (given ctx t c.origin step.result) = .ok _ :=
    poll_suspended hcomplete hfn (hparked.pending hpoll)
  refine ⟨_, processEvents_recorded hd hpa hpt hc hw hlive hrec hp, ?_⟩
  rw [drain_of_drained]
  swap
  · exact hd.of_octx rfl
  exact ⟨hd.of_octx rfl, hcomplete, rfl, rfl, hb, base, f, s, m, t, _, step.result, rfl, hparked,
    given_cells hc, rfl, rfl⟩

theorem Stalled.stays (h : self.Stalled ctx) (hrec : Recorded i steps events) :
    ∃ ctx', self.processEvents ctx events = .ok ctx' ∧ self.Stalled ctx' := by
  induction hrec generalizing ctx with
  | nil => exact ⟨ctx, rfl, h⟩
  | @cons i step steps events scheduledAt completedAt eventId hrec ih =>
    obtain ⟨hd, hcomplete, hpa, hpt, hb, base, f, s, m, t, c, payload, hfn, hparked, hc, hlive,
      ht⟩ := h
    have ha : self.processEvent ctx ⟨i, scheduledAt,
        some (.taskScheduled ⟨step.activity.name, step.activity.input⟩)⟩ =
          .ok { ctx with pendingActions := ∅ } := by
      simp only [processEvent, acknowledge, hpa]
      rfl
    have hd₁ : ({ ctx with pendingActions := ∅ } : OrchestrationExecutorContext).Drained :=
      hd.of_octx rfl
    have hpoll := World.pollTask_exhausted (w := { ctx.world with notified := false }) (t := t) hc
      hlive ht hb
    have hp : self.processEvent { ctx with pendingActions := ∅ } ⟨eventId, completedAt,
        some (.taskCompleted ⟨i, some step.result⟩)⟩ = .ok { ctx with
          pendingActions := ∅
          orchestratorFn := some (.suspended base (f.resume s))
          world := { ctx.world with notified := false } } := by
      simp only [processEvent, resolveAndPoll, resolveTask, hpt, AList.lookup_empty]
      exact poll_suspended hcomplete hfn (hparked.pending hpoll)
    rw [processEvents_cons_ok ha, drain_of_drained hd₁, processEvents_cons_ok hp, drain_of_drained]
    swap
    · exact hd.of_octx rfl
    exact ih ⟨hd.of_octx rfl, hcomplete, rfl, hpt, hb, base, f, s, m, t, c, payload, rfl, hparked,
      hc, hlive, ht⟩

end Steps

theorem Awaits.run_take {events : List HistoryEvent} {k : ℕ}
    (h : self.Awaits a ctx i b step steps) (hrec : Recorded i (step :: steps) events)
    (hk : k < (step :: steps).length) (hb : k ≤ b) :
    ∃ ctx', self.processEvents ctx (events.take (2 * k)) = .ok ctx' ∧
      ctx'.pendingActions =
        AList.singleton ((i : Int) + k) ((step :: steps)[k].action (i + k)) := by
  induction k generalizing ctx i b step steps events with
  | zero => exact ⟨ctx, rfl, by simpa using h.pendingActions⟩
  | succ k ih =>
    obtain _ | ⟨step', steps⟩ := steps
    · simp at hk
    obtain ⟨b, rfl⟩ : ∃ b', b = b' + 1 := ⟨b - 1, by omega⟩
    obtain ⟨done, rest, rfl, hlen, hdone, hrest⟩ := hrec.split
    obtain ⟨ctx₁, h₁, hnext⟩ := h.next hdone
    obtain ⟨ctx₂, h₂, hp⟩ := ih hnext hrest (by simpa using hk) (by omega)
    refine ⟨ctx₂, ?_, ?_⟩
    · rw [show 2 * (k + 1) = done.length + 2 * k by omega, List.take_length_add_append,
        processEvents_append_ok h₁, h₂]
    · have hid : ((i + 1 : ℕ) : Int) + k = i + (k + 1 : ℕ) := by omega
      rw [hp, hid]
      rfl

theorem Awaits.run_all {events : List HistoryEvent} (h : self.Awaits a ctx i b step steps)
    (hrec : Recorded i (step :: steps) events) (hb : (step :: steps).length ≤ b) :
    ∃ ctx' id, self.processEvents ctx events = .ok ctx' ∧
      ctx'.pendingActions = AList.singleton id (completionAction id a) := by
  induction steps generalizing ctx i b step events with
  | nil =>
    obtain ⟨b, rfl⟩ : ∃ b', b = b' + 1 := ⟨b - 1, by simp at hb; omega⟩
    obtain ⟨ctx', h', hp⟩ := h.last hrec
    exact ⟨ctx', _, h', hp⟩
  | cons step' steps ih =>
    obtain ⟨b, rfl⟩ : ∃ b', b = b' + 1 := ⟨b - 1, by simp at hb; omega⟩
    obtain ⟨done, rest, rfl, -, hdone, hrest⟩ := hrec.split
    obtain ⟨ctx₁, h₁, hnext⟩ := h.next hdone
    rw [processEvents_append_ok h₁]
    exact ih hnext hrest (by simpa using hb)

theorem Awaits.run_stalled {events : List HistoryEvent} (h : self.Awaits a ctx i b step steps)
    (hrec : Recorded i (step :: steps) events) (hb : b < (step :: steps).length) :
    ∃ ctx', self.processEvents ctx events = .ok ctx' ∧ self.Stalled ctx' := by
  induction steps generalizing ctx i b step events with
  | nil =>
    obtain rfl : b = 0 := by simpa using hb
    exact h.stall hrec
  | cons step' steps ih =>
    obtain ⟨done, rest, rfl, -, hdone, hrest⟩ := hrec.split
    obtain _ | b := b
    · obtain ⟨ctx₁, h₁, hs⟩ := h.stall hdone
      rw [processEvents_append_ok h₁]
      exact hs.stays hrest
    · obtain ⟨ctx₁, h₁, hnext⟩ := h.next hdone
      rw [processEvents_append_ok h₁]
      exact ih hnext hrest (by simpa using hb)

section Start

variable {func : OrchestratorFunction} {name : String} {input : Option String} {e : HistoryEvent}

theorem replay_start (hreg : self.registry.getOrchestrator name = some func)
    (hseq : Sequential (step :: steps) a (func.call self.instanceId input))
    (he : e.eventType = some (.executionStarted ⟨name, input⟩)) (hb : self.env.budget = some b) :
    ∃ ctx, self.replay [e] = .ok ctx ∧ self.Awaits a ctx 1 b step steps := by
  have hgoes : (func.call self.instanceId input).GoesOn self.env a (step :: steps) _ := hseq.goesOn
  obtain ⟨s, m, hm, hrun, hparked⟩ := hgoes
  have hp : self.processEvent (.new self.env.budget) e = .ok { new self.env.budget with
      orchestratorFn := some (.suspended 0 ((func.call self.instanceId input).resume (s 0)))
      world := (World.scheduleActivity { (new self.env.budget).world with
        octx := .new self.instanceId input } step.activity.name step.activity.input).2 } := by
    simp only [processEvent, he, start, hreg, BoxFuture.pollUnpin, hrun]
    rfl
  refine ⟨_, processEvents_cons_ok hp, ?_⟩
  exact .of_schedule (i := 0) hm hparked rfl rfl rfl rfl rfl rfl ⟨rfl, rfl, rfl⟩ hb

end Start

/--
The replay of the recorded activities makes progress: the whole history completes the orchestration,
and up to the `k`-th completion it schedules the next activity.
-/
structure MakesProgress (executor : OrchestrationExecutorFuture) (steps : List SequenceStep)
    (events : List HistoryEvent) : Prop where
  completes : ∀ oldEvents newEvents, oldEvents ++ newEvents = events →
    ∃ actions action completion, executor.execute oldEvents newEvents = .ok actions ∧
      action ∈ actions ∧
      action.orchestratorActionType = some (.completeOrchestration completion) ∧
      completion.orchestrationStatus = .completed
  schedules : ∀ (k : ℕ) (hk : k < steps.length), 1 ≤ k → ∀ oldEvents newEvents,
    oldEvents ++ newEvents = events.take (2 * k + 1) →
      executor.execute oldEvents newEvents = .ok [steps[k].action (k + 1)]

theorem execute_of_singleton {oldEvents newEvents : List HistoryEvent} {id : Int}
    {action : OrchestratorAction} (h : self.replay (oldEvents ++ newEvents) = .ok ctx)
    (hp : ctx.pendingActions = AList.singleton id action) :
    self.execute oldEvents newEvents = .ok [action] := by
  rw [execute_eq, h]
  have hperm := self.env.hashOrder_perm (ctx.pendingActions.entries.map Sigma.snd)
  simp only [Except.map, getActions, hp, AList.singleton_entries, List.map_cons, List.map_nil,
    List.perm_singleton] at hperm ⊢
  rw [hperm]

section Sequence

variable {func : OrchestratorFunction} {name output : String} {input : Option String}
  {e : HistoryEvent} {events : List HistoryEvent}

theorem makesProgress (hreg : self.registry.getOrchestrator name = some func)
    (hseq : Sequential steps (.ok (.output output)) (func.call self.instanceId input))
    (he : e.eventType = some (.executionStarted ⟨name, input⟩)) (hb : self.env.budget = some b)
    (hrec : Recorded 1 steps events) (hn : 1 ≤ steps.length) (hlen : steps.length ≤ b) :
    self.MakesProgress steps (e :: events) := by
  obtain _ | ⟨step, steps⟩ := steps
  · simp at hn
  obtain ⟨ctx, hstart, hawaits⟩ := replay_start hreg hseq he hb
  constructor
  · intro oldEvents newEvents hsplit
    obtain ⟨ctx', id, hrun, hp⟩ := hawaits.run_all hrec hlen
    refine ⟨_, _, ⟨.completed, some output, [], none⟩, execute_of_singleton ?_ hp,
      List.mem_singleton_self _, rfl, rfl⟩
    rw [hsplit, ← List.singleton_append, replay, processEvents_append_ok hstart, hrun]
  · intro k hk _ oldEvents newEvents hsplit
    obtain ⟨ctx', hrun, hp⟩ := hawaits.run_take hrec hk (by omega)
    rw [show ((1 : ℕ) : Int) + k = k + 1 by omega] at hp
    refine execute_of_singleton ?_ hp
    rw [hsplit, List.take_succ_cons, ← List.singleton_append, replay,
      processEvents_append_ok hstart, hrun]

theorem execute_stalled (hreg : self.registry.getOrchestrator name = some func)
    (hseq : Sequential steps (.ok (.output output)) (func.call self.instanceId input))
    (he : e.eventType = some (.executionStarted ⟨name, input⟩)) (hb : self.env.budget = some b)
    (hrec : Recorded 1 steps events) (hlen : b < steps.length) :
    self.execute [] (e :: events) = .ok [] := by
  obtain _ | ⟨step, steps⟩ := steps
  · simp at hlen
  obtain ⟨ctx, hstart, hawaits⟩ := replay_start hreg hseq he hb
  obtain ⟨ctx', hrun, hstalled⟩ := hawaits.run_stalled hrec hlen
  rw [execute_eq, List.nil_append, ← List.singleton_append, replay, processEvents_append_ok hstart,
    hrun]
  have hperm := self.env.hashOrder_perm []
  simp only [Except.map, getActions, hstalled.pendingActions, AList.empty_entries, List.map_nil,
    List.perm_nil] at hperm ⊢
  rw [hperm]

/-- A budget of 128 polls lets a sequence of activities make progress exactly if it is no longer. -/
theorem execute_progresses (hreg : self.registry.getOrchestrator name = some func)
    (hseq : Sequential steps (.ok (.output output)) (func.call self.instanceId input))
    (he : e.eventType = some (.executionStarted ⟨name, input⟩)) (hb : self.env.budget = some 128)
    (hrec : Recorded 1 steps events) (hn : 1 ≤ steps.length) :
    self.MakesProgress steps (e :: events) ↔ steps.length ≤ 128 := by
  constructor
  · intro h
    by_contra hlt
    obtain ⟨actions, action, -, hx, hmem, -⟩ := h.completes [] (e :: events) rfl
    rw [execute_stalled hreg hseq he hb hrec (Nat.lt_of_not_le hlt)] at hx
    cases hx
    cases hmem
  · exact makesProgress hreg hseq he hb hrec hn

end Sequence

def repeatActivity : ℕ → TaskFuture (OrchestratorResult Unit)
  | 0 => .ready (.ok (.output ()))
  | n + 1 => (callTestActivity "test_activity" "test").bind fun _ => repeatActivity n

def repeatStep : SequenceStep := ⟨⟨"test_activity", some "\"test\""⟩, "\"test\""⟩

def repeatOrchestration (n : ℕ) : OrchestratorFunction := unitOrchestrator (repeatActivity n)

theorem repeatActivity_sequential (n : ℕ) :
    Sequential (List.replicate n repeatStep) (.ok (.output ())) (repeatActivity n) := by
  induction n with
  | zero => exact .ready _
  | succ n ih =>
    change Sequential (⟨⟨if "test_activity" = "" then "test_activity" else "test_activity",
      some "\"test\""⟩, "\"test\""⟩ :: List.replicate n repeatStep) _
        ((callActivity jsonString fromJsonString "test_activity" "test_activity"
          "test").bind fun _ =>
          repeatActivity n)
    exact .call (by decide) (by decide : fromJsonString "\"test\"" = .ok "test") ih

theorem repeatOrchestration_sequential (n : ℕ) (instanceId : String) (input : Option String) :
    Sequential (List.replicate n repeatStep) (.ok (.output "null"))
      ((repeatOrchestration n).call instanceId input) := by
  have h : Sequential _ _ ((repeatOrchestration n).call instanceId input) :=
    .map _ (repeatActivity_sequential n)
  exact h

def recordOf (i : ℕ) : List SequenceStep → List HistoryEvent
  | [] => []
  | step :: steps =>
    ⟨i, none, some (.taskScheduled ⟨step.activity.name, step.activity.input⟩)⟩ ::
      taskCompleted i (some step.result) :: recordOf (i + 1) steps

theorem recorded_recordOf (i : ℕ) (steps : List SequenceStep) :
    Recorded i steps (recordOf i steps) := by
  induction steps generalizing i with
  | nil => exact .nil
  | cons step steps ih => exact .cons none none (-1) (ih (i + 1))

theorem repeatOrchestration_makesProgress :
    (executorOf (repeatOrchestration 2)).MakesProgress (List.replicate 2 repeatStep)
      (executionStarted :: recordOf 1 (List.replicate 2 repeatStep)) :=
  (execute_progresses (executorOf_registered _) (repeatOrchestration_sequential 2 _ _) rfl rfl
    (recorded_recordOf 1 _) (by decide)).mpr (by decide)

/-- With 129 activities the last result is not looked at, and nothing is returned. -/
theorem long_sequence_stalls :
    ¬(executorOf (repeatOrchestration 129)).MakesProgress (List.replicate 129 repeatStep)
      (executionStarted :: recordOf 1 (List.replicate 129 repeatStep)) := by
  intro h
  obtain ⟨actions, action, -, hx, hmem, -⟩ := h.completes [] _ rfl
  rw [execute_stalled (executorOf_registered _) (repeatOrchestration_sequential 129 _ _) rfl
    rfl (recorded_recordOf 1 _) (by simp)] at hx
  cases hx
  cases hmem

end OrchestrationExecutorFuture

end DurableTask
