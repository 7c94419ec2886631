import DurableTask.Invariants.Owned
import DurableTask.Invariants.Queued
import DurableTask.Runtime.Orchestrators

/-! # Abandoned tasks

The sender of a task stays with the executor when the program drops the task,
and every place that sends unwraps the result. So an event is harmless to what
was abandoned exactly if it sends to nobody who is gone, whoever waits behind.
-/

namespace DurableTask

open Interaction Queues OrchestrationExecutorContext

def World.alive (w : World) (t : TaskRef) : Bool := w.cells[t]?.any fun c => !c.dropped

def OrchestrationExecutorContext.liveWaiters (ctx : OrchestrationExecutorContext)
    (name : String) : List TaskRef :=
  (ctx.pendingEvents.get name).filter ctx.world.alive

def OrchestrationExecutorContext.closeTask (ctx : OrchestrationExecutorContext) (id : Int)
    (t : TaskRef) (c : Cell) : OrchestrationExecutorContext :=
  { ctx with
    pendingTasks := ctx.pendingTasks.erase id
    world.cells := ctx.world.cells.set t { c with task.unblockRx := .closed } }

section Alive

variable {w w' : World} {t : TaskRef} {v : Option String}

theorem World.send_none_iff : w.send t v = none ↔ w.alive t = false := by
  unfold World.send World.alive
  cases w.cells[t]? with
  | none => simp
  | some c => cases hd : c.dropped <;> simp [hd]

theorem World.send_of_alive (h : w.alive t = true) : ∃ w', w.send t v = some w' := by
  cases hs : w.send t v with
  | some w' => exact ⟨w', rfl⟩
  | none =>
    rw [World.send_none_iff, h] at hs
    cases hs

theorem World.send_alive (h : w.send t v = some w') : w'.alive = w.alive := by
  obtain ⟨c, hc, hd, rfl⟩ := World.send_ok h
  funext u
  unfold World.alive
  by_cases hu : t = u
  · subst hu
    rw [hc]
    simp [(List.getElem?_eq_some_iff.mp hc).1]
  · simp [List.getElem?_set_ne hu]

end Alive

namespace OrchestrationExecutorFuture

variable {self : OrchestrationExecutorFuture} {ctx ctx' : OrchestrationExecutorContext}
  {past history : List HistoryEvent} {e : HistoryEvent}

/-- The event is processed, or panics in the code of the program that it polls. -/
def Survives (executor : OrchestrationExecutorFuture) (ctx : OrchestrationExecutorContext)
    (e : HistoryEvent) : Prop :=
  ∀ p, executor.processEvent ctx e = .error p →
    ∃ a, executor.activation ctx e.kind = some a ∧ a.run executor.env = .error p

/-- The completion of a task takes its sender and changes nothing else; then its arm polls. -/
def PassesOver (executor : OrchestrationExecutorFuture) (ctx : OrchestrationExecutorContext)
    (e : HistoryEvent) (id : Int) (polls : Bool) (t : TaskRef) : Prop :=
  executor.Survives ctx e ∧ ∃ c : Cell,
    let ctx₁ := { ctx with
      pendingTasks := ctx.pendingTasks.erase id
      world.cells := ctx.world.cells.set t c }
    c.dropped = true ∧ executor.processEvent ctx e = if polls then executor.poll ctx₁ else .ok ctx₁

/--
The event is harmless to abandoned tasks. The completion of a dropped task changes nothing but its
own channel, and a raised event is given to the oldest waiter that is left, or buffered.
-/
def Harmless (executor : OrchestrationExecutorFuture) (ctx : OrchestrationExecutorContext)
    (e : HistoryEvent) : Prop :=
  match e.kind with
  | .resolve id _ _ polls => ∀ t, ctx.pendingTasks.lookup id = some t →
    ctx.world.alive t = false → executor.PassesOver ctx e id polls t
  | .raise r =>
    let name := executor.env.toLowercase r.name
    executor.Survives ctx e ∧
    match ctx.liveWaiters name with
    | [] => executor.processEvent ctx e = .ok (ctx.bufferEvent name r.input)
    | t :: rest => ∃ pendingEvents world,
      let ctx₁ := { ctx with pendingEvents, world }
      ctx.world.send t r.input = some world ∧ ctx₁.liveWaiters name = rest ∧
        (∀ name' ≠ name, ctx₁.liveWaiters name' = ctx.liveWaiters name') ∧
        executor.processEvent ctx e = executor.poll ctx₁
  | _ => True

/--
The event sends to nobody who is gone: it has no payload for a dropped task, and polls a running
program, and the waiter at the front of the queue is alive.
-/
def Reaches (executor : OrchestrationExecutorFuture) (ctx : OrchestrationExecutorContext)
    (e : HistoryEvent) : Prop :=
  match e.kind with
  | .resolve id payload _ polls => ∀ t, ctx.pendingTasks.lookup id = some t →
    ctx.world.alive t = false → payload = none ∧ (polls = true → ctx.running = true)
  | .raise r => ∀ t, (ctx.pendingEvents.get (executor.env.toLowercase r.name)).head? = some t →
    ctx.world.alive t = true
  | _ => True

theorem poll_error {p : Panic} (hc : ctx.isComplete = false) (hr : ctx.running = true)
    (h : self.poll ctx = .error p) : ∃ a, ctx.program = some a ∧ a.run self.env = .error p := by
  obtain ⟨base, f, hfn⟩ := running_iff.mp hr
  refine ⟨(f, { ctx.world with notified := false }), by rw [program, hfn], ?_⟩
  simp only [poll, hc, hfn, BoxFuture.pollUnpin] at h
  unfold Activation.run
  rcases hrun : (f.poll f.state).run (handle self.env) { ctx.world with notified := false }
    with p' | ⟨_ | _, w⟩ <;> rw [hrun] at h <;> cases h
  rfl

theorem program_of_not_running (hr : ctx.running = false) : ctx.program = none := by
  cases hp : ctx.program with
  | none => rfl
  | some a =>
    rw [running_of_program hp] at hr
    cases hr

section Dropped

variable {id : Int} {message : String} {polls : Bool} {t : TaskRef} {c : Cell}

theorem not_passesOver {v : String} (hk : e.kind = .resolve id (some v) message polls)
    (hl : ctx.pendingTasks.lookup id = some t) (ht : ctx.world.alive t = false) :
    ¬self.PassesOver ctx e id polls t := by
  have herr : ctx.resolveTask id (some v) message = .error (.expect message) := by
    simp [resolveTask, hl, World.send_none_iff.mpr ht]
  have hproc : self.processEvent ctx e = .error (.expect message) := by
    rw [processEvent_eq, hk]
    cases polls with
    | false => exact herr
    | true => simp only [processKind, resolveAndPoll, herr]
  rintro ⟨hs, -⟩
  obtain ⟨a, ha, -⟩ := hs _ hproc
  rw [hk] at ha
  cases polls with
  | false => cases ha
  | true =>
    simp only [activation, herr] at ha
    cases ha

theorem resolveTask_none (hl : ctx.pendingTasks.lookup id = some t)
    (hcell : ctx.world.cells[t]? = some c) :
    ctx.resolveTask id none message = .ok (ctx.closeTask id t c) := by
  have hdrop : (ctx.world.dropSender t) = { ctx.world with
      cells := ctx.world.cells.set t { c with task.unblockRx := .closed } } := by
    simp only [World.dropSender, List.modify_eq_set_getElem?, hcell]
    rfl
  simp only [resolveTask, hl, hdrop, closeTask]

theorem passesOver_iff (hc : ctx.isComplete = false) (hk : e.kind = .resolve id none message polls)
    (hl : ctx.pendingTasks.lookup id = some t) (hcell : ctx.world.cells[t]? = some c)
    (hd : c.dropped = true) :
    self.PassesOver ctx e id polls t ↔ (polls = true → ctx.running = true) := by
  have hres : ctx.resolveTask id none message = .ok (ctx.closeTask id t c) :=
    resolveTask_none hl hcell
  have hproc : self.processEvent ctx e =
      if polls then self.poll (ctx.closeTask id t c) else .ok (ctx.closeTask id t c) := by
    rw [processEvent_eq, hk]
    cases polls with
    | false => exact hres
    | true => simp only [processKind, resolveAndPoll, hres, if_true]
  have hactivation (hp : polls = true) :
      self.activation ctx e.kind = (ctx.closeTask id t c).program := by
    subst hp
    simp only [hk, activation, hres]
  have hc' : (ctx.closeTask id t c).isComplete = false := hc
  constructor
  · rintro ⟨hs, -⟩ hp
    by_contra hr
    rw [Bool.not_eq_true] at hr
    have hr' : (ctx.closeTask id t c).running = false := hr
    obtain ⟨p, herr⟩ : ∃ p, self.poll (ctx.closeTask id t c) = .error p :=
      poll_of_not_running hc' hr'
    obtain ⟨a, ha, -⟩ := hs p (by rw [hproc, if_pos hp, herr])
    rw [hactivation hp, program_of_not_running hr'] at ha
    cases ha
  · refine fun hr => ⟨fun p herr => ?_, { c with task.unblockRx := .closed }, hd, hproc⟩
    rw [hproc] at herr
    cases polls with
    | false => cases herr
    | true =>
      have hr' : (ctx.closeTask id t c).running = true := hr rfl
      obtain ⟨a, ha, hrun⟩ := poll_error hc' hr' herr
      exact ⟨a, (hactivation rfl).trans ha, hrun⟩

theorem resolve_harmless_iff {payload : Option String} (hc : ctx.isComplete = false)
    (hk : e.kind = .resolve id payload message polls) (hl : ctx.pendingTasks.lookup id = some t)
    (hcell : ctx.world.cells[t]? = some c) (hd : c.dropped = true) :
    self.PassesOver ctx e id polls t ↔
      payload = none ∧ (polls = true → ctx.running = true) := by
  cases payload with
  | some v =>
    have ht : ctx.world.alive t = false := by simp [World.alive, hcell, hd]
    exact iff_of_false (not_passesOver hk hl ht) fun h => by cases h.1
  | none => rw [passesOver_iff hc hk hl hcell hd, eq_self, true_and]

end Dropped

theorem raise_given {r : EventRaisedEvent} {t : TaskRef} {waiters : List TaskRef}
    (hc : ctx.isComplete = false) (ho : ctx.Owned) (hk : e.kind = .raise r)
    (hl : ctx.pendingEvents.lookup (self.env.toLowercase r.name) = some (t :: waiters))
    (ht : ctx.world.alive t = true) : self.Harmless ctx e := by
  obtain ⟨w, hs⟩ := World.send_of_alive (v := r.input) ht
  have halive := World.send_alive hs
  have hrun : ctx.running = true := by
    cases hr : ctx.running with
    | true => rfl
    | false =>
      rw [ho.send_none hr] at hs
      cases hs
  have hproc : self.processEvent ctx e = self.poll { ctx with
      pendingEvents := ctx.pendingEvents.pop (self.env.toLowercase r.name) (t :: waiters)
      world := w } := by
    simp only [processEvent_eq, hk, processKind, eventRaised, hl, List.head?_cons, hs]
  have hlive : ctx.liveWaiters (self.env.toLowercase r.name) =
      t :: waiters.filter ctx.world.alive := by
    rw [liveWaiters, Keyed.get_of_lookup hl, List.filter_cons_of_pos ht]
  simp only [Harmless, hk, hlive]
  refine ⟨fun p hp => ?_, _, w, hs, ?_, fun name' hne => ?_, hproc⟩
  · rw [hproc] at hp
    obtain ⟨a, ha, hrun⟩ := poll_error (by exact hc) (by exact hrun) hp
    refine ⟨a, ?_, hrun⟩
    simp only [hk, activation, hl, hs]
    exact ha
  · rw [liveWaiters, Keyed.get_pop, halive]
    rfl
  · rw [liveWaiters, Keyed.get_pop_ne hne, halive]
    rfl

theorem raise_unwrapped {r : EventRaisedEvent} {t : TaskRef} {waiters : List TaskRef}
    (hk : e.kind = .raise r)
    (hl : ctx.pendingEvents.lookup (self.env.toLowercase r.name) = some (t :: waiters))
    (ht : ctx.world.alive t = false) : ¬self.Harmless ctx e := by
  have hs : ctx.world.send t r.input = none := World.send_none_iff.mpr ht
  have hproc : self.processEvent ctx e = .error .deadWaiter := by
    simp only [processEvent_eq, hk, processKind, eventRaised, hl, List.head?_cons, hs]
  intro h
  simp only [Harmless, hk] at h
  obtain ⟨a, ha, -⟩ := h.1 _ hproc
  simp only [hk, activation, hl, hs] at ha
  cases ha

theorem raise_buffered {r : EventRaisedEvent} (hk : e.kind = .raise r)
    (hl : ctx.pendingEvents.lookup (self.env.toLowercase r.name) = none) : self.Harmless ctx e := by
  have hproc : self.processEvent ctx e =
      .ok (ctx.bufferEvent (self.env.toLowercase r.name) r.input) := by
    simp only [processEvent_eq, hk, processKind, eventRaised, hl]
  have hlive : ctx.liveWaiters (self.env.toLowercase r.name) = [] := by
    rw [liveWaiters, Keyed.get_of_lookup_none hl, List.filter_nil]
  simp only [Harmless, hk, hlive]
  refine ⟨fun p hp => ?_, hproc⟩
  rw [hproc] at hp
  cases hp

theorem harmless_iff (h : self.replay past = .ok ctx) :
    self.Harmless ctx e ↔ self.Reaches ctx e := by
  have hreg := replay_regular h
  cases hk : e.kind with
  | resolve id payload message polls =>
    have key (t : TaskRef) (hl : ctx.pendingTasks.lookup id = some t)
        (ht : ctx.world.alive t = false) : self.PassesOver ctx e id polls t ↔
          payload = none ∧ (polls = true → ctx.running = true) := by
      obtain ⟨c, a, hcell, -⟩ := hreg.linked.task (.inl hl)
      have hd : c.dropped = true := by simpa [World.alive, hcell] using ht
      exact resolve_harmless_iff hreg.incomplete hk hl hcell hd
    simp only [Harmless, Reaches, hk]
    constructor
    · intro hh t hl ht
      exact (key t hl ht).mp (hh t hl ht)
    · intro hh t hl ht
      exact (key t hl ht).mpr (hh t hl ht)
  | raise r =>
    cases hl : ctx.pendingEvents.lookup (self.env.toLowercase r.name) with
    | none =>
      simp only [raise_buffered hk hl, Reaches, hk, Keyed.get_of_lookup_none hl, true_iff]
      intro t ht
      cases ht
    | some waiters =>
      rcases waiters with _ | ⟨t, waiters⟩
      · exact absurd hl ((replay_queued h).waiters _)
      · simp only [Reaches, hk, Keyed.get_of_lookup hl, List.head?_cons, Option.some.injEq,
          forall_eq']
        constructor
        · intro hh
          by_contra ht
          exact raise_unwrapped hk hl (by simpa using ht) hh
        · exact raise_given hreg.incomplete (replay_owned h) hk hl
  | _ => simp [Harmless, Reaches, hk]

/--
Along every history, all events are harmless to abandoned tasks exactly if each of them reaches
whom it sends to: no completion has a payload for a dropped task, none that polls comes for one
when no program runs, and no dropped waiter is at the front of the queue of a raised event.
-/
theorem abandoned_harmless_iff (executor : OrchestrationExecutorFuture)
    (history : List HistoryEvent) :
    (∀ past e later ctx, history = past ++ e :: later → executor.replay past = .ok ctx →
        executor.Harmless ctx e) ↔
      executor.Throughout executor.Reaches (.new executor.env.budget) history := by
  rw [throughout_iff]
  constructor
  · intro hh past e later ctx hs h
    exact (harmless_iff h).mp (hh past e later ctx hs h)
  · intro hr past e later ctx hs h
    exact (harmless_iff h).mpr (hr past e later ctx hs h)

def raceTasks (s t : TaskRef) : OrchestratorProg (Progress (Option (TaskRef × TaskRef)) String) :=
  .step (.poll s) fun
    | .ready v => .step (.drop t) fun _ => .pure (.ready v)
    | .pending => .step (.poll t) fun
      | .ready v => .step (.drop s) fun _ => .pure (.ready v)
      | .pending => .pure (.suspended (some (s, t)))

def signalOrTimer (name : String) (fireAfterMillis : ℕ) : TaskFuture String where
  State := Option (TaskRef × TaskRef)
  state := none
  poll
    | none => .step (.awaitSignalEvent name) fun s =>
      .step (.createTimer fireAfterMillis) fun t => raceTasks s t
    | some (s, t) => raceTasks s t

def awaitTwice : OrchestratorFunction :=
  stringOrchestrator ((signalOrTimer "go" 1000).bind fun _ =>
    (awaitSignalEvent .ok "go").map fun r => r.map .output)

/--
The timer loses the race and fires; the signal loses it and is raised for the waiter behind it.
-/
theorem abandoned_unwrapped :
    (executorOf awaitTwice).execute [executionStarted, timerCreated 1]
      [eventRaisedEvent "go" (some "\"x\""), timerFired 1] =
        .error (.expect "failed to unblock timer") ∧
    (executorOf awaitTwice).execute [executionStarted, timerCreated 1]
      [timerFired 1, eventRaisedEvent "go" (some "\"x\"")] = .error .deadWaiter :=
  ⟨by decide, by decide⟩

end OrchestrationExecutorFuture

end DurableTask
