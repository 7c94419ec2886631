import DurableTask.Guarantees.Termination
import DurableTask.Invariants.Owned

/-! # After the return

A program that has returned must not be polled again, and its tasks are gone.
The executor keeps the finished future and polls it with every completion, so a
history goes on after the return only as long as its events leave it alone.
-/

namespace DurableTask

open OrchestrationExecutorContext

namespace OrchestrationExecutorFuture

variable {self : OrchestrationExecutorFuture} {ctx ctx' : OrchestrationExecutorContext}
  {past later history : List HistoryEvent} {e : HistoryEvent}

/-- The program has returned, and the event does not start another one. -/
def Late (executor : OrchestrationExecutorFuture) (ctx : OrchestrationExecutorContext)
    (e : HistoryEvent) : Prop :=
  ctx.world.returned ≠ [] ∧ ctx.running = false ∧ executor.starts e.kind = false

instance (executor : OrchestrationExecutorFuture) (ctx : OrchestrationExecutorContext)
    (e : HistoryEvent) : Decidable (executor.Late ctx e) :=
  inferInstanceAs (Decidable (_ ∧ _))

/-- An event that comes late has no arm that polls, and no payload for a task in the map. -/
def LeavesFinished (executor : OrchestrationExecutorFuture) (ctx : OrchestrationExecutorContext)
    (e : HistoryEvent) : Prop :=
  executor.Late ctx e → executor.polls ctx e.kind = false ∧ ctx.sends e.kind = false

instance (executor : OrchestrationExecutorFuture) (ctx : OrchestrationExecutorContext)
    (e : HistoryEvent) : Decidable (executor.LeavesFinished ctx e) :=
  inferInstanceAs (Decidable (_ → _))

theorem late_processed_iff (h : self.replay past = .ok ctx) (hl : self.Late ctx e) :
    (∃ ctx', self.processEvent ctx e = .ok ctx') ↔
      self.polls ctx e.kind = false ∧ ctx.sends e.kind = false :=
  processEvent_ok_iff (replay_isComplete h) (replay_owned h) hl.2.1 hl.2.2

theorem Late.step (hr : ctx.Regular) (hl : self.Late ctx e)
    (he : self.processEvent ctx e = .ok ctx') :
    ctx'.drain.world.returned ≠ [] ∧ ctx'.drain.running = false := by
  obtain ⟨hret, hrun, hstart⟩ := hl
  obtain ⟨n, l, lost, hb⟩ := processEvent_entries hr.drained hr.incomplete he
  constructor
  · rw [hb.returned]
    exact List.append_ne_nil_of_left_ne_nil hret _
  · rw [drain_running]
    have ht := processEvent_turn hr.incomplete he
    cases hrun' : ctx'.running with
    | false => rfl
    | true =>
      rcases ht.running hrun' with hs | hr'
      · -- the event names an orchestrator that is not registered
        obtain ⟨s, hk⟩ := HistoryEvent.isStart_iff.mp hs
        rw [hk] at hstart ht
        obtain rfl | ⟨func, w, hreg, -⟩ := ht.start_cases
        · rw [hrun] at hrun'
          cases hrun'
        · simp [starts, hreg] at hstart
      · rw [hrun] at hr'
        cases hr'

theorem processEvents_late (h : self.replay past = .ok ctx) (hret : ctx.world.returned ≠ [])
    (hrun : ctx.running = false) (hs : ∀ e ∈ later, self.starts e.kind = false)
    (hk : self.Throughout self.LeavesFinished ctx later) :
    ∃ ctx', self.processEvents ctx later = .ok ctx' := by
  induction later generalizing past ctx with
  | nil => exact ⟨ctx, rfl⟩
  | cons e later ih =>
    have hl : self.Late ctx e := ⟨hret, hrun, hs e List.mem_cons_self⟩
    obtain ⟨ctx₁, he⟩ := (late_processed_iff h hl).mpr (hk.1 hl)
    have hk' := hk.2
    rw [he] at hk'
    rw [processEvents_cons_ok he]
    obtain ⟨hret₁, hrun₁⟩ := hl.step (replay_regular h) he
    exact ih (replay_append_ok h he) hret₁ hrun₁
      (fun e' he' => hs e' (List.mem_cons_of_mem _ he')) hk'

/--
After the return every event of a history is processed exactly if each of them leaves the finished
program and its tasks alone; a history without a further start then ends without a panic.
-/
theorem replay_finished_iff (history : List HistoryEvent) :
    ((∀ past e later ctx, history = past ++ e :: later → self.replay past = .ok ctx →
        self.Late ctx e → ∃ ctx', self.processEvent ctx e = .ok ctx') ↔
      self.Throughout self.LeavesFinished (.new self.env.budget) history) ∧
    (self.Throughout self.LeavesFinished (.new self.env.budget) history →
      ∀ past later ctx, history = past ++ later → self.replay past = .ok ctx →
        ctx.world.returned ≠ [] → ctx.running = false →
        (∀ e ∈ later, self.starts e.kind = false) → ∃ ctx', self.replay history = .ok ctx') := by
  refine ⟨?_, fun hk past later ctx hs h hret hrun hstart => ?_⟩
  · rw [throughout_iff]
    constructor
    · intro hp past e later ctx hs h hl
      exact (late_processed_iff h hl).mp (hp past e later ctx hs h hl)
    · intro hk past e later ctx hs h hl
      exact (late_processed_iff h hl).mpr (hk past e later ctx hs h hl)
  · subst hs
    obtain ⟨ctx', h'⟩ := processEvents_late h hret hrun hstart (hk.right h)
    exact ⟨ctx', by rw [replay, processEvents_append_ok h, h']⟩

theorem finished_polled_again :
    (executorOf testOrchestration).execute [executionStarted, taskScheduled 1]
      [taskCompleted 1 (some "\"x\""), taskCompleted 1 (some "\"x\"")] = .error .polledAfterReady ∧
    (executorOf testOrchestration).execute [executionStarted, taskScheduled 1]
      [taskCompleted 1 (some "\"x\""), historyEvent .executionCompleted] =
        .error .polledAfterReady :=
  ⟨by decide, by decide⟩

end OrchestrationExecutorFuture

end DurableTask
