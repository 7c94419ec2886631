import DurableTask.Executor.Ledger
import DurableTask.Invariants.Linked
import DurableTask.Runtime.Orchestrators

/-! # Termination

`ExecutionTerminated` enters an action and leaves the program where it is: the
flag that every poll checks is never set. A later event that polls the program
can make it issue actions, and the first of them takes the id of the terminated
action. Where no later event polls, the terminated action stays.
-/

namespace DurableTask

open OrchestrationExecutorContext

namespace OrchestrationExecutorFuture

variable {self : OrchestrationExecutorFuture} {ctx ctx₀ ctx₁ ctx' : OrchestrationExecutorContext}
  {past later : List HistoryEvent} {e : HistoryEvent}

def terminatedAction (taskId : Int) : OrchestratorAction :=
  newCompleteOrchestrationAction taskId .terminated none [] none

/-- The event polls no program, sends nothing to a task and does not acknowledge the id. -/
def Leaves (executor : OrchestrationExecutorFuture) (id : Int) (ctx : OrchestrationExecutorContext)
    (e : HistoryEvent) : Prop :=
  executor.polls ctx e.kind = false ∧ ctx.sends e.kind = false ∧ e.kind ≠ .acknowledge id

instance (executor : OrchestrationExecutorFuture) (id : Int) (ctx : OrchestrationExecutorContext)
    (e : HistoryEvent) : Decidable (executor.Leaves id ctx e) :=
  inferInstanceAs (Decidable (_ ∧ _ ∧ _))

/-- The termination stands: its action is pending, and nothing was issued since. -/
structure Terminated (ctx₀ ctx : OrchestrationExecutorContext) : Prop where
  regular : ctx.Regular
  pending : ctx.pendingActions.lookup (ctx₀.sequenceNumber + 1) =
    some (terminatedAction (ctx₀.sequenceNumber + 1))
  le : ctx₀.sequenceNumber + 1 ≤ ctx.sequenceNumber
  old : ∀ id a, ctx.pendingActions.lookup id = some a → a.isComplete = false →
    ctx₀.pendingActions.lookup id = some a
  issued : ctx.world.issued = ctx₀.world.issued

theorem terminated_of_event (hr : ctx₀.Regular) (he : e.kind = .terminate)
    (h : self.processEvent ctx₀ e = .ok ctx₁) : Terminated ctx₀ ctx₁.drain := by
  obtain ⟨n, l, lost, hb⟩ := processEvent_entries hr.drained hr.incomplete h
  obtain ⟨rfl, rfl⟩ := hb.quiet (by simp [issues, activation, he])
  have hown : self.ownEntry ctx₀ e.kind = [(terminatedAction (ctx₀.sequenceNumber + 1)).entry] := by
    rw [he]
    rfl
  have hp := hb.pendingActions
  rw [hown, he] at hp
  have hs := hb.sequenceNumber
  rw [hown] at hs
  refine ⟨processEvent_regular hr h, ?_, Int.le_of_eq hs.symm, fun id a hl ha => ?_, ?_⟩
  · rw [hp]
    exact AList.lookup_insert _
  · exact hb.lookup_old ha hl
  · simpa using hb.issued

theorem Terminated.step (ht : Terminated ctx₀ ctx)
    (hl : self.Leaves (ctx₀.sequenceNumber + 1) ctx e) (h : self.processEvent ctx e = .ok ctx') :
    Terminated ctx₀ ctx'.drain := by
  obtain ⟨n, l, lost, hb⟩ := processEvent_entries ht.regular.drained ht.regular.incomplete h
  obtain ⟨rfl, rfl⟩ := hb.quiet (by simp [issues, activation_of_not_polls hl.1])
  exact {
    regular := processEvent_regular ht.regular h
    pending := (hb.lookup_eq ht.le hl.2.2).trans ht.pending
    le := Int.le_trans ht.le hb.sequenceNumber_le
    old := fun id a hl ha => ht.old id a (hb.lookup_old ha hl) ha
    issued := by simpa [ht.issued] using hb.issued }

theorem Terminated.next (ht : Terminated ctx₀ ctx)
    (hl : self.Leaves (ctx₀.sequenceNumber + 1) ctx e) :
    ∃ ctx', self.processEvent ctx e = .ok ctx' ∧ Terminated ctx₀ ctx'.drain := by
  obtain ⟨ctx', h⟩ := processEvent_total hl.1 hl.2.1
  exact ⟨ctx', h, ht.step hl h⟩

/--
After a termination that every later event leaves, `execute` returns the terminated action, and of
the other actions only some that were pending before it.
-/
theorem execute_terminated {oldEvents newEvents : List HistoryEvent}
    (h₀ : self.replay past = .ok ctx₀) (he : e.kind = .terminate)
    (h₁ : self.replay (past ++ [e]) = .ok ctx₁)
    (hl : self.Throughout (self.Leaves (ctx₀.sequenceNumber + 1)) ctx₁ later)
    (hevents : oldEvents ++ newEvents = past ++ e :: later) :
    ∃ actions, self.execute oldEvents newEvents = .ok actions ∧
      terminatedAction (ctx₀.sequenceNumber + 1) ∈ actions ∧
        ∀ a ∈ actions, a.isComplete = false → a ∈ ctx₀.getActions self.env := by
  have ht₁ : Terminated ctx₀ ctx₁ := by
    obtain ⟨ctx₂, he₂, rfl⟩ := replay_snoc h₀ h₁
    exact terminated_of_event (replay_regular h₀) he he₂
  obtain ⟨ctx, hr, ht⟩ := hl.total (fun _ _ ht hl => ht.next hl) ht₁
  have hrun : self.replay (oldEvents ++ newEvents) = .ok ctx := by
    rw [hevents, List.append_cons, replay, processEvents_append_ok h₁, hr]
  refine ⟨ctx.getActions self.env, ?_, mem_getActions.mpr ⟨_, ht.pending⟩, fun a ha hc => ?_⟩
  · rw [execute_eq, hrun]
    rfl
  · obtain ⟨id, hid⟩ := mem_getActions.mp ha
    exact mem_getActions.mpr ⟨id, ht.old id a hid hc⟩

theorem timer_after_termination :
    (executorOf sequenceOrchestration).execute [executionStarted, timerCreated 1]
      [executionTerminatedEvent] = .ok [terminatedAction 2] ∧
    (executorOf sequenceOrchestration).execute [executionStarted, timerCreated 1]
      [executionTerminatedEvent, timerFired 1] =
        .ok [newScheduleTaskAction 2 "test_activity" (some "\"test\"")] :=
  ⟨by decide, by decide⟩

theorem terminateTest_terminated : ∃ actions, (executorOf terminateTest).execute
    [executionStarted, timerCreated 1] [executionTerminatedEvent, eventRaisedEvent "x" none] =
      .ok actions ∧ terminatedAction 2 ∈ actions := by
  obtain ⟨ctx₀, h₀, hs⟩ := Except.exists_of_map
    (show ((executorOf terminateTest).replay [executionStarted, timerCreated 1]).map
      (fun ctx => ctx.sequenceNumber) = .ok 1 by decide)
  obtain ⟨ctx₁, h₁, hl⟩ := Except.exists_of_map
    (show ((executorOf terminateTest).replay
      ([executionStarted, timerCreated 1] ++ [executionTerminatedEvent])).map (fun ctx =>
        decide ((executorOf terminateTest).Throughout ((executorOf terminateTest).Leaves 2) ctx
          [eventRaisedEvent "x" none])) = .ok true by decide)
  obtain ⟨actions, h, ht, -⟩ := execute_terminated h₀ rfl h₁
    (by rw [hs]; exact of_decide_eq_true hl) (show [executionStarted, timerCreated 1] ++
        [executionTerminatedEvent, eventRaisedEvent "x" none] =
      [executionStarted, timerCreated 1] ++ _ from rfl)
  rw [hs] at ht
  exact ⟨actions, h, ht⟩

end OrchestrationExecutorFuture

end DurableTask
