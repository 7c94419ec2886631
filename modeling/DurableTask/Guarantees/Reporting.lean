import DurableTask.Guarantees.Termination

/-! # Reporting

Three arms poll the program and see its result. The shared poll turns it into
an action. `ExecutionStarted` and `ExecutionCompleted` throw it away, and the
action of the shared poll is overwritten if the program issues a task in the
poll in which it returns. Away from these every result is reported.
-/

namespace DurableTask

open OrchestrationExecutorContext

namespace OrchestrationExecutorFuture

variable {self : OrchestrationExecutorFuture} {ctx ctx₀ ctx' : OrchestrationExecutorContext}
  {past later : List HistoryEvent} {e : HistoryEvent} {k : EventKind}
  {r : OrchestratorResult String}

def spares (ctx : OrchestrationExecutorContext) : EventKind → Bool
  | .resolve id (some _) _ _ => (ctx.pendingTasks.lookup id).isNone
  | .acknowledge id => ctx.world.returned.all fun r =>
    ctx.pendingActions.lookup id ≠ some (completionAction id r)
  | _ => true

/--
A poll that returns is made by the shared poll and issues nothing; after it no event polls,
unblocks a task or acknowledges the report.
-/
def Reports (executor : OrchestrationExecutorFuture) (ctx : OrchestrationExecutorContext)
    (e : HistoryEvent) : Prop :=
  ((executor.returns ctx e.kind).isSome →
    e.kind.isStart = false ∧ e.kind ≠ .complete ∧ executor.issues ctx e.kind = false) ∧
  (ctx.world.returned ≠ [] → executor.polls ctx e.kind = false ∧ spares ctx e.kind = true)

instance (executor : OrchestrationExecutorFuture) (ctx : OrchestrationExecutorContext)
    (e : HistoryEvent) : Decidable (executor.Reports ctx e) :=
  inferInstanceAs (Decidable (_ ∧ _))

/-- Everything that was returned is pending as an action. -/
structure Reported (ctx : OrchestrationExecutorContext) : Prop where
  regular : ctx.Regular
  pending : ∀ r ∈ ctx.world.returned, ∃ id, id ≤ ctx.sequenceNumber ∧
    ctx.pendingActions.lookup id = some (completionAction id r)

theorem Reported.step (h : Reported ctx) (hk : self.Reports ctx e)
    (he : self.processEvent ctx e = .ok ctx') : Reported ctx'.drain := by
  obtain ⟨n, l, lost, hb⟩ := processEvent_entries h.regular.drained h.regular.incomplete he
  refine ⟨processEvent_regular h.regular he, ?_⟩
  rw [hb.returned]
  by_cases hn : ctx.world.returned = []
  · rw [hn, List.nil_append]
    intro r hr
    have hret : self.returns ctx e.kind = some r := Option.mem_toList.mp hr
    obtain ⟨hs, hc, hi⟩ := hk.1 (by simp [hret])
    obtain ⟨rfl, rfl⟩ := hb.quiet hi
    have hown := self.ownEntry_of_returns hret hs hc
    refine ⟨ctx.sequenceNumber + 1, ?_, ?_⟩
    · rw [hb.sequenceNumber, hown]
      exact Int.le_refl _
    · rw [hb.pendingActions, hown, completionAction_entry]
      exact AList.lookup_insert _
  · obtain ⟨hp, hspares⟩ := hk.2 hn
    have ha := activation_of_not_polls hp
    obtain ⟨rfl, rfl⟩ := hb.quiet (by simp [issues, ha])
    have hret : self.returns ctx e.kind = none := by simp [returns, ha]
    rw [hret, Option.toList_none, List.append_nil]
    intro r hr
    obtain ⟨id, hle, hl⟩ := h.pending r hr
    refine ⟨id, Int.le_trans hle hb.sequenceNumber_le, (hb.lookup_eq hle fun hack => ?_).trans hl⟩
    rw [hack, spares, List.all_eq_true] at hspares
    simpa [hl] using hspares r hr

theorem not_sends_of_spares (h : spares ctx k = true) : ctx.sends k = false := by
  cases k with
  | resolve id payload message polls =>
    cases payload with
    | none => rfl
    | some v => simpa [spares, sends] using h
  | _ => rfl

theorem mem_returned_step (h : ctx.Regular ∧ r ∈ ctx.world.returned)
    (he : self.processEvent ctx e = .ok ctx') :
    ctx'.drain.Regular ∧ r ∈ ctx'.drain.world.returned := by
  obtain ⟨n, l, lost, hb⟩ := processEvent_entries h.1.drained h.1.incomplete he
  refine ⟨processEvent_regular h.1 he, ?_⟩
  rw [hb.returned]
  exact List.mem_append_left _ h.2

theorem mem_returned_next (h : ctx.Regular ∧ r ∈ ctx.world.returned) (hk : self.Reports ctx e) :
    ∃ ctx', self.processEvent ctx e = .ok ctx' ∧
      ctx'.drain.Regular ∧ r ∈ ctx'.drain.world.returned := by
  obtain ⟨hp, hs⟩ := hk.2 (List.ne_nil_of_mem h.2)
  obtain ⟨ctx', he⟩ := processEvent_total hp (not_sends_of_spares hs)
  exact ⟨ctx', he, mem_returned_step h he⟩

/--
If every event of a history meets the condition, what the program has returned after some of them
is in the list that `execute` returns.
-/
theorem execute_reports {oldEvents newEvents : List HistoryEvent} (h₀ : self.replay past = .ok ctx₀)
    (hr : r ∈ ctx₀.world.returned)
    (hk : self.Throughout self.Reports (.new self.env.budget) (past ++ later))
    (hevents : oldEvents ++ newEvents = past ++ later) :
    ∃ actions id, self.execute oldEvents newEvents = .ok actions ∧
      completionAction id r ∈ actions := by
  obtain ⟨ctx, h, -, hr'⟩ := (hk.right h₀).total (fun _ _ hr hk => mem_returned_next hr hk)
    ⟨replay_regular h₀, hr⟩
  have hrun : self.replay (past ++ later) = .ok ctx := by
    rw [replay, processEvents_append_ok h₀, h]
  have hrep : Reported ctx :=
    hk.preserves (fun _ _ _ hrep hk he => hrep.step hk he)
      ⟨regular_new _, fun _ hr => by simp [new] at hr⟩ hrun
  obtain ⟨id, -, hl⟩ := hrep.pending r hr'
  refine ⟨ctx.getActions self.env, id, ?_, mem_getActions.mpr ⟨id, hl⟩⟩
  rw [execute_eq, hevents, hrun]
  rfl

theorem result_dropped :
    ((executorOf test2).replay [executionStarted]).map (fun ctx => ctx.world.returned) =
      .ok [.ok (.output "\"hello\"")] ∧
    (executorOf test2).execute [] [executionStarted] = .ok [] :=
  ⟨by decide, by decide⟩

theorem testOrchestration_reports : ∃ actions id, (executorOf testOrchestration).execute
    [executionStarted, taskScheduled 1] [taskCompleted 1 (some "\"x\"")] = .ok actions ∧
      completionAction id (.ok (.output "\"hello\"")) ∈ actions := by
  obtain ⟨ctx₀, h₀, hr⟩ := Except.exists_of_map
    (show ((executorOf testOrchestration).replay
      [executionStarted, taskScheduled 1, taskCompleted 1 (some "\"x\"")]).map
        (fun ctx => ctx.world.returned) = .ok [.ok (.output "\"hello\"")] by decide)
  exact execute_reports h₀ (hr ▸ List.mem_singleton_self _)
    (show (executorOf testOrchestration).Throughout _ _
      ([executionStarted, taskScheduled 1, taskCompleted 1 (some "\"x\"")] ++ []) by decide) rfl

end OrchestrationExecutorFuture

end DurableTask
