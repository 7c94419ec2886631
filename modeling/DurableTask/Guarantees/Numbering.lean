import DurableTask.Guarantees.Termination

/-! # One id space, two counters

The program and the executor number their actions apart. The executor's counter
follows the program's only when the channel is drained, and the program is never
told about an id that the executor took. As long as the program issues nothing
after a termination, and nothing in the poll in which it returns, all ids
together are consecutive.
-/

namespace DurableTask

open OrchestrationExecutorContext

namespace OrchestrationExecutorFuture

variable {self : OrchestrationExecutorFuture} {ctx ctx₀ ctx₁ ctx' : OrchestrationExecutorContext}
  {past later history : List HistoryEvent} {e : HistoryEvent} {log : List OrchestratorAction}

/--
The program issues no action once it was terminated, and none in a poll in which it returns,
unless that poll is the one of `ExecutionCompleted`.
-/
def Apart (executor : OrchestrationExecutorFuture) (ctx : OrchestrationExecutorContext)
    (e : HistoryEvent) : Prop :=
  executor.issues ctx e.kind = true → ctx.completionStatus ≠ .terminated ∧
    ((executor.returns ctx e.kind).isSome → e.kind = .complete)

instance (executor : OrchestrationExecutorFuture) (ctx : OrchestrationExecutorContext)
    (e : HistoryEvent) : Decidable (executor.Apart ctx e) :=
  inferInstanceAs (Decidable (_ → _))

/-- All actions of both sides in the order in which they were entered: their ids have no gap. -/
structure Booked (past : List HistoryEvent) (ctx : OrchestrationExecutorContext)
    (log : List OrchestratorAction) : Prop where
  inserted : ctx.inserted = log.map OrchestratorAction.entry
  numbered : Numbered 0 log
  counter : ctx.sequenceNumber = log.length
  issued : ctx.world.issued = log.filter fun a => !a.isComplete
  level : ctx.running = true ∨ past.countP HistoryEvent.isStart = 0 →
    ctx.completionStatus ≠ .terminated → ctx.world.octx.sequenceNumber = ctx.sequenceNumber

theorem ownEntry_log (executor : OrchestrationExecutorFuture) (ctx : OrchestrationExecutorContext)
    (k : EventKind) : ∃ own : List OrchestratorAction,
      executor.ownEntry ctx k = own.map OrchestratorAction.entry ∧
        Numbered ctx.sequenceNumber own ∧ ∀ a ∈ own, a.isComplete = true := by
  rcases executor.ownEntry_cases ctx k with ho | ⟨a, ha, hc, ho⟩
  · exact ⟨[], ho, .nil, by simp⟩
  · refine ⟨[a], ho, fun k b hk => ?_, by simpa using hc⟩
    obtain ⟨hlt, rfl⟩ := List.getElem?_eq_some_iff.mp hk
    simp only [List.length_singleton] at hlt
    simp [show k = 0 by omega, ha]

theorem ownEntry_of_issues {k : EventKind} (hi : self.issues ctx k = true)
    (hr : (self.returns ctx k).isSome → k = .complete) : self.ownEntry ctx k = [] := by
  cases k with
  | terminate => cases hi
  | start e => rfl
  | complete => rfl
  | _ =>
    simp only [reduceCtorEq, imp_false, Option.not_isSome_iff_eq_none] at hr
    simp [ownEntry, hr]

theorem ownEntry_of_running {k : EventKind} (ht : self.Turn ctx k ctx') (hr : ctx'.running = true)
    (hk : k ≠ .terminate) : self.ownEntry ctx k = [] := by
  cases hs : k.isStart with
  | true => cases k <;> simp_all [EventKind.isStart, ownEntry]
  | false => exact self.ownEntry_of_returns_none hk (ht.returns_none hr hs)

theorem ownEntry_of_unstarted {k : EventKind} (hu : ctx.Unstarted) (hk : k ≠ .terminate) :
    self.ownEntry ctx k = [] := by
  cases hs : k.isStart with
  | true => cases k <;> simp_all [EventKind.isStart, ownEntry]
  | false =>
    apply self.ownEntry_of_returns_none hk
    cases ha : self.activation ctx k with
    | none => simp [returns, ha]
    | some a =>
      have hrun := running_of_activation ha hs
      simp [OrchestrationExecutorContext.running, hu.orchestratorFn] at hrun

section Turn

variable {own l lost : List OrchestratorAction} {n : Int} (h : Booked past ctx log)
  (hb : self.Entries ctx e.kind ctx' n l lost)
  (hu : past.countP HistoryEvent.isStart = 0 → ctx.Unstarted)
  (hs : e.isStart → past.countP HistoryEvent.isStart = 0)

include h hb hu hs

theorem Booked.base (hrun : ctx.running = true ∨ past.countP HistoryEvent.isStart = 0)
    (hst : ctx.completionStatus ≠ .terminated) : n = ctx.sequenceNumber := by
  have hlevel := h.level hrun hst
  rcases hb.base with hn | ⟨hn, hstart⟩
  · exact hn.trans hlevel
  · rw [(hu (hs hstart)).octx] at hlevel
    exact hn.trans hlevel

theorem Booked.follows (hk : self.Apart ctx e)
    (hown : self.ownEntry ctx e.kind = own.map OrchestratorAction.entry) :
    Numbered (log ++ own).length l := by
  by_cases hne : l = []
  · exact hne ▸ .nil
  have hi : self.issues ctx e.kind = true := by
    cases hq : self.issues ctx e.kind with
    | true => rfl
    | false => exact absurd (hb.quiet hq).1 hne
  obtain ⟨a, ha, -⟩ : ∃ a, self.activation ctx e.kind = some a ∧ a.issues self.env = true := by
    simpa [issues, Option.any_eq_true] using hi
  have hactive : ctx.running = true ∨ past.countP HistoryEvent.isStart = 0 := by
    cases hstart : e.kind.isStart with
    | true => exact .inr (hs hstart)
    | false => exact .inl (running_of_activation ha hstart)
  rw [ownEntry_of_issues hi (hk hi).2] at hown
  rw [List.map_eq_nil_iff.mp hown.symm, List.append_nil, ← h.counter,
    ← h.base hb hu hs hactive (hk hi).1]
  exact hb.numbered

theorem Booked.levelled (ht : self.Turn ctx e.kind ctx₁) (hctx : ctx'.running = ctx₁.running)
    (hrun : ctx'.running = true ∨ (past ++ [e]).countP HistoryEvent.isStart = 0)
    (hst : ctx'.completionStatus ≠ .terminated) :
    ctx'.world.octx.sequenceNumber = (log ++ l).length ∧ self.ownEntry ctx e.kind = [] := by
  have hnt : e.kind ≠ .terminate ∧ ctx.completionStatus ≠ .terminated := by
    rw [hb.completionStatus] at hst
    split at hst
    · exact absurd rfl hst
    · exact ⟨by assumption, hst⟩
  rw [hctx] at hrun
  obtain ⟨hrun₀, hnone⟩ : (ctx.running = true ∨ past.countP HistoryEvent.isStart = 0) ∧
      self.ownEntry ctx e.kind = [] := by
    rcases hrun with hrun | hcount
    · exact ⟨(ht.running hrun).symm.imp_right hs, ownEntry_of_running ht hrun hnt.1⟩
    · rw [List.countP_append, Nat.add_eq_zero_iff, List.countP_singleton] at hcount
      exact ⟨.inr hcount.1, ownEntry_of_unstarted (hu hcount.1) hnt.1⟩
  refine ⟨?_, hnone⟩
  rw [hb.counter, h.base hb hu hs hrun₀ hnt.2, h.counter]
  simp

end Turn

theorem Booked.step (h : Booked past ctx log) (hr : ctx.Regular)
    (hu : past.countP HistoryEvent.isStart = 0 → ctx.Unstarted)
    (hs : e.isStart → past.countP HistoryEvent.isStart = 0) (hk : self.Apart ctx e)
    (he : self.processEvent ctx e = .ok ctx') : ∃ log', Booked (past ++ [e]) ctx'.drain log' := by
  obtain ⟨n, l, lost, hb⟩ := processEvent_entries hr.drained hr.incomplete he
  obtain rfl : lost = [] := by
    by_contra hne
    obtain ⟨hstart, hi, hret⟩ := hb.lost_of hne
    rw [(hk hi).2 hret] at hstart
    cases hstart
  obtain ⟨own, hown, hnum, hcomp⟩ := ownEntry_log self ctx e.kind
  have hl := h.follows hb hu hs hk hown
  have hcounter : ctx'.drain.sequenceNumber = (log ++ own ++ l).length := by
    rw [hb.sequenceNumber, hown, List.length_map, h.counter, ← Int.natCast_add,
      ← List.length_append, hl.counterAfter (Int.natCast_nonneg _),
      ← Int.natCast_add, ← List.length_append]
  have hown' : own.filter (fun a => !a.isComplete) = [] :=
    List.filter_eq_nil_iff.mpr (by simpa using hcomp)
  have hl' : l.filter (fun a => !a.isComplete) = l :=
    List.filter_eq_self.mpr (by simpa using hb.incomplete)
  refine ⟨log ++ own ++ l, ?_, ?_, hcounter, ?_, fun hrun hst => ?_⟩
  · rw [hb.inserted, hown, h.inserted]
    simp
  · refine (h.numbered.append ?_).append ?_
    · rw [Int.zero_add, ← h.counter]
      exact hnum
    · rw [Int.zero_add]
      exact hl
  · rw [hb.issued, h.issued, List.append_nil, List.filter_append, List.filter_append, hown', hl',
      List.append_nil]
  · obtain ⟨hlevel, hnone⟩ := h.levelled hb hu hs (processEvent_turn hr.incomplete he)
      drain_running hrun hst
    rw [hown, List.map_eq_nil_iff] at hnone
    rw [hcounter, hnone, List.append_nil, hlevel]

theorem replay_booked (h : self.replay history = .ok ctx)
    (hone : history.countP HistoryEvent.isStart ≤ 1)
    (hk : self.Throughout self.Apart (.new self.env.budget) history) :
    ∃ log, Booked history ctx log := by
  revert hk
  refine replay_induct (P := fun history ctx =>
    self.Throughout self.Apart (.new self.env.budget) history → ∃ log, Booked history ctx log)
    hone ?_ ?_ h
  · exact fun _ => ⟨[], rfl, .nil, rfl, rfl, fun _ _ => rfl⟩
  · intro past e ctx₁ ctx₂ hr ih hs he hk
    obtain ⟨log, hlog⟩ := ih hk.left
    exact hlog.step (replay_regular hr) (fun hn => replay_unstarted hn hr) hs (hk.right hr).1 he

theorem Booked.nodup (h : Booked past ctx log) : (ctx.inserted.map Prod.fst).Nodup := by
  rw [h.inserted, List.map_map]
  exact h.numbered.nodup

theorem lookup_stays {m : Int × OrchestratorAction} (h₁ : self.replay past = .ok ctx₁)
    (h : self.replay (past ++ later) = .ok ctx)
    (hone : (past ++ later).countP HistoryEvent.isStart ≤ 1)
    (hk : self.Throughout self.Apart (.new self.env.budget) (past ++ later))
    (hm : m ∈ ctx₁.inserted) (hl : ctx₁.pendingActions.lookup m.1 = some m.2)
    (hack : ∀ e ∈ later, e.kind ≠ .acknowledge m.1) : ctx.pendingActions.lookup m.1 = some m.2 := by
  induction later generalizing past ctx₁ with
  | nil =>
    rw [List.append_nil, h₁] at h
    cases h
    exact hl
  | cons e later ih =>
    rw [List.append_cons] at h hone hk
    obtain ⟨ctx₂, h₂, -⟩ := processEvents_split h
    obtain ⟨log, hlog⟩ := replay_booked h₂
      (Nat.le_trans (List.Sublist.countP_le (List.sublist_append_left _ _)) hone) hk.left
    obtain ⟨ctx₃, he, rfl⟩ := replay_snoc h₁ h₂
    have hr := replay_regular h₁
    obtain ⟨n, l, lost, hb⟩ := processEvent_entries hr.drained hr.incomplete he
    refine ih h₂ h hone hk ?_ ?_ fun e' he' => hack e' (List.mem_cons_of_mem _ he')
    · rw [hb.inserted, List.append_assoc]
      exact List.mem_append_left _ hm
    · rw [hb.lookup_kept hlog.nodup hm (hack e List.mem_cons_self), hl]

/--
In a run with one start in which the program keeps apart, no id is taken twice, whatever the side,
everything issued is entered, and what an event enters is returned unless it is acknowledged later.
-/
theorem replay_numbered (h : self.replay history = .ok ctx)
    (hone : history.countP HistoryEvent.isStart ≤ 1)
    (hk : self.Throughout self.Apart (.new self.env.budget) history) :
    (∀ m ∈ ctx.inserted, m.2.isComplete = true → ∀ a ∈ ctx.world.issued, m.1 ≠ a.id) ∧
    (ctx.inserted.map Prod.fst).Nodup ∧ (∀ a ∈ ctx.world.issued, a.entry ∈ ctx.inserted) ∧
    ∀ past e later ctx₀ ctx₁ m, history = past ++ e :: later → self.replay past = .ok ctx₀ →
      self.replay (past ++ [e]) = .ok ctx₁ → m ∈ ctx₁.inserted → m ∉ ctx₀.inserted →
      (∀ e' ∈ later, e'.kind ≠ .acknowledge m.1) → m.2 ∈ ctx.getActions self.env := by
  obtain ⟨log, hlog⟩ := replay_booked h hone hk
  have hmem {a : OrchestratorAction} (ha : a ∈ ctx.world.issued) :
      a ∈ log ∧ a.isComplete = false := by
    rw [hlog.issued, List.mem_filter] at ha
    exact ⟨ha.1, by simpa using ha.2⟩
  have hentry {a : OrchestratorAction} (ha : a ∈ ctx.world.issued) : a.entry ∈ ctx.inserted :=
    hlog.inserted ▸ List.mem_map_of_mem (hmem ha).1
  refine ⟨fun m hm hc a ha hid => ?_, hlog.nodup, fun a ha => hentry ha, ?_⟩
  · have hma : m = a.entry := List.inj_on_of_nodup_map hlog.nodup hm (hentry ha) hid
    rw [hma, show a.entry.2 = a from rfl, (hmem ha).2] at hc
    cases hc
  · rintro past e later ctx₀ ctx₁ m rfl h₀ h₁ hm hm' hack
    rw [List.append_cons] at h hone hk
    obtain ⟨log₁, hlog₁⟩ := replay_booked h₁
      (Nat.le_trans (List.Sublist.countP_le (List.sublist_append_left _ _)) hone) hk.left
    have hr := replay_regular h₀
    obtain ⟨ctx₂, he, rfl⟩ := replay_snoc h₀ h₁
    obtain ⟨n, l, lost, hb⟩ := processEvent_entries hr.drained hr.incomplete he
    exact mem_getActions.mpr
      ⟨m.1, lookup_stays h₁ h hone hk hm (hb.lookup_new hlog₁.nodup hm hm') hack⟩

def fireAndForget : OrchestratorFunction :=
  stringOrchestrator ((createTimer 10000).bind fun _ => {
    State := Unit
    state := ()
    poll := fun _ => .step (.scheduleActivity "test_activity" none) fun _ =>
      .pure (.ready (.ok (.output ""))) })

/--
The id of the termination is taken again by the activity that the timer wakes, and the id of a
completion by the activity that was started in the same poll: the later entry replaces the other.
-/
theorem ids_taken_twice :
    ((executorOf sequenceOrchestration).replay [executionStarted, timerCreated 1,
      executionTerminatedEvent, timerFired 1]).map (fun ctx => ctx.inserted.map Prod.fst) =
        .ok [1, 2, 2] ∧
    (executorOf sequenceOrchestration).execute [executionStarted, timerCreated 1]
      [executionTerminatedEvent, timerFired 1] =
        .ok [newScheduleTaskAction 2 "test_activity" (some "\"test\"")] ∧
    ((executorOf fireAndForget).replay [executionStarted, timerCreated 1, timerFired 1]).map
      (fun ctx => ctx.inserted.map Prod.fst) = .ok [1, 2, 2] ∧
    (executorOf fireAndForget).execute [executionStarted, timerCreated 1] [timerFired 1] =
      .ok [newScheduleTaskAction 2 "test_activity" none] :=
  ⟨by decide, by decide, by decide, by decide⟩

theorem testOrchestration_numbered : ∃ ctx, (executorOf testOrchestration).replay
    [executionStarted, taskScheduled 1, taskCompleted 1 (some "\"x\"")] = .ok ctx ∧
      (ctx.inserted.map Prod.fst).Nodup ∧ ctx.inserted.length = 2 := by
  obtain ⟨ctx, h, hl⟩ := Except.exists_of_map
    (show ((executorOf testOrchestration).replay
      [executionStarted, taskScheduled 1, taskCompleted 1 (some "\"x\"")]).map
        (fun ctx => ctx.inserted.length) = .ok 2 by decide)
  have hn := replay_numbered h (by decide) (by decide)
  exact ⟨ctx, h, hn.2.1, hl⟩

end OrchestrationExecutorFuture

end DurableTask
