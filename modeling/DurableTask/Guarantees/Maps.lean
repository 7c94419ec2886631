import DurableTask.Executor.Senders
import DurableTask.Runtime.Orchestrators

/-! # The maps say what the history says

While no program has returned, the two maps of the executor are functions of the
history: a task is in them from the event that creates it to the first later
event that names it, the actions by acknowledgements and the senders by
completions.
-/

namespace DurableTask

open OrchestrationExecutorContext

namespace OrchestrationExecutorFuture

variable {self : OrchestrationExecutorFuture} {ctx ctx₀ ctx₁ ctx' : OrchestrationExecutorContext}
  {past later history : List HistoryEvent} {e : HistoryEvent} {P : EventKind → Prop} {i : Int}
  {l : List OrchestratorAction}

/-- No event of a kind was processed after the event that created the task with this id. -/
def Unnamed (executor : OrchestrationExecutorFuture) (P : EventKind → Prop)
    (past : List HistoryEvent) (i : Int) : Prop :=
  ∀ before e after ctx₀, past = before ++ e :: after → executor.replay before = .ok ctx₀ →
    i ≤ ctx₀.world.issued.length → ¬P e.kind

/-- The executor's numbers and maps are those of the tasks that the program has created. -/
structure Mirrors (executor : OrchestrationExecutorFuture) (past : List HistoryEvent)
    (ctx : OrchestrationExecutorContext) : Prop where
  numbered : Numbered 0 ctx.world.issued
  sequenceNumber : ctx.sequenceNumber = ctx.world.issued.length
  mem_pendingActions : ∀ i, i ∈ ctx.pendingActions ↔ 1 ≤ i ∧ i ≤ ctx.world.issued.length ∧
    executor.Unnamed (· = .acknowledge i) past i
  lookup_pendingActions : ∀ i a, ctx.pendingActions.lookup i = some a →
    a.id = i ∧ ∃ k : ℕ, i = k + 1 ∧ ctx.world.issued[k]? = some a
  mem_pendingTasks : ∀ i, i ∈ ctx.pendingTasks ↔ 1 ≤ i ∧ i ≤ ctx.world.issued.length ∧
    executor.Unnamed (EventKind.Names i) past i

theorem unnamed_append (h : self.replay past = .ok ctx) :
    self.Unnamed P (past ++ [e]) i ↔
      self.Unnamed P past i ∧ (i ≤ ctx.world.issued.length → ¬P e.kind) := by
  constructor
  · intro hn
    constructor
    · rintro before e' after ctx₀ rfl hr hi
      exact hn before e' (after ++ [e]) ctx₀ (by simp) hr hi
    · exact hn past e [] ctx rfl h
  · rintro ⟨hn, he⟩ before e' after ctx₀ hsplit hr hi
    rcases List.eq_nil_or_concat after with rfl | ⟨after, e'', rfl⟩
    · obtain ⟨rfl, hee⟩ := List.append_inj' hsplit rfl
      cases hee
      rw [h] at hr
      cases hr
      exact he hi
    · have hsplit' : past ++ [e] = (before ++ e' :: after) ++ [e''] := by simpa using hsplit
      obtain ⟨rfl, -⟩ := List.append_inj' hsplit' rfl
      exact hn before e' after ctx₀ rfl hr hi

theorem replay_grows (h₀ : self.replay past = .ok ctx₀)
    (h : self.replay (past ++ later) = .ok ctx) :
    ctx₀.world.issued <+: ctx.world.issued ∧ ctx₀.world.returned <+: ctx.world.returned := by
  induction later generalizing past ctx₀ with
  | nil =>
    rw [List.append_nil, h₀] at h
    cases h
    exact ⟨List.prefix_rfl, List.prefix_rfl⟩
  | cons e later ih =>
    rw [List.append_cons] at h
    obtain ⟨ctx₁, h₁, -⟩ := processEvents_split h
    obtain ⟨hissued, hreturned⟩ := ih h₁ h
    obtain ⟨ctx₂, he, rfl⟩ := replay_snoc h₀ h₁
    obtain ⟨n, l, lost, hb⟩ := processEvent_entries (replay_drained h₀) (replay_isComplete h₀) he
    constructor
    · refine List.IsPrefix.trans ⟨l ++ lost, ?_⟩ hissued
      rw [hb.issued, List.append_assoc]
    · exact List.IsPrefix.trans ⟨_, hb.returned.symm⟩ hreturned

theorem unnamed_of_lt (h : self.replay past = .ok ctx) (hi : ctx.world.issued.length < i) :
    self.Unnamed P past i := by
  rintro before e after ctx₀ rfl h₀ hle
  have hlen := (replay_grows h₀ h).1.length_le
  omega

theorem created_append (h : self.replay past = .ok ctx)
    (hissued : ctx'.world.issued = ctx.world.issued ++ l)
    (hl : Numbered ctx.world.issued.length l) :
    1 ≤ i ∧ i ≤ ctx'.world.issued.length ∧ self.Unnamed P (past ++ [e]) i ↔
      i ∈ l.map OrchestratorAction.id ∨
        (1 ≤ i ∧ i ≤ ctx.world.issued.length ∧ self.Unnamed P past i) ∧ ¬P e.kind := by
  have hmem : i ∈ l.map OrchestratorAction.id ↔
      (ctx.world.issued.length : Int) < i ∧ i ≤ ctx.world.issued.length + l.length := by
    rw [List.mem_map]
    constructor
    · rintro ⟨a, ha, rfl⟩
      obtain ⟨k, hk⟩ := List.mem_iff_getElem?.mp ha
      have hlt := (List.getElem?_eq_some_iff.mp hk).1
      have hid := hl k a hk
      omega
    · rintro ⟨hlt, hle⟩
      have hk : (i - ctx.world.issued.length - 1).toNat < l.length := by omega
      refine ⟨l[(i - ctx.world.issued.length - 1).toNat], List.getElem_mem hk, ?_⟩
      rw [hl _ _ (List.getElem?_eq_getElem hk)]
      omega
  rw [unnamed_append h, hmem, hissued, List.length_append, Int.natCast_add]
  by_cases hi : i ≤ ctx.world.issued.length
  · have hn : ¬(ctx.world.issued.length : Int) < i := by omega
    have hle : i ≤ ctx.world.issued.length + l.length := by omega
    simp only [hi, hn, hle, true_and, false_and, false_or, true_implies, and_assoc]
  · have hlt : (ctx.world.issued.length : Int) < i := by omega
    have hun := unnamed_of_lt (P := P) h hlt
    simp only [hi, hlt, hun, true_and, false_and, and_false, or_false, false_implies, and_true]
    omega

theorem Mirrors.step (hm : self.Mirrors past ctx)
    (hlevel : ctx.world.octx.sequenceNumber = ctx.world.issued.length)
    (h : self.replay past = .ok ctx) (hstart : e.isStart → ctx.Unstarted)
    (hk : e.kind ≠ .terminate) (hret : self.returns ctx e.kind = none)
    (he : self.processEvent ctx e = .ok ctx') : self.Mirrors (past ++ [e]) ctx'.drain ∧
      ctx'.drain.world.octx.sequenceNumber = ctx'.drain.world.issued.length := by
  have hd := replay_drained h
  have hc := replay_isComplete h
  obtain ⟨n, l, lost, hb⟩ := processEvent_entries hd hc he
  obtain ⟨l', hsent⟩ := (processEvent_turn hc he).sent hd hc hret
  obtain rfl : lost = [] := by
    by_contra hne
    have hsome := (hb.lost_of hne).2.2
    rw [hret] at hsome
    cases hsome
  have hissued : ctx'.drain.world.issued = ctx.world.issued ++ l := by
    rw [hb.issued, List.append_nil]
  obtain rfl : l' = l := List.append_cancel_left (hsent.issued.symm.trans hissued)
  have hn : n = ctx.world.issued.length := by
    rcases hb.base with hn | ⟨hn, hs⟩
    · exact hn.trans hlevel
    · simp [hn, World.issued, (hstart hs).cells]
  have hl : Numbered ctx.world.issued.length l' := hn ▸ hb.numbered
  have hown := self.ownEntry_of_returns_none hk hret
  have hpending := hb.pendingActions
  rw [hown, List.nil_append] at hpending
  refine ⟨⟨?_, ?_, fun i => ?_, fun i a ha => ?_, fun i => ?_⟩, ?_⟩
  · rw [hissued]
    apply hm.numbered.append
    rwa [Int.zero_add]
  · rw [hb.sequenceNumber, hown, hm.sequenceNumber, hissued, List.length_append]
    exact hl.counterAfter (Int.natCast_nonneg _)
  · rw [created_append h hissued hl, hpending, mem_insertAll, EventKind.mem_acked,
      hm.mem_pendingActions, List.map_map]
    rfl
  · rcases hb.entered ha with hm' | ⟨hmem, hid⟩ | ha
    · rw [hown] at hm'
      cases hm'
    · obtain ⟨k, hk⟩ := List.mem_iff_getElem?.mp hmem
      have hidk := hl k a hk
      refine ⟨hid, ctx.world.issued.length + k, by omega, ?_⟩
      rw [hissued, List.getElem?_append_right (Nat.le_add_right _ _), Nat.add_sub_cancel_left, hk]
    · obtain ⟨hid, k, hik, hk⟩ := hm.lookup_pendingActions i a ha
      refine ⟨hid, k, hik, ?_⟩
      rw [hissued, List.getElem?_append_left (List.getElem?_eq_some_iff.mp hk).1, hk]
  · rw [created_append h hissued hl, hsent.pendingTasks, hm.mem_pendingTasks]
  · rw [hb.counter, hn, hissued, List.length_append, Int.natCast_add]

theorem replay_mirrors (h : self.replay history = .ok ctx)
    (hone : history.countP HistoryEvent.isStart ≤ 1) (hk : ∀ e ∈ history, e.kind ≠ .terminate)
    (hret : ctx.world.returned = []) : self.Mirrors history ctx ∧
      ctx.world.octx.sequenceNumber = ctx.world.issued.length := by
  revert hk hret
  refine replay_induct (P := fun history ctx => (∀ e ∈ history, e.kind ≠ .terminate) →
    ctx.world.returned = [] → self.Mirrors history ctx ∧
      ctx.world.octx.sequenceNumber = ctx.world.issued.length) hone ?_ ?_ h
  · intro _ _
    have none_created (i : Int) (p : Prop) : ¬(1 ≤ i ∧ i ≤ (0 : ℕ) ∧ p) := by
      rintro ⟨hpos, hle, -⟩
      omega
    refine ⟨⟨.nil, rfl, fun i => ?_, fun i a ha => ?_, fun i => ?_⟩, rfl⟩
    · exact iff_of_false (AList.notMem_empty i) (none_created i _)
    · cases ha
    · exact iff_of_false (AList.notMem_empty i) (none_created i _)
  · intro past e ctx₁ ctx₂ hr ih hs he hk hret
    obtain ⟨n, l, lost, hb⟩ := processEvent_entries (replay_drained hr) (replay_isComplete hr) he
    rw [hb.returned, List.append_eq_nil_iff, Option.toList_eq_nil_iff] at hret
    obtain ⟨hm, hlevel⟩ := ih (fun e' he' => hk e' (List.mem_append_left _ he')) hret.1
    have hunstarted : e.isStart → ctx₁.Unstarted := fun hstart => replay_unstarted (hs hstart) hr
    exact hm.step hlevel hr hunstarted (hk e (by simp)) hret.2 he

/--
In a history with one start and no termination that leaves the program pending, the ids, the
counter and both maps are after every event what the history up to it says.
-/
theorem replay_maps (h : self.replay history = .ok ctx)
    (hone : history.countP HistoryEvent.isStart ≤ 1) (hk : ∀ e ∈ history, e.kind ≠ .terminate)
    (hret : ctx.world.returned = []) (past later : List HistoryEvent)
    (hsplit : history = past ++ later) :
    ∃ ctx₁, self.replay past = .ok ctx₁ ∧ self.Mirrors past ctx₁ := by
  subst hsplit
  obtain ⟨ctx₁, h₁, -⟩ := processEvents_split h
  refine ⟨ctx₁, h₁, ?_⟩
  have hone₁ := Nat.le_trans (List.Sublist.countP_le (List.sublist_append_left past later)) hone
  have hret₁ := (replay_grows h₁ h).2
  rw [hret, List.prefix_nil] at hret₁
  exact (replay_mirrors h₁ hone₁ (fun e he => hk e (List.mem_append_left _ he)) hret₁).1

theorem parallelOrchestration_maps : ∃ ctx, (executorOf parallelOrchestration).replay
    [executionStarted, taskScheduled 1, taskCompleted 2 (some "\"b\""), taskScheduled 7] = .ok ctx ∧
      (executorOf parallelOrchestration).Mirrors
        [executionStarted, taskScheduled 1, taskCompleted 2 (some "\"b\""), taskScheduled 7]
        ctx := by
  obtain ⟨ctx, h, hret⟩ := Except.exists_of_map
    (show ((executorOf parallelOrchestration).replay
      [executionStarted, taskScheduled 1, taskCompleted 2 (some "\"b\""), taskScheduled 7]).map
        (fun ctx => ctx.world.returned) = .ok [] by decide)
  exact replay_maps h (by decide) (by decide) hret _ [] (List.append_nil _).symm

end OrchestrationExecutorFuture

end DurableTask
