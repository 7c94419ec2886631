import DurableTask.Guarantees.Durability

/-! # Every answer counts

A value that is handed over settles a task that waited, and no task that has
settled waits again. A direct execution makes finitely many requests, so an
orchestrator comes to its end after as many answers, in whatever order.
-/

namespace DurableTask

open Interaction Queues OrchestrationExecutorContext

instance (c : Cell) : Decidable (c.At .waiting) :=
  inferInstanceAs (Decidable (c.task = .new ∧ c.outcome = none))

def World.settled (w : World) : Finset TaskRef :=
  (Finset.range w.cells.length).filter fun t => ∃ c ∈ w.cells[t]?, ¬c.At .waiting

theorem World.mem_settled {w : World} {t : TaskRef} :
    t ∈ w.settled ↔ ∃ c, w.cells[t]? = some c ∧ ¬c.At .waiting := by
  rw [World.settled, Finset.mem_filter, Finset.mem_range]
  constructor
  · rintro ⟨-, c, hc, hw⟩
    exact ⟨c, hc, hw⟩
  · rintro ⟨c, hc, hw⟩
    exact ⟨(List.getElem?_eq_some_iff.mp hc).1, c, hc, hw⟩

theorem World.settled_card_lt {w : World} {t : TaskRef} {c : Cell} (hc : w.cells[t]? = some c)
    (hw : c.At .waiting) : w.settled.card < w.cells.length := by
  have hsub : w.settled ⊂ Finset.range w.cells.length := by
    refine Finset.filter_ssubset.mpr
      ⟨t, Finset.mem_range.mpr (List.getElem?_eq_some_iff.mp hc).1, ?_⟩
    rintro ⟨c', hc', hw'⟩
    rw [hc] at hc'
    cases hc'
    exact hw' hw
  simpa using Finset.card_lt_card hsub

namespace OrchestrationExecutorFuture

variable {self : OrchestrationExecutorFuture} {ctx ctx' : OrchestrationExecutorContext}
  {e : HistoryEvent} {events history : List HistoryEvent}

def hands (self : OrchestrationExecutorFuture) (ctx : OrchestrationExecutorContext) :
    EventKind → Bool
  | .resolve id (some _) _ _ => (ctx.pendingTasks.lookup id).isSome
  | .raise r => (ctx.pendingEvents.lookup (self.env.toLowercase r.name)).isSome
  | _ => false

def handed (self : OrchestrationExecutorFuture) :
    OrchestrationExecutorContext → List HistoryEvent → ℕ
  | _, [] => 0
  | ctx, e :: events => (self.hands ctx e.kind).toNat +
    match self.processEvent ctx e with
    | .error _ => 0
    | .ok ctx' => handed self ctx'.drain events

theorem settled_sent {t : TaskRef} {c : Cell} {v : Option String} {w : World}
    (hc : ctx.world.cells[t]? = some c) (hw : c.At .waiting)
    (hs : ctx.world.send t v = some w) :
    t ∉ ctx.world.settled ∧ ∃ c', w.cells[t]? = some c' ∧ ¬c'.At .waiting := by
  obtain ⟨c₁, hc₁, -, rfl⟩ := World.send_ok hs
  rw [hc] at hc₁
  cases hc₁
  refine ⟨fun ht => ?_, { c with task.unblockRx := .sent v }, ?_, fun hwait => ?_⟩
  · obtain ⟨c', hc', hw'⟩ := World.mem_settled.mp ht
    rw [hc] at hc'
    cases hc'
    exact hw' hw
  · simp [(List.getElem?_eq_some_iff.mp hc).1]
  · have hstage := hwait.unique (hw.send v)
    cases v <;> cases hstage

theorem Delivery.settles (hr : ctx.Regular) {k : EventKind} {ctx₁ : OrchestrationExecutorContext}
    (hd : Delivery self.env ctx k ctx₁) (hh : self.hands ctx k = true) :
    ∃ t, t ∉ ctx.world.settled ∧ ∃ c, ctx₁.world.cells[t]? = some c ∧ ¬c.At .waiting := by
  cases hd with
  | send id v message polls t w hl hs =>
    obtain ⟨c, a, hc, -, -, hw⟩ := hr.linked.task (.inl hl)
    exact ⟨t, settled_sent hc hw hs⟩
  | give r t waiters w hl hs =>
    obtain ⟨c, hc, -, hw⟩ := hr.linked.waiter (mem_waiters_of_lookup hr.drained hl)
    exact ⟨t, settled_sent hc hw hs⟩
  | miss id payload message polls hl =>
    cases payload <;> simp [hands, hl] at hh
  | buffer r hl => simp [hands, hl] at hh
  | _ => cases hh

theorem settled_mono (hr : ctx.Regular) (he : self.processEvent ctx e = .ok ctx') :
    ctx.world.settled ⊆ ctx'.drain.world.settled := by
  intro t ht
  obtain ⟨c, hc, hw⟩ := World.mem_settled.mp ht
  obtain ⟨c', hc', hev⟩ := processEvent_evolves hr he hc hw
  exact World.mem_settled.mpr ⟨c', hc', fun hw' => hw (hev.waiting (hr.linked.staged hc) hw')⟩

theorem settled_lt (hr : ctx.Regular) (he : self.processEvent ctx e = .ok ctx')
    (hh : self.hands ctx e.kind = true) :
    ctx.world.settled.card < ctx'.drain.world.settled.card := by
  refine Finset.card_lt_card (Finset.ssubset_iff_subset_ne.mpr ⟨settled_mono hr he, fun heq => ?_⟩)
  have hstart : e.isStart = false := by
    unfold HistoryEvent.isStart
    revert hh
    cases e.kind <;> intro hh <;> first | rfl | cases hh
  obtain ⟨ctx₁, hd, hm⟩ := processEvent_moves hr.incomplete hstart he
  obtain ⟨t, ht, c, hc, hw⟩ := Delivery.settles hr hd hh
  have hlinked := hd.linked hr.drained hr.linked
  have hmoves : Moves self.env ctx₁ ctx'.drain := hm.trans (drain_moves self.env ctx')
  obtain ⟨c', hc', hev⟩ := hmoves.evolves hlinked hc hw
  rw [heq] at ht
  exact ht (World.mem_settled.mpr
    ⟨c', hc', fun hw' => hw (hev.waiting (hlinked.staged hc) hw')⟩)

theorem handed_le (hr : ctx.Regular) (h : self.processEvents ctx events = .ok ctx') :
    ctx.world.settled.card + self.handed ctx events ≤ ctx'.world.settled.card := by
  induction events generalizing ctx with
  | nil =>
    cases h
    exact le_rfl
  | cons e events ih =>
    obtain ⟨ctx₁, he, h⟩ := processEvents_cons_split h
    have hrest := ih (processEvent_regular hr he) h
    simp only [handed, he]
    cases hh : self.hands ctx e.kind with
    | true =>
      have hlt := settled_lt hr he hh
      simp only [Bool.toNat_true]
      omega
    | false =>
      have hle := Finset.card_le_card (settled_mono hr he)
      simp only [Bool.toNat_false]
      omega

/--
A program that was handed as many values as the direct execution makes requests has returned the
value of the direct execution, if the budget allows as many and the last of them was followed by a
poll.
-/
theorem replay_terminates {flow : Flow (OrchestratorResult String)}
    {answer : TaskRequest → Option String} (hflow : self.RunsFlow flow history)
    (hfaithful : self.Faithful (answeredBy answer) history) (h : self.replay history = .ok ctx)
    (hs : ∃ e ∈ history, self.starts e.kind = true) (hn : ctx.world.notified = false)
    (hb : ∀ N ∈ self.env.budget, (flow.eval self.env.toLowercase answer).1.card ≤ N)
    (hcount : (flow.eval self.env.toLowercase answer).1.card ≤
      self.handed (.new self.env.budget) history) : ∃ r, ctx.world.returned = [r] ∧
        flow.eval self.env.toLowercase answer = (↑ctx.world.requests, some r) := by
  have hreturned : ctx.world.returned ≠ [] := by
    refine (replay_launched h hs).resolve_left fun hrun => ?_
    obtain ⟨result, hruns, -⟩ := hflow.runs hfaithful h
    have hcard := Multiset.card_le_card hruns.eval.1
    obtain ⟨hw, t, c, hc, -, hwait⟩ :=
      hflow.waits hfaithful h hrun hn fun N hN => hcard.trans (hb N hN)
    have hhanded := handed_le (regular_new self.env.budget) h
    -- every settled task was created for a request of the direct execution, and one still waits
    have hlt : ctx.world.settled.card < (flow.eval self.env.toLowercase answer).1.card :=
      calc ctx.world.settled.card < ctx.world.cells.length := World.settled_card_lt hc hwait
        _ = (ctx.world.requests : Multiset TaskRequest).card := hw.requests_length.symm
        _ ≤ (flow.eval self.env.toLowercase answer).1.card := hcard
    omega
  obtain ⟨r, hr, hruns⟩ := (hflow.served hfaithful h).returned.resolve_left hreturned
  exact ⟨r, hr, Flow.runs_iff.mp hruns.runs⟩

theorem approval_terminates : ∃ ctx r, approvalExecutor.replay [executionStarted,
    taskCompleted 2 (some "\"b\""), taskCompleted 1 (some "\"a\""),
    eventRaisedEvent "approved" (some "\"yes\"")] = .ok ctx ∧ ctx.world.returned = [r] ∧
      approval.eval id approvalAnswer = (↑ctx.world.requests, some r) := by
  obtain ⟨ctx, h, hn⟩ := Except.exists_of_map
    (show (approvalExecutor.replay [executionStarted, taskCompleted 2 (some "\"b\""),
      taskCompleted 1 (some "\"a\""), eventRaisedEvent "approved" (some "\"yes\"")]).map (fun ctx =>
        ctx.world.notified) = .ok false by decide)
  have hb : ∀ N ∈ approvalExecutor.env.budget, (approval.eval id approvalAnswer).1.card ≤ N := by
    rintro N ⟨⟩
    decide
  obtain ⟨r, hr⟩ := replay_terminates (approval_runsFlow (by decide))
    (show approvalExecutor.Faithful (answeredBy approvalAnswer) _ by decide) h
    ⟨executionStarted, by simp, by decide⟩ hn hb (by decide)
  exact ⟨ctx, r, h, hr⟩

end OrchestrationExecutorFuture

end DurableTask
