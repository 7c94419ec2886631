import DurableTask.Invariants.Budgeted
import DurableTask.Runtime.Orchestrators

/-! # Durable execution

An orchestrator that is built from the calls of the API is suspended, forgotten
and replayed from its start in every episode, and its answers arrive in any
order. What it asks for and what it returns is all the same what a direct
execution asks for and returns, in which nothing is ever suspended.
-/

namespace DurableTask

open Interaction Queues OrchestrationExecutorContext

def TaskRequest.isSignal : TaskRequest → Bool
  | .signal _ => true
  | _ => false

theorem OrchestratorAction.request?_isSignal {a : OrchestratorAction} {q : TaskRequest}
    (h : a.request? = some q) : q.isSignal = false := by
  unfold OrchestratorAction.request? at h
  split at h <;> cases h <;> rfl

theorem World.issued_filterMap (w : World) :
    w.issued.filterMap OrchestratorAction.request? =
      w.requests.filter fun q => !q.isSignal := by
  rw [World.issued_eq, World.requests_eq]
  induction w.cells.map Cell.origin with
  | nil => rfl
  | cons o origins ih =>
    cases o with
    | action a =>
      have haction : Origin.action? (.action a) = some a := rfl
      have hrequest : Origin.request? (.action a) = a.request? := rfl
      rw [List.filterMap_cons_some haction]
      cases ha : a.request? with
      | none =>
        rw [List.filterMap_cons_none ha, List.filterMap_cons_none (hrequest.trans ha)]
        exact ih
      | some q =>
        rw [List.filterMap_cons_some ha, List.filterMap_cons_some (hrequest.trans ha),
          List.filter_cons_of_pos (by simp [OrchestratorAction.request?_isSignal ha]), ih]
    | signal name =>
      have haction : Origin.action? (.signal name) = none := rfl
      have hrequest : Origin.request? (.signal name) = some (.signal name) := rfl
      rw [List.filterMap_cons_none haction, List.filterMap_cons_some hrequest,
        List.filter_cons_of_neg (by simp [TaskRequest.isSignal]), ih]

namespace OrchestrationExecutorFuture

variable {self : OrchestrationExecutorFuture} {ctx ctx' : OrchestrationExecutorContext}
  {flow : Flow (OrchestratorResult String)} {service : Service} {history : List HistoryEvent}
  {k : EventKind} {env : Env}

/-- The history starts one orchestrator at most, and that is the one of the flow. -/
structure RunsFlow (executor : OrchestrationExecutorFuture)
    (flow : Flow (OrchestratorResult String)) (history : List HistoryEvent) : Prop where
  once : history.countP HistoryEvent.isStart ≤ 1
  future : ∀ e ∈ history, ∀ s func, e.kind = .start s →
    executor.registry.getOrchestrator s.name = some func →
      func.call executor.instanceId s.input = flow.future

theorem RunsFlow.meets (hflow : self.RunsFlow flow history) :
    self.Meets service (flow.Panics self.env.toLowercase service)
      (flow.Settles self.env.toLowercase service) history := by
  intro e he s func hk hreg
  rw [hflow.future e he s func hk hreg]
  exact flow.meets fun _ hp => hp

theorem RunsFlow.served (hflow : self.RunsFlow flow history)
    (hfaithful : self.Faithful service history) (h : self.replay history = .ok ctx) :
    ctx.Served self.env service (flow.Panics self.env.toLowercase service)
      (flow.Settles self.env.toLowercase service) :=
  replay_served hflow.once hflow.meets hfaithful h

/-- The program was started, and it runs or has returned. -/
def Launched (ctx : OrchestrationExecutorContext) : Prop :=
  ctx.running = true ∨ ctx.world.returned ≠ []

theorem Turn.launched (ht : self.Turn ctx k ctx')
    (hk : Launched ctx ∨ self.starts k = true) : Launched ctx' := by
  have started (hs : self.starts k = false) : Launched ctx := hk.resolve_right (by simp [hs])
  cases ht with
  | rest hd =>
    have hs : self.starts k = false := by cases hd <;> rfl
    refine (started hs).imp (fun hr => ?_) fun hr => ?_
    · rw [running_congr hd.orchestratorFn, hr]
    · rw [hd.books.2.2.2.2.2]
      exact hr
  | tick timestamp => exact started rfl
  | terminate =>
    obtain ⟨hfn, hw⟩ := executionTerminated_frame ctx
    exact (started rfl).imp (fun hr => (running_congr hfn).trans hr) fun hr => hw ▸ hr
  | acknowledge id => exact started rfl
  | suspend => exact .inl rfl
  | report => exact .inr (by simp [insertAction, World.finish])
  | discard => exact .inr (by simp [World.finish])
  | unknown e hr => exact started (by simp [starts, hr])
  | begin => exact .inl rfl
  | forget => exact .inr (by simp [World.finish])

theorem replay_launched (h : self.replay history = .ok ctx)
    (hs : ∃ e ∈ history, self.starts e.kind = true) : Launched ctx := by
  revert hs
  refine processEvents_induct (P := fun history ctx =>
    (∃ e ∈ history, self.starts e.kind = true) → Launched ctx) ?_ ?_ h
  · rintro ⟨e, he, -⟩
    cases he
  · rintro past e ctx₁ ctx₂ hr ih he ⟨e', he', hs⟩
    have ht := (processEvent_turn (replay_isComplete hr) he).launched ?_
    · refine ht.imp (fun hr => drain_running.trans hr) fun hr => ?_
      rw [(drain_frame ctx₂).2.2]
      exact hr
    · rcases List.mem_append.mp he' with hpast | hlast
      · exact .inl (ih ⟨e', hpast, hs⟩)
      · rw [List.mem_singleton] at hlast
        exact .inr (hlast ▸ hs)

theorem RunsFlow.halts (hflow : self.RunsFlow flow history)
    (hfaithful : self.Faithful service history) (h : self.replay history = .ok ctx)
    (hlaunched : Launched ctx) : ∃ result,
      flow.Halts self.env.toLowercase service ctx.world.answered ctx.world.waiting result ∧
        ctx.world.returned = result.toList := by
  have hserved := hflow.served hfaithful h
  rcases hserved.returned with hret | ⟨r, hret, hsettles⟩
  · obtain ⟨base, f, hfn⟩ := running_iff.mp (hlaunched.resolve_right (not_not.mpr hret))
    exact ⟨none, (hserved.program base f hfn).unready.halts, hret⟩
  · exact ⟨some r, hsettles.halts, hret⟩

theorem RunsFlow.cells_nil (hflow : self.RunsFlow flow history)
    (hfaithful : self.Faithful service history) (h : self.replay history = .ok ctx)
    (hlaunched : ¬Launched ctx) : ctx.world.cells = [] := by
  rw [Launched, not_or, Bool.not_eq_true, not_not] at hlaunched
  exact (hflow.served hfaithful h).idle hlaunched.1 hlaunched.2

theorem RunsFlow.yielded (hflow : self.RunsFlow flow history)
    (hfaithful : self.Faithful service history) (h : self.replay history = .ok ctx)
    (hret : ctx.world.returned ≠ []) : ∀ c ∈ ctx.world.cells, c.outcome.isSome := by
  have hserved := hflow.served hfaithful h
  obtain ⟨r, -, hsettles⟩ := hserved.returned.resolve_left hret
  have hnone : (ctx.world.waiting : Multiset TaskRequest) = 0 :=
    hsettles.halts.isSome_iff.mp rfl
  exact fun c hc =>
    World.yielded_of_waiting hserved.asks ((Multiset.coe_eq_zero _).mp hnone) hc

theorem RunsFlow.runs (hflow : self.RunsFlow flow history)
    (hfaithful : self.Faithful service history) (h : self.replay history = .ok ctx) :
    ∃ result, flow.Runs self.env.toLowercase service ctx.world.requests result ∧
      ∀ r ∈ ctx.world.returned, result = some r := by
  by_cases hlaunched : Launched ctx
  · obtain ⟨result, hhalts, hret⟩ := hflow.halts hfaithful h hlaunched
    refine ⟨result, ctx.world.requests_split ▸ hhalts.runs, fun r hr => ?_⟩
    rw [hret, Option.mem_toList] at hr
    exact hr
  · refine ⟨none, ?_, fun r hr => ?_⟩
    · rw [World.requests, hflow.cells_nil hfaithful h hlaunched]
      exact .start flow
    · exact absurd (.inr (List.ne_nil_of_mem hr)) hlaunched

def approval : Flow (OrchestratorResult String) :=
  .andThen (.join (.call (.activity Text.jsonString Text.fromJsonString "" "check" "a"))
    (.call (.activity Text.jsonString Text.fromJsonString "" "check" "b"))) fun _ =>
      .map (fun r => (r.bind Text.jsonString).map .output)
        (.call (.signal Text.fromJsonString "approved"))

def approvalAnswer : TaskRequest → Option String
  | .activity _ input => input
  | .signal _ => some "\"yes\""
  | _ => none

def approvalExecutor : OrchestrationExecutorFuture :=
  executorOf ⟨fun _ _ => approval.future⟩

def approvalHistory : List HistoryEvent :=
  [executionStarted, eventRaisedEvent "approved" (some "\"yes\""), taskScheduled 1, taskScheduled 2,
    taskCompleted 2 (some "\"b\""), taskCompleted 2 (some "\"b\""), taskCompleted 1 (some "\"a\"")]

theorem approval_runsFlow {history : List HistoryEvent}
    (hone : history.countP HistoryEvent.isStart ≤ 1) :
    approvalExecutor.RunsFlow approval history := by
  refine ⟨hone, fun e _ s func _ hreg => ?_⟩
  have hfunc : func = ⟨fun _ _ => approval.future⟩ := eq_of_registered hreg
  rw [hfunc]

/-- Why an action is pending. -/
def Pending (history : List HistoryEvent) (ctx : OrchestrationExecutorContext) (id : Int)
    (a : OrchestratorAction) : Prop :=
  (a ∈ ctx.world.issued ∧ a.isComplete = false) ∨
  (∃ r ∈ ctx.world.returned, a = completionAction id r) ∨
    (∃ e ∈ history, e.kind = .terminate) ∧
      a = newCompleteOrchestrationAction id .terminated none [] none

theorem replay_pending (h : self.replay history = .ok ctx) :
    ∀ id a, ctx.pendingActions.lookup id = some a → Pending history ctx id a := by
  refine processEvents_induct (P := fun history ctx => ∀ id a,
    ctx.pendingActions.lookup id = some a → Pending history ctx id a) ?_ ?_ h
  · intro id a hl
    cases hl
  · intro past e ctx₁ ctx₂ hr ih he id a hl
    obtain ⟨n, l, lost, hb⟩ := processEvent_entries (replay_drained hr) (replay_isComplete hr) he
    unfold Pending
    have own (hm : (id, a) ∈ (self.returns ctx₁ e.kind).toList.map fun r =>
        (completionAction (ctx₁.sequenceNumber + 1) r).entry) :
        ∃ r ∈ ctx₂.drain.world.returned, a = completionAction id r := by
      obtain ⟨r, hr, he⟩ := List.mem_map.mp hm
      rw [completionAction_entry] at he
      cases he
      refine ⟨r, ?_, rfl⟩
      rw [hb.returned]
      exact List.mem_append_right _ hr
    rcases hb.entered hl with hm | ⟨ha, -⟩ | hl
    · refine .inr ?_
      unfold ownEntry at hm
      split at hm
      · rename_i hterminate
        cases List.mem_singleton.mp hm
        exact .inr ⟨⟨e, by simp, hterminate⟩, rfl⟩
      · cases hm
      · cases hm
      · exact .inl (own hm)
    · refine .inl ⟨?_, hb.incomplete a ha⟩
      rw [hb.issued]
      exact List.mem_append_left _ (List.mem_append_right _ ha)
    · rw [hb.issued, hb.returned]
      rcases ih id a hl with ⟨ha, hc⟩ | ⟨r, hr, ha⟩ | ⟨⟨e', he', hk⟩, ha⟩
      · exact .inl ⟨List.mem_append_left _ (List.mem_append_left _ ha), hc⟩
      · exact .inr (.inl ⟨r, List.mem_append_left _ hr, ha⟩)
      · exact .inr (.inr ⟨⟨e', List.mem_append_left _ he', hk⟩, ha⟩)

theorem requests_le {w : World} {actions : List OrchestratorAction} (hn : actions.Nodup)
    (hissued : ∀ a ∈ actions, a.request?.isSome → a ∈ w.issued) :
    (actions.filterMap OrchestratorAction.request? : Multiset TaskRequest) ≤ w.requests := by
  have hfilter : actions.filterMap OrchestratorAction.request? =
      (actions.filter fun a => a.request?.isSome).filterMap OrchestratorAction.request? := by
    rw [List.filterMap_filter]
    congr 1
    funext a
    cases a.request? <;> rfl
  have hsub : (actions.filter fun a => a.request?.isSome) ⊆ w.issued := by
    intro a ha
    obtain ⟨hm, hs⟩ := List.mem_filter.mp ha
    exact hissued a hm hs
  have hle : ((actions.filter fun a => a.request?.isSome : List OrchestratorAction) :
      Multiset OrchestratorAction) ≤ w.issued :=
    Multiset.coe_le.mpr ((hn.filter _).subperm hsub)
  have hsublist : List.Sublist (w.issued.filterMap OrchestratorAction.request?) w.requests := by
    rw [World.issued_filterMap]
    exact List.filter_sublist
  rw [hfilter, ← Multiset.filterMap_coe]
  exact (Multiset.filterMap_le_filterMap _ hle).trans (Multiset.coe_le.mpr hsublist.subperm)

theorem replay_completion (h : self.replay history = .ok ctx) {a : OrchestratorAction}
    (ha : a ∈ ctx.getActions env) (hc : a.isComplete = true) :
    (∃ r ∈ ctx.world.returned, a = completionAction a.id r) ∨
      (∃ e ∈ history, e.kind = .terminate) ∧
        a = newCompleteOrchestrationAction a.id .terminated none [] none := by
  obtain ⟨id, hl⟩ := mem_getActions.mp ha
  rw [← replay_keyed h id a hl] at hl
  refine (replay_pending h a.id a hl).resolve_left ?_
  rintro ⟨-, hi⟩
  rw [hi] at hc
  cases hc

theorem RunsFlow.actions (hflow : self.RunsFlow flow history)
    (hfaithful : self.Faithful service history) (h : self.replay history = .ok ctx) :
    ∃ result, flow.Runs self.env.toLowercase service ctx.world.requests result ∧
      ((ctx.getActions self.env).filterMap OrchestratorAction.request? : Multiset TaskRequest) ≤
        ctx.world.requests ∧
      ∀ a ∈ ctx.getActions self.env, a.isComplete = true →
        (∃ r, result = some r ∧ a = completionAction a.id r) ∨
          (∃ e ∈ history, e.kind = .terminate) ∧
            a = newCompleteOrchestrationAction a.id .terminated none [] none := by
  obtain ⟨result, hruns, hreturned⟩ := hflow.runs hfaithful h
  refine ⟨result, hruns, requests_le (getActions_nodup _ h) fun a ha hs => ?_, fun a ha hc => ?_⟩
  · obtain ⟨id, hl⟩ := mem_getActions.mp ha
    rcases replay_pending h id a hl with ⟨hi, -⟩ | ⟨r, -, he⟩ | ⟨-, he⟩
    · exact hi
    · rw [he] at hs
      rcases r with _ | _ | _ <;> cases hs
    · rw [he] at hs
      cases hs
  · refine (replay_completion h ha hc).imp_left ?_
    rintro ⟨r, hr, he⟩
    exact ⟨r, hreturned r hr, he⟩

/--
Whatever the order of the events, the copies among them and the cut between old and new ones: the
actions that `execute` returns ask for nothing but what one direct execution asks for, and the
outcome that they report is that of the direct execution, or a termination.
-/
theorem execute_refines {oldEvents newEvents : List HistoryEvent}
    {actions : List OrchestratorAction} (hflow : self.RunsFlow flow (oldEvents ++ newEvents))
    (hfaithful : self.Faithful service (oldEvents ++ newEvents))
    (h : self.execute oldEvents newEvents = .ok actions) :
    ∃ requests result, flow.Runs self.env.toLowercase service requests result ∧
      (actions.filterMap OrchestratorAction.request? : Multiset TaskRequest) ≤ requests ∧
      ∀ a ∈ actions, a.isComplete = true → (∃ r, result = some r ∧ a = completionAction a.id r) ∨
        (∃ e ∈ oldEvents ++ newEvents, e.kind = .terminate) ∧
          a = newCompleteOrchestrationAction a.id .terminated none [] none := by
  obtain ⟨ctx, hr, rfl⟩ := execute_ok h
  obtain ⟨result, hactions⟩ := hflow.actions hfaithful hr
  exact ⟨ctx.world.requests, result, hactions⟩

theorem approval_refines : ∃ requests result,
    approval.Runs id (answeredBy approvalAnswer) requests result ∧
      (([newCompleteOrchestrationAction 3 .completed (some "\"yes\"") [] none].filterMap
        OrchestratorAction.request? : List TaskRequest) : Multiset TaskRequest) ≤ requests ∧
      ∀ a ∈ [newCompleteOrchestrationAction 3 .completed (some "\"yes\"") [] none],
        a.isComplete = true → (∃ r, result = some r ∧ a = completionAction a.id r) ∨
          (∃ e ∈ approvalHistory.take 4 ++ approvalHistory.drop 4, e.kind = .terminate) ∧
            a = newCompleteOrchestrationAction a.id .terminated none [] none :=
  execute_refines (approval_runsFlow (by decide))
    (show approvalExecutor.Faithful _ (approvalHistory.take 4 ++ approvalHistory.drop 4) by decide)
    (by decide)

/--
If every request has one answer at most, the program asks for nothing but what the direct
execution asks for. When it returns, it has asked for all of that, each request once, and returns
the value of the direct execution.
-/
theorem replay_evaluates {answer : TaskRequest → Option String} (hflow : self.RunsFlow flow history)
    (hfaithful : self.Faithful (answeredBy answer) history) (h : self.replay history = .ok ctx) :
    (ctx.world.requests : Multiset TaskRequest) ≤ (flow.eval self.env.toLowercase answer).1 ∧
      ∀ r ∈ ctx.world.returned,
        flow.eval self.env.toLowercase answer = (↑ctx.world.requests, some r) := by
  obtain ⟨result, hruns, hreturned⟩ := hflow.runs hfaithful h
  refine ⟨hruns.eval.1, fun r hr => Flow.runs_iff.mp ?_⟩
  rw [← hreturned r hr]
  exact hruns

theorem approval_evaluates : ∃ ctx, approvalExecutor.replay approvalHistory = .ok ctx ∧
    ctx.world.returned = [.ok (.output "\"yes\"")] ∧
      approval.eval id approvalAnswer = (↑ctx.world.requests, some (.ok (.output "\"yes\""))) := by
  obtain ⟨ctx, h, hret⟩ := Except.exists_of_map
    (show (approvalExecutor.replay approvalHistory).map (fun ctx => ctx.world.returned) =
      .ok [.ok (.output "\"yes\"")] by decide)
  have heval := replay_evaluates (approval_runsFlow (by decide))
    (show approvalExecutor.Faithful (answeredBy approvalAnswer) _ by decide) h
  exact ⟨ctx, h, hret, heval.2 _ (by rw [hret]; exact List.mem_singleton_self _)⟩

end OrchestrationExecutorFuture

theorem Cell.Served.waiting {c : Cell} {b : Budget} {service : Service} (h : c.Served service)
    (hp : c.poll b = .ok (.pending, c, b)) (hb : c.outcome = none → ¬b.exhausted) :
    c.At .waiting := by
  obtain ⟨hd, -, o, ho, -⟩ := h
  cases o with
  | none => exact ho
  | some v =>
    rcases ho with hg | hdone
    · rcases Cell.poll_given (b := b) hd hg with ⟨-, hx⟩ | ⟨c', b', hp', -⟩
      · exact absurd hx (hb hg.2)
      · rw [hp] at hp'
        cases hp'
    · obtain ⟨p, hp'⟩ := Cell.poll_done (b := b) hdone
      rw [hp] at hp'
      cases hp'

namespace OrchestrationExecutorFuture

variable {self : OrchestrationExecutorFuture} {ctx ctx' : OrchestrationExecutorContext}
  {flow : Flow (OrchestratorResult String)} {service : Service} {history : List HistoryEvent}
  {k : EventKind}

theorem RunsFlow.tasks_wait (hflow : self.RunsFlow flow history)
    (hfaithful : self.Faithful service history) (h : self.replay history = .ok ctx)
    (hrun : ctx.running = true) (hn : ctx.world.notified = false)
    (hb : ∀ N ∈ self.env.budget, ctx.world.answered.length < N) {t : TaskRef} {c : Cell}
    (hc : ctx.world.cells[t]? = some c) (hnone : c.outcome = none) :
    c.dropped = false ∧ c.At .waiting := by
  obtain ⟨base, f, hfn⟩ := running_iff.mp hrun
  obtain ⟨hw, -, -, T, -, hopen, hstuck⟩ := (hflow.served hfaithful h).program base f hfn
  obtain ⟨c', hc', hp⟩ := hstuck hn t (hopen t c hc hnone)
  cases hc.symm.trans hc'
  have hserved := hw.tasks hc
  have haffords := replay_affords hflow.once hflow.meets hfaithful h
  rw [hw.answered_length] at hb
  exact ⟨hserved.live, hserved.waiting hp fun _ => haffords.not_exhausted hb⟩

theorem RunsFlow.waits (hflow : self.RunsFlow flow history)
    (hfaithful : self.Faithful service history) (h : self.replay history = .ok ctx)
    (hrun : ctx.running = true) (hn : ctx.world.notified = false)
    (hb : ∀ N ∈ self.env.budget, ctx.world.requests.length ≤ N) : ctx.world.Serving service ∧
      ∃ (t : TaskRef) (c : Cell),
        ctx.world.cells[t]? = some c ∧ c.dropped = false ∧ c.At .waiting := by
  obtain ⟨base, f, hfn⟩ := running_iff.mp hrun
  have hattended := (hflow.served hfaithful h).program base f hfn
  have hne : ctx.world.waiting ≠ [] := by
    intro hnil
    have hsome := hattended.unready.halts.isSome_iff.mpr (by rw [hnil]; rfl)
    cases hsome
  obtain ⟨q, hq⟩ := List.exists_mem_of_ne_nil _ hne
  obtain ⟨c, hm, -⟩ := List.mem_filterMap.mp hq
  obtain ⟨hm, hnone⟩ := List.mem_filter.mp hm
  obtain ⟨t, hc⟩ := List.mem_iff_getElem?.mp hm
  have hlen := congrArg Multiset.card ctx.world.requests_split
  rw [Multiset.card_add, Multiset.coe_card, Multiset.coe_card, Multiset.coe_card] at hlen
  have hpos := List.length_pos_of_mem hq
  have hspent (N : ℕ) (hN : N ∈ self.env.budget) : ctx.world.answered.length < N := by
    have hle := hb N hN
    omega
  exact ⟨hattended.serving, t, c, hc,
    hflow.tasks_wait hfaithful h hrun hn hspent hc (by simpa using hnone)⟩

theorem RunsFlow.awaits (hflow : self.RunsFlow flow history)
    (hfaithful : self.Faithful service history) (h : self.replay history = .ok ctx)
    (hrun : ctx.running = true) (hn : ctx.world.notified = false)
    (hb : ∀ N ∈ self.env.budget, ctx.world.requests.length ≤ N) :
    (∃ a ∈ ctx.world.issued, ∃ t, ctx.pendingTasks.lookup a.id = some t) ∨
      ∃ name t, t ∈ ctx.pendingEvents.get name := by
  obtain ⟨-, t, c, hc, hd, hw⟩ := hflow.waits hfaithful h hrun hn hb
  have hreg := replay_regular h
  rcases hreg.linked.held hc hd hw with ⟨id, hparked⟩ | ⟨name, hm⟩
  · obtain ⟨a, ho, rfl, -⟩ := hreg.linked.task_at hparked hc
    exact .inl ⟨a, mem_issued hc ho, t, hreg.drained.parked.mp hparked⟩
  · rw [hreg.drained.waiters] at hm
    exact .inr ⟨name, t, hm⟩

/--
When the executor holds no sender any more, the program has returned, and what it asked for and
what it returned are those of a complete direct execution.
-/
theorem replay_completes (hflow : self.RunsFlow flow history)
    (hfaithful : self.Faithful service history) (h : self.replay history = .ok ctx)
    (hs : ∃ e ∈ history, self.starts e.kind = true) (hn : ctx.world.notified = false)
    (hb : ∀ N ∈ self.env.budget, ctx.world.requests.length ≤ N) (htasks : ctx.pendingTasks = ∅)
    (hevents : ctx.pendingEvents = ∅) : ∃ r, ctx.world.returned = [r] ∧
      flow.Runs self.env.toLowercase service ctx.world.requests (some r) := by
  have hreturned : ctx.world.returned ≠ [] := by
    refine (replay_launched h hs).resolve_left fun hrun => ?_
    rcases hflow.awaits hfaithful h hrun hn hb with ⟨a, -, t, hl⟩ | ⟨name, t, hm⟩
    · rw [htasks] at hl
      cases hl
    · rw [hevents, Keyed.get_empty] at hm
      cases hm
  obtain ⟨r, hret, hsettles⟩ := (hflow.served hfaithful h).returned.resolve_left hreturned
  exact ⟨r, hret, hsettles.runs⟩

theorem approval_completes : ∃ ctx r, approvalExecutor.replay approvalHistory = .ok ctx ∧
    ctx.world.returned = [r] ∧
      approval.Runs id (answeredBy approvalAnswer) ctx.world.requests (some r) := by
  obtain ⟨ctx, h, hidle⟩ := Except.exists_of_map
    (show (approvalExecutor.replay approvalHistory).map (fun ctx => (ctx.world.notified,
      ctx.world.requests.length, ctx.pendingTasks.entries.length,
        ctx.pendingEvents.entries.length)) = .ok (false, 3, 0, 0) by decide)
  simp only [Prod.mk.injEq, List.length_eq_zero_iff] at hidle
  obtain ⟨hn, hlen, htasks, hevents⟩ := hidle
  have hb : ∀ N ∈ approvalExecutor.env.budget, ctx.world.requests.length ≤ N := by
    rintro N ⟨⟩
    omega
  obtain ⟨r, hr⟩ := replay_completes (approval_runsFlow (by decide))
    (show approvalExecutor.Faithful (answeredBy approvalAnswer) _ by decide) h
    ⟨executionStarted, by simp [approvalHistory], by decide⟩ hn hb (AList.ext htasks)
    (AList.ext hevents)
  exact ⟨ctx, r, h, hr⟩

theorem pollUnpin_error {base : TaskRef} {f : TaskFuture (OrchestratorResult String)} {w : World}
    {p : Panic} (h : (BoxFuture.suspended base f).pollUnpin self.env w = .error p) :
    (f.poll f.state).run (handle self.env) { w with notified := false } = .error p := by
  simp only [BoxFuture.pollUnpin] at h
  split at h
  · rename_i p' hrun
    cases h
    exact hrun
  · cases h
  · cases h

theorem pollUnpin_fails {F : Panic → Prop}
    {Q : Spec Spending (OrchestratorResult String)} {fn : BoxFuture} {p : Panic}
    (hserved : ctx.Served self.env service F Q) (hrun : ctx.running = true)
    (hfn : ctx.orchestratorFn = some fn)
    (h : fn.pollUnpin self.env ctx.world = .error p) : F p := by
  obtain ⟨base, f, hf⟩ := running_iff.mp hrun
  obtain ⟨hw, T, hg, -⟩ := (hserved.program base f hf).awake
  rw [hfn] at hf
  cases hf
  exact goes_fails hg hw (pollUnpin_error h)

theorem poll_fails {F : Panic → Prop}
    {Q : Spec Spending (OrchestratorResult String)} {p : Panic}
    (hserved : ctx.Served self.env service F Q) (hrun : ctx.running = true)
    (h : self.poll ctx = .error p) : F p := by
  obtain ⟨base, f, hfn⟩ := running_iff.mp hrun
  unfold poll at h
  split at h
  · cases h
  · rw [hfn] at h
    dsimp only at h
    split at h
    · rename_i p' hpoll
      cases h
      exact pollUnpin_fails hserved hrun hfn hpoll
    · cases h
    · cases h

theorem send_live {w : World} {t : TaskRef} {c : Cell} (hc : w.cells[t]? = some c)
    (hd : c.dropped = false) (v : Option String) : ∃ w', w.send t v = some w' := by
  unfold World.send
  rw [hc]
  simp [hd]

theorem resolveTask_total (hreg : ctx.Regular) (hw : ctx.world.Serving service) (id : Int)
    (payload : Option String) (message : String) :
    ∃ ctx₁, ctx.resolveTask id payload message = .ok ctx₁ := by
  unfold resolveTask
  cases hl : ctx.pendingTasks.lookup id with
  | none => exact ⟨_, rfl⟩
  | some t =>
    cases payload with
    | none => exact ⟨_, rfl⟩
    | some v =>
      obtain ⟨c, a, hc, -⟩ := hreg.linked.task (.inl hl)
      obtain ⟨w, hsend⟩ := send_live hc (hw.tasks hc).live (some v)
      simp only [hsend]
      exact ⟨_, rfl⟩

/-- While the program runs, an event makes the executor panic only where the program does. -/
theorem processKind_fails {F : Panic → Prop}
    {Q : Spec Spending (OrchestratorResult String)} {p : Panic}
    (hreg : ctx.Regular) (hq : ctx.Queued) (hserved : ctx.Served self.env service F Q)
    (hk : DurableTask.Faithful self.env service ctx k) (hrun : ctx.running = true)
    (hs : k.isStart = false) (h : self.processKind ctx k = .error p) : F p := by
  -- what the event hands over leaves the program running
  have delivered {ctx₁ : OrchestrationExecutorContext} (hd : Delivery self.env ctx k ctx₁)
      (hp : self.poll ctx₁ = .error p) : F p :=
    poll_fails (hd.served hreg hk hserved) ((running_congr hd.orchestratorFn).trans hrun) hp
  obtain ⟨base, f, hfn⟩ := running_iff.mp hrun
  have hw := (hserved.program base f hfn).serving
  cases k with
  | start s => cases hs
  | complete =>
    simp only [processKind, executionCompleted, hfn] at h
    split at h
    · rename_i p' hpoll
      cases h
      exact pollUnpin_fails hserved hrun hfn hpoll
    · cases h
  | resolve id payload message polls =>
    obtain ⟨ctx₁, hres⟩ := resolveTask_total hreg hw id payload message
    cases polls with
    | false =>
      rw [processKind, hres] at h
      cases h
    | true =>
      simp only [processKind, resolveAndPoll, hres] at h
      exact delivered (resolveTask_delivery self true hres) h
  | raise r =>
    simp only [processKind, eventRaised] at h
    cases hl : ctx.pendingEvents.lookup (self.env.toLowercase r.name) with
    | none => rw [hl] at h; cases h
    | some waiters =>
      cases waiters with
      | nil => exact absurd hl (hq.waiters _)
      | cons t waiters =>
        obtain ⟨c, hc, -⟩ := hreg.linked.waiter (mem_waiters_of_lookup hreg.drained hl)
        obtain ⟨w, hsend⟩ := send_live hc (hw.tasks hc).live r.input
        rw [hl] at h
        simp only [List.head?_cons, hsend] at h
        exact delivered (.give r t waiters w hl hsend) h
  | _ => cases h

theorem start_fails {F : Panic → Prop}
    {Q : Spec Spending (OrchestratorResult String)} {p : Panic}
    {s : ExecutionStartedEvent} (hserved : ctx.Served self.env service F Q) (hu : ctx.Unstarted)
    (hmeets : ∀ func, self.registry.getOrchestrator s.name = some func →
      (func.call self.instanceId s.input).Meets (regime self.env service F) Q)
    (h : self.start ctx s = .error p) : F p := by
  unfold start at h
  split at h
  · cases h
  · rename_i func hreg
    dsimp only at h
    split at h
    · rename_i p' hpoll
      cases h
      obtain ⟨hw, hg⟩ := first_goes hu hserved.buffered (hmeets func hreg)
      exact goes_fails hg hw (pollUnpin_error hpoll)
    · cases h
    · cases h

/--
A run over a faithful history panics only where a direct execution does: when it cannot encode what
it asks for or decode what it was answered. Or an event polls it that comes after it has finished.
-/
theorem replay_fails {p : Panic} (hflow : self.RunsFlow flow history)
    (hfaithful : self.Faithful service history) (h : self.replay history = .error p) :
    flow.Panics self.env.toLowercase service p ∨ ∃ past e later ctx, history = past ++ e :: later ∧
      self.replay past = .ok ctx ∧ self.processEvent ctx e = .error p ∧ ctx.running = false ∧
        e.isStart = false ∧ (self.polls ctx e.kind = true ∨ ctx.sends e.kind = true) := by
  obtain ⟨past, e, later, ctx, hsplit, hr, he⟩ := processEvents_error_split h
  have hpast : past.Sublist history := hsplit ▸ List.sublist_append_left _ _
  have hserved : ctx.Served self.env service (flow.Panics self.env.toLowercase service)
      (flow.Settles self.env.toLowercase service) := by
    refine replay_served ((hpast.countP_le).trans hflow.once)
      (fun e' he' => hflow.meets e' (hpast.subset he')) ?_ hr
    exact Throughout.left (hsplit ▸ hfaithful)
  have hk := throughout_iff.mp hfaithful past e later ctx hsplit hr
  have hp := he
  rw [processEvent_eq] at hp
  cases hs : e.isStart with
  | true =>
    obtain ⟨s, hkind⟩ := HistoryEvent.isStart_iff.mp hs
    have hzero : past.countP HistoryEvent.isStart = 0 := by
      have honce := hflow.once
      rw [hsplit, List.countP_append, List.countP_cons, if_pos hs] at honce
      omega
    rw [hkind] at hp
    refine .inl (start_fails hserved (replay_unstarted hzero hr) (fun func hreg => ?_) hp)
    exact hflow.meets e (by simp [hsplit]) s func hkind hreg
  | false =>
    cases hrun : ctx.running with
    | true =>
      exact .inl (processKind_fails (replay_regular hr) (replay_queued hr) hserved hk hrun hs hp)
    | false =>
      refine .inr ⟨past, e, later, ctx, hsplit, hr, he, hrun, hs, ?_⟩
      by_contra hquiet
      rw [not_or, Bool.not_eq_true, Bool.not_eq_true] at hquiet
      obtain ⟨ctx', he'⟩ := processEvent_total hquiet.1 hquiet.2
      rw [he] at he'
      cases he'

theorem approval_fails : approval.Panics id (answeredBy approvalAnswer) .polledAfterReady ∨
    ∃ past e later ctx, approvalHistory ++ [taskCompleted 1 (some "\"a\"")] = past ++ e :: later ∧
      approvalExecutor.replay past = .ok ctx ∧
      approvalExecutor.processEvent ctx e = .error .polledAfterReady ∧ ctx.running = false ∧
        e.isStart = false ∧
          (approvalExecutor.polls ctx e.kind = true ∨ ctx.sends e.kind = true) := by
  have hmap : (approvalExecutor.replay (approvalHistory ++ [taskCompleted 1 (some "\"a\"")])).map
      (fun _ => ()) = .error .polledAfterReady := by decide
  cases h : approvalExecutor.replay (approvalHistory ++ [taskCompleted 1 (some "\"a\"")]) with
  | ok ctx =>
    rw [h] at hmap
    cases hmap
  | error p =>
    rw [h] at hmap
    cases hmap
    exact replay_fails (approval_runsFlow (by decide))
      (show approvalExecutor.Faithful (answeredBy approvalAnswer) _ by decide) h

end OrchestrationExecutorFuture

end DurableTask
