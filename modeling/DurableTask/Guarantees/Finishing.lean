import DurableTask.Guarantees.Answering
import DurableTask.Guarantees.Liveness
import DurableTask.Guarantees.Observation
import DurableTask.Guarantees.Queueing

/-! # Every run can be finished

While the program is suspended, it waits for something that the sidecar knows
of: a task that is due or a signal. The answer can be delivered, and it brings
the program closer to the end of its direct execution. So from every orderly run
there is a way to the report of the outcome.
-/

namespace DurableTask

open Interaction Queues OrchestrationExecutorContext

def OrchestratorAction.answer (a : OrchestratorAction) (payload : String) : HistoryEvent :=
  match a.orchestratorActionType with
  | some (.createTimer _) => timerFired a.id
  | some (.createSubOrchestration _) =>
    historyEvent (.subOrchestrationInstanceCompleted ⟨a.id, some payload⟩)
  | _ => taskCompleted a.id (some payload)

theorem OrchestratorAction.answer_kind {a : OrchestratorAction} {q : TaskRequest} {payload : String}
    (hq : a.request? = some q) (htimer : q = .timer → payload = "") :
    ∃ message, (a.answer payload).kind = .resolve a.id (some payload) message true := by
  unfold OrchestratorAction.request? at hq
  unfold OrchestratorAction.answer
  split at hq <;> cases hq <;> rename_i t ht <;> rw [ht]
  · exact ⟨_, rfl⟩
  · exact ⟨_, rfl⟩
  · rw [htimer rfl]
    exact ⟨_, rfl⟩

theorem Confirms.exists_of_request {a : OrchestratorAction} (h : a.request?.isSome) :
    ∃ e, Confirms a e := by
  obtain ⟨id, action⟩ := a
  rcases action with _ | task | timer | child | complete
  · cases h
  · exact ⟨_, .scheduleTask id task none⟩
  · exact ⟨_, .createTimer id timer none⟩
  · exact ⟨_, .createSubOrchestration id child none⟩
  · cases h

theorem Confirms.exists_list {actions : List OrchestratorAction}
    (h : ∀ a ∈ actions, a.request?.isSome) : ∃ events, List.Forall₂ Confirms actions events := by
  induction actions with
  | nil => exact ⟨[], .nil⟩
  | cons a actions ih =>
    obtain ⟨e, he⟩ := Confirms.exists_of_request (h a List.mem_cons_self)
    obtain ⟨events, hevents⟩ := ih fun b hb => h b (List.mem_cons_of_mem _ hb)
    exact ⟨e :: events, .cons he hevents⟩

theorem issued_asks {w : World} (h : ∀ c ∈ w.cells, c.origin.request?.isSome)
    {a : OrchestratorAction} (ha : a ∈ w.issued) : a.request?.isSome := by
  obtain ⟨c, hc, ho⟩ := List.mem_filterMap.mp ha
  have hasks := h c hc
  cases horigin : c.origin with
  | action b =>
    rw [horigin] at ho hasks
    cases ho
    exact hasks
  | signal name =>
    rw [horigin] at ho
    cases ho

namespace OrchestrationExecutorFuture

variable {self : OrchestrationExecutorFuture} {ctx ctx' : OrchestrationExecutorContext}
  {flow : Flow (OrchestratorResult String)} {service : Service}
  {history news : List HistoryEvent} {episodes : List Episode} {ep : Episode} {env : Env}
  {e : HistoryEvent} {answer : TaskRequest → Option String}

theorem Plays.asks (hplays : self.Plays history ep)
    (hflow : self.RunsFlow flow (history ++ ep.newEvents))
    (hfaithful : (self.under ep.env).Faithful service (history ++ ep.newEvents)) :
    ∀ a ∈ ep.tasks, a.request?.isSome := by
  intro a ha
  obtain ⟨ctx, h, hactions⟩ := hplays.replay
  rw [Episode.tasks, hactions, List.mem_filter] at ha
  obtain ⟨id, hl⟩ := mem_getActions.mp ha.1
  have hincomplete : a.isComplete = false := by simpa using ha.2
  rcases replay_pending h id a hl with ⟨hissued, -⟩ | ⟨r, -, rfl⟩ | ⟨-, rfl⟩
  · exact issued_asks ((hflow.under ep.env).served hfaithful h).asks hissued
  · rw [completionAction_isComplete] at hincomplete
    cases hincomplete
  · cases hincomplete

theorem OrderlyRun.extend (hrun : self.OrderlyRun service history episodes)
    (hnews : Orderly self.env service episodes news) (hflow : self.RunsFlow flow (history ++ news))
    (hsafe : ∀ p, ¬flow.Panics self.env.toLowercase service p) :
    ∃ ep, ep.env = self.env ∧ ep.newEvents = news ∧ self.Plays history ep ∧
      (∀ e ∈ ep.confirmations, ∃ id, e.kind = .acknowledge id) ∧
      self.OrderlyRun service (history ++ news ++ ep.confirmations) (episodes ++ [ep]) := by
  obtain ⟨actions, hplays⟩ := hrun.plays (.refl _) hnews hflow hsafe
  have hfaithful := hrun.run.faithful_news (.refl _) hflow (hrun.faithful (.refl _) hflow.left)
    fun e he => ⟨hnews.isNews e he, hnews.answers e he⟩
  obtain ⟨confirmations, hconf⟩ := Confirms.exists_list ((hplays []).asks hflow hfaithful)
  exact ⟨⟨self.env, news, actions, confirmations⟩, rfl, rfl, hplays _, (confirmations_kind hconf).1,
    hrun.episode (hplays _) hnews (.refl _) hconf⟩

/--
Whatever answers to what is due the sidecar delivers, and in whatever order: the worker does not
panic, unless a direct execution of the program does, and the run goes on with the confirmations
of its actions in any order.
-/
theorem run_goes_on (hrun : self.OrderlyRun service history episodes) (henv : self.env.Alike env)
    (hnews : Orderly self.env service episodes news) (hflow : self.RunsFlow flow (history ++ news))
    (hsafe : ∀ p, ¬flow.Panics self.env.toLowercase service p) : ∃ actions, ∀ order,
      order.Perm (actions.filter fun a => !a.isComplete) → ∃ confirmations,
        List.Forall₂ Confirms order confirmations ∧
        self.OrderlyRun service (history ++ news ++ confirmations)
          (episodes ++ [⟨env, news, actions, confirmations⟩]) := by
  obtain ⟨actions, hplays⟩ := hrun.plays henv hnews hflow hsafe
  have hfaithful := hrun.run.faithful_news henv hflow (hrun.faithful henv hflow.left)
    fun e he => ⟨hnews.isNews e he, hnews.answers e he⟩
  refine ⟨actions, fun order horder => ?_⟩
  obtain ⟨confirmations, hconf⟩ := Confirms.exists_list fun a ha =>
    (hplays []).asks hflow hfaithful a (horder.mem_iff.mp ha)
  exact ⟨confirmations, hconf, hrun.episode (hplays _) hnews horder hconf⟩

def approvalService : TaskRequest → Option String
  | .activity _ input => some (input.getD "")
  | .signal _ => some "\"yes\""
  | _ => some ""

theorem approval_total : approval.Total id (answeredBy approvalService) := by
  refine ⟨⟨⟨_, rfl, ?_⟩, _, rfl, ?_⟩, fun _ => ⟨_, rfl, ?_⟩⟩ <;> rintro payload ⟨⟩ <;> decide

theorem requestEpisode_orderly : approvalExecutor.OrderlyRun (answeredBy approvalService)
    ([] ++ requestEpisode.newEvents ++ requestEpisode.confirmations) ([] ++ [requestEpisode]) :=
  .episode .nil ⟨⟨rfl, rfl⟩, by decide, by decide, by decide⟩
    ⟨by decide, by decide, by decide, by decide, by decide⟩ (.swap _ _ _)
    (.cons (.scheduleTask _ _ _) (.cons (.scheduleTask _ _ _) .nil))

theorem approval_goes_on : ∃ actions, ∀ order,
    order.Perm (actions.filter fun a => !a.isComplete) → ∃ confirmations,
      List.Forall₂ Confirms order confirmations ∧
      approvalExecutor.OrderlyRun (answeredBy approvalService)
        ([] ++ requestEpisode.newEvents ++ requestEpisode.confirmations ++
          answerEpisode.newEvents ++ confirmations) ([] ++ [requestEpisode] ++
            [⟨answerEpisode.env, answerEpisode.newEvents, actions, confirmations⟩]) :=
  run_goes_on requestEpisode_orderly ⟨rfl, rfl⟩
    ⟨by decide, by decide, by decide, by decide, by decide⟩ (approval_runsFlow (by decide))
    fun _ => approval_total.not_panics

theorem orderly_nil : Orderly env service episodes [] := by
  constructor <;> simp [answered]

theorem orderly_singleton (hnews : e.kind.isNews = true) (hcomplete : e.kind ≠ .complete)
    (hanswers : AnswersTask env service (episodes.flatMap Episode.tasks) e.kind)
    (hdue : ∀ id, e.kind.Names id → id ∈ due episodes) : Orderly env service episodes [e] where
  isNews e' he' := List.mem_singleton.mp he' ▸ hnews
  answers e' he' := List.mem_singleton.mp he' ▸ hanswers
  incomplete e' he' := List.mem_singleton.mp he' ▸ hcomplete
  once := by
    rw [answered, List.filterMap_cons, List.filterMap_nil]
    cases e.kind.answered? <;> simp
  due id hid := by
    obtain ⟨e', he', hnames⟩ := mem_answered.mp hid
    exact hdue id (List.mem_singleton.mp he' ▸ hnames)

theorem answers_signal (hanswer : ∀ q, ∃ v, answer q = some v) (h : self.replay history = .ok ctx)
    {name : String} {t : TaskRef} (hm : t ∈ ctx.pendingEvents.get name) :
    ∃ e, Orderly self.env (answeredBy answer) episodes [e] ∧ e.isStart = false ∧
      e.kind.silent = false ∧ self.hands ctx e.kind = true := by
  have hreg := replay_regular h
  obtain ⟨c, hc, ho, -⟩ := hreg.linked.waiter (hreg.drained.waiters name ▸ hm)
  obtain ⟨name, rfl⟩ := (replay_filed h).lowercased c.origin
    (List.mem_map_of_mem (List.mem_of_getElem? hc)) _ ho
  obtain ⟨payload, hpayload⟩ := hanswer (.signal (self.env.toLowercase name))
  have hk : (eventRaisedEvent name (some payload)).kind = .raise ⟨name, some payload⟩ := rfl
  refine ⟨_, orderly_singleton (by rw [hk]; rfl) (by simp [hk])
    (by rw [hk]; exact ⟨payload, rfl, hpayload⟩) (by simp [hk, EventKind.Names]),
    by rw [HistoryEvent.isStart, hk]; rfl, by rw [hk]; rfl, ?_⟩
  rw [hk]
  cases hl : ctx.pendingEvents.lookup (self.env.toLowercase name) with
  | none =>
    rw [Keyed.get_of_lookup_none hl] at hm
    cases hm
  | some waiters =>
    exact congrArg Option.isSome hl

section Awaits

variable (hrun : self.OrderlyRun (answeredBy answer) history episodes)
  (hanswer : ∀ q, ∃ v, answer q = some v) (h : self.replay history = .ok ctx)

include hrun hanswer h

theorem OrderlyRun.answers_task (hflow : self.RunsFlow flow history)
    (htimer : answer .timer = some "") (hret : ctx.world.returned = []) {a : OrchestratorAction}
    (ha : a ∈ ctx.world.issued) (hpending : (ctx.pendingTasks.lookup a.id).isSome) :
    ∃ e, Orderly self.env (answeredBy answer) episodes [e] ∧ e.isStart = false ∧
      e.kind.silent = false ∧ self.hands ctx e.kind = true := by
  have hfaithful : self.Faithful (answeredBy answer) history := hrun.faithful (.refl _) hflow
  have hab := hflow.unabandonedAt hfaithful h
  have hdue := hrun.run.accounted self.env ctx (.refl _) h hab hret a.id
    (AList.lookup_isSome.mp hpending)
  -- the action as the sidecar knows it
  have hm := List.mem_map_of_mem (f := OrchestratorAction.timeless) ha
  rw [← (hrun.run.settled self.env ctx (.refl _) h hab).2.mem_iff, List.mem_map] at hm
  obtain ⟨b, hb, htimeless⟩ := hm
  have hid : b.id = a.id := by rw [← b.timeless_id, htimeless, a.timeless_id]
  have hrequest : b.request? = a.request? := by
    rw [← b.timeless_request?, htimeless, a.timeless_request?]
  obtain ⟨q, hq⟩ := Option.isSome_iff_exists.mp (issued_asks (hflow.served hfaithful h).asks ha)
  obtain ⟨payload, hpayload⟩ := hanswer q
  have hfired : q = .timer → payload = "" := by
    rintro rfl
    exact Option.some.inj (hpayload.symm.trans htimer)
  obtain ⟨message, hk⟩ := b.answer_kind (hrequest.trans hq) hfired
  refine ⟨b.answer payload, orderly_singleton (by rw [hk]; rfl) (by simp [hk]) ?_ ?_, ?_⟩
  · rw [hk]
    refine ⟨b, hb, rfl, payload, rfl, fun q' hq' => ?_⟩
    rw [hrequest, hq] at hq'
    cases hq'
    exact hpayload
  · rw [hk]
    rintro id rfl
    exact hid ▸ hdue
  · rw [HistoryEvent.isStart, hk]
    exact ⟨rfl, rfl, hid ▸ hpending⟩

theorem OrderlyRun.awaits (hflow : self.RunsFlow flow history) (htimer : answer .timer = some "")
    (hrunning : ctx.running = true) (hnotified : ctx.world.notified = false)
    (hb : ∀ N ∈ self.env.budget, ctx.world.requests.length ≤ N) :
    ∃ e, Orderly self.env (answeredBy answer) episodes [e] ∧ e.isStart = false ∧
      e.kind.silent = false ∧ self.hands ctx e.kind = true := by
  have hfaithful : self.Faithful (answeredBy answer) history := hrun.faithful (.refl _) hflow
  obtain ⟨base, f, hfn⟩ := running_iff.mp hrunning
  have hret := ((hflow.served hfaithful h).program base f hfn).unreturned
  rcases hflow.awaits hfaithful h hrunning hnotified hb with ⟨a, ha, t, hl⟩ | ⟨name, t, hm⟩
  · exact hrun.answers_task hanswer h hflow htimer hret ha (Option.isSome_of_eq_some hl)
  · exact answers_signal hanswer h hm

end Awaits

theorem RunsFlow.append {later : List HistoryEvent} (hflow : self.RunsFlow flow history)
    (hlater : ∀ e ∈ later, e.isStart = false) : self.RunsFlow flow (history ++ later) where
  once := by
    have hnone : later.countP HistoryEvent.isStart = 0 :=
      List.countP_eq_zero.mpr fun e he => by simp [hlater e he]
    rw [List.countP_append, hnone]
    exact hflow.once
  future e he s func hk hreg := by
    rcases List.mem_append.mp he with he | he
    · exact hflow.future e he s func hk hreg
    · have hstart := hlater e he
      rw [HistoryEvent.isStart, hk] at hstart
      cases hstart

theorem OrderlyRun.incomplete (hrun : self.OrderlyRun service history episodes) :
    ∀ e ∈ history, e.kind ≠ .complete := by
  induction hrun with
  | nil => simp
  | episode hrun hplays hnews horder hconf ih =>
    intro e he
    rcases List.mem_append.mp he with he | he
    · exact (List.mem_append.mp he).elim (ih e) (hnews.incomplete e)
    · obtain ⟨id, hid⟩ := (confirmations_kind hconf).1 e he
      simp [hid]

theorem scheduled_append (episodes more : List Episode) :
    scheduled (episodes ++ more) = scheduled episodes + scheduled more := by
  rw [scheduled, List.flatMap_append, List.filterMap_append, ← Multiset.coe_add]
  rfl

/-- While the program runs, one more answer brings it closer to its end. -/
theorem OrderlyRun.advances (hrun : self.OrderlyRun (answeredBy answer) history episodes)
    (hflow : self.RunsFlow flow history) (hloud : ∀ e ∈ history, e.kind.silent = false)
    (hsafe : ∀ p, ¬flow.Panics self.env.toLowercase (answeredBy answer) p)
    (hanswer : ∀ q, ∃ v, answer q = some v) (htimer : answer .timer = some "")
    (h : self.replay history = .ok ctx) (hrunning : ctx.running = true)
    (hb : ∀ N ∈ self.env.budget, ctx.world.requests.length ≤ N) : ∃ later ep ctx',
      self.OrderlyRun (answeredBy answer) (history ++ later) (episodes ++ [ep]) ∧
      self.RunsFlow flow (history ++ later) ∧
      (∀ e ∈ history ++ later, e.kind.silent = false) ∧
      self.replay (history ++ later) = .ok ctx' ∧
      ctx.world.settled.card < ctx'.world.settled.card := by
  obtain ⟨e, hnews, hstart, hsilent, hhands⟩ := hrun.awaits hanswer h hflow htimer hrunning
    (replay_notified hloud h) hb
  have hflow' : self.RunsFlow flow (history ++ [e]) :=
    hflow.append fun e' he' => List.mem_singleton.mp he' ▸ hstart
  obtain ⟨ep, -, -, -, hack, hrun'⟩ := hrun.extend hnews hflow' hsafe
  have hsplit : history ++ [e] ++ ep.confirmations = history ++ e :: ep.confirmations := by simp
  obtain ⟨ctx', h'⟩ := hrun'.run.replays (.refl _)
  have hack' {P : EventKind → Prop} (hP : ∀ id, P (.acknowledge id)) :
      ∀ e ∈ ep.confirmations, P e.kind := by
    intro e he
    obtain ⟨id, hid⟩ := hack e he
    exact hid ▸ hP id
  rw [hsplit] at hrun' h'
  have hflow'' : self.RunsFlow flow (history ++ e :: ep.confirmations) := by
    rw [← hsplit]
    exact hflow'.append (hack' (P := fun k => k.isStart = false) fun _ => rfl)
  refine ⟨_, ep, ctx', hrun', hflow'', ?_, h', ?_⟩
  · intro e' he'
    rcases List.mem_append.mp he' with he' | he'
    · exact hloud e' he'
    · rcases List.mem_cons.mp he' with rfl | he'
      · exact hsilent
      · exact hack' (P := fun k => k.silent = false) (fun _ => rfl) e' he'
  · obtain ⟨ctx₁, h₁, hlater⟩ := processEvents_split h'
    obtain rfl : ctx = ctx₁ := Except.ok.inj (h.symm.trans h₁)
    have hle := handed_le (replay_regular h) hlater
    have hone : 1 ≤ self.handed ctx (e :: ep.confirmations) := by
      rw [handed, hhands]
      exact Nat.le_add_right _ _
    exact Nat.lt_of_lt_of_le (Nat.lt_add_of_pos_right hone) hle

theorem OrderlyRun.reports (hrun : self.OrderlyRun (answeredBy answer) history episodes)
    (hflow : self.RunsFlow flow history)
    (hsafe : ∀ p, ¬flow.Panics self.env.toLowercase (answeredBy answer) p)
    (h : self.replay history = .ok ctx) (hstopped : ctx.running = false)
    (hscheduled : scheduled episodes ≠ 0) : ∃ later ep id requests r,
      self.OrderlyRun (answeredBy answer) (history ++ later) (episodes ++ [ep]) ∧
      flow.eval self.env.toLowercase answer = (requests, some r) ∧
      scheduled (episodes ++ [ep]) = requests.filter (fun q => q.isSignal = false) ∧
      completionAction id r ∈ ep.actions := by
  have hfaithful : self.Faithful (answeredBy answer) history := hrun.faithful (.refl _) hflow
  have hab := hflow.unabandonedAt hfaithful h
  have hissued : ctx.world.issued ≠ [] := by
    intro hnone
    rw [scheduled_eq (hrun.run.settled self.env ctx (.refl _) h hab).2, hnone] at hscheduled
    exact hscheduled rfl
  have hserved := hflow.served hfaithful h
  -- it has returned, for otherwise it would have no tasks
  have hreturned : ctx.world.returned ≠ [] := by
    intro hret
    refine hissued ?_
    rw [World.issued, hserved.idle hstopped hret]
    rfl
  obtain ⟨r, hret, hsettles⟩ := hserved.returned.resolve_left hreturned
  obtain ⟨ep, henv, hnil, hplays, -, hrun'⟩ :=
    hrun.extend orderly_nil (by rwa [List.append_nil]) hsafe
  have hnow : history ++ ep.newEvents = history := by rw [hnil, List.append_nil]
  have h' : (self.under ep.env).replay (history ++ ep.newEvents) = .ok ctx := by
    rw [hnow, henv]
    exact h
  have hfaithful' : (self.under ep.env).Faithful (answeredBy answer) (history ++ ep.newEvents) := by
    rw [hnow, henv]
    exact hfaithful
  obtain ⟨id, hreport⟩ := RunsFlow.reports (hnow.symm ▸ hflow) hrun.run hplays hfaithful' h'
    (hnow.symm ▸ hrun.incomplete) hissued (hret ▸ List.mem_singleton_self r)
  rw [List.append_assoc] at hrun'
  refine ⟨_, ep, id, ctx.world.requests, r, hrun', Flow.runs_iff.mp hsettles.runs, ?_, hreport⟩
  rw [scheduled_eq (hrun.run.issued hplays h' hab), World.issued_filterMap, Multiset.filter_coe]
  simp

/--
From every run in which the sidecar answers what is due there is a way to the end: it can go on so
that an episode reports the outcome of the direct execution, after everything was scheduled that
this execution asks for.
-/
theorem run_finishes (hrun : self.OrderlyRun (answeredBy answer) history episodes)
    (hflow : self.RunsFlow flow history) (hloud : ∀ e ∈ history, e.kind.silent = false)
    (hsafe : ∀ p, ¬flow.Panics self.env.toLowercase (answeredBy answer) p)
    (hanswer : ∀ q, ∃ v, answer q = some v) (htimer : answer .timer = some "")
    (hb : ∀ N ∈ self.env.budget, (flow.eval self.env.toLowercase answer).1.card ≤ N)
    (hscheduled : scheduled episodes ≠ 0) : ∃ later more ep id requests r,
      self.OrderlyRun (answeredBy answer) (history ++ later) (episodes ++ more ++ [ep]) ∧
      flow.eval self.env.toLowercase answer = (requests, some r) ∧
      scheduled (episodes ++ more ++ [ep]) = requests.filter (fun q => q.isSignal = false) ∧
      completionAction id r ∈ ep.actions := by
  obtain ⟨ctx, h⟩ : ∃ ctx, self.replay history = .ok ctx := hrun.run.replays (.refl _)
  -- the rank is the number of requests of the direct execution whose tasks have not settled
  induction hn : (flow.eval self.env.toLowercase answer).1.card - ctx.world.settled.card using
    Nat.strong_induction_on generalizing history episodes ctx with
  | h n ih =>
  cases hrunning : ctx.running with
  | false =>
    obtain ⟨later, ep, id, requests, r, hdone⟩ :=
      hrun.reports hflow hsafe h hrunning hscheduled
    refine ⟨later, [], ep, id, requests, r, ?_⟩
    rw [List.append_nil]
    exact hdone
  | true =>
    have hfaithful : self.Faithful (answeredBy answer) history := hrun.faithful (.refl _) hflow
    obtain ⟨result, hruns, -⟩ := hflow.runs hfaithful h
    have hcard : ctx.world.requests.length ≤ (flow.eval self.env.toLowercase answer).1.card :=
      Multiset.card_le_card hruns.eval.1
    have hb' : ∀ N ∈ self.env.budget, ctx.world.requests.length ≤ N :=
      fun N hN => hcard.trans (hb N hN)
    obtain ⟨hw, t, c, hc, -, hwait⟩ :=
      hflow.waits hfaithful h hrunning (replay_notified hloud h) hb'
    have hopen : ctx.world.settled.card < (flow.eval self.env.toLowercase answer).1.card :=
      (World.settled_card_lt hc hwait).trans_le (hw.requests_length ▸ hcard)
    obtain ⟨later, ep, ctx', hrun', hflow', hloud', h', hlt⟩ :=
      hrun.advances hflow hloud hsafe hanswer htimer h hrunning hb'
    have hscheduled' : scheduled (episodes ++ [ep]) ≠ 0 := by
      rw [scheduled_append]
      exact fun hzero => hscheduled (add_eq_zero.mp hzero).1
    have hrank := Nat.sub_lt_sub_left hopen hlt
    obtain ⟨later', more, ep', id, requests, r, hdone⟩ :=
      ih _ (hn ▸ hrank) hrun' hflow' hloud' hscheduled' ctx' h' rfl
    refine ⟨later ++ later', ep :: more, ep', id, requests, r, ?_⟩
    simpa only [List.append_assoc, List.cons_append, List.nil_append] using hdone

theorem approval_finishes : ∃ later more ep id' requests r,
    approvalExecutor.OrderlyRun (answeredBy approvalService)
      ([] ++ requestEpisode.newEvents ++ requestEpisode.confirmations ++ later)
      ([] ++ [requestEpisode] ++ more ++ [ep]) ∧
      approval.eval id approvalService = (requests, some r) ∧
      scheduled ([] ++ [requestEpisode] ++ more ++ [ep]) =
        requests.filter (fun q => q.isSignal = false) ∧ completionAction id' r ∈ ep.actions := by
  have hb : ∀ N ∈ approvalExecutor.env.budget, (approval.eval id approvalService).1.card ≤ N := by
    rintro N ⟨⟩
    decide
  exact run_finishes requestEpisode_orderly (approval_runsFlow (by decide)) (by decide)
    (fun _ => approval_total.not_panics) (fun q => by cases q <;> exact ⟨_, rfl⟩) rfl hb (by decide)

end OrchestrationExecutorFuture

end DurableTask
