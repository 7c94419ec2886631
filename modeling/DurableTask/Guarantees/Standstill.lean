import DurableTask.Guarantees.EndToEnd
import DurableTask.Guarantees.Observation
import DurableTask.Guarantees.Signals

/-! # As far as the answers go

After every episode, the sidecar has what a direct execution comes to that goes
on until there is nothing left but requests without an answer. So nothing is
lost on the way: what the program still waits for is due, and of each signal
more are awaited than events were raised.
-/

namespace DurableTask

open Interaction Queues OrchestrationExecutorContext

variable {env env' : Env}

def unanswered (episodes : List Episode) : Multiset TaskRequest :=
  (((episodes.flatMap Episode.tasks).filter fun a => a.id ∈ due episodes).filterMap
    OrchestratorAction.request? : List TaskRequest)

/-- No answer has come to what is waited for. -/
structure Lacks (env : Env) (history : List HistoryEvent) (episodes : List Episode)
    (answered waiting : Multiset TaskRequest) : Prop where
  tasks : (waiting.filter fun q => q.isSignal = false) ≤ unanswered episodes
  signals : ∀ name, .signal name ∈ waiting →
    (raised env name history).length < (answered + waiting).count (.signal name)

theorem Env.Alike.raised (h : env.Alike env') (name : String) (history : List HistoryEvent) :
    raised env' name history = raised env name history := by
  rw [DurableTask.raised, DurableTask.raised]
  congr 1
  funext e
  unfold EventKind.raises
  rw [h.toLowercase]

theorem Lacks.confirmed {history events : List HistoryEvent} {episodes : List Episode}
    {answered waiting : Multiset TaskRequest} (h : Lacks env history episodes answered waiting)
    (hk : ∀ e ∈ events, ∃ id, e.kind = .acknowledge id) :
    Lacks env (history ++ events) episodes answered waiting := by
  refine ⟨h.tasks, fun name hm => ?_⟩
  have hnone : raised env name events = [] := by
    refine List.filterMap_eq_nil_iff.mpr fun e he => ?_
    obtain ⟨id, hid⟩ := hk e he
    rw [hid]
    rfl
  rw [raised, List.filterMap_append, ← raised, ← raised, hnone, List.append_nil]
  exact h.signals name hm

theorem World.signals_requests (w : World) (name : String) :
    (w.signals name).length = w.requests.count (.signal name) := by
  rw [w.signals_length, World.requests_eq, List.count_filterMap]
  exact List.countP_congr fun o _ => by simp [Origin.request?_signal]

namespace OrchestrationExecutorFuture

/-- No program was started, and nothing was asked for. -/
structure Unasked (executor : OrchestrationExecutorFuture) (history : List HistoryEvent)
    (episodes : List Episode) : Prop where
  unstarted : ∀ e ∈ history, executor.starts e.kind = false
  scheduled : DurableTask.scheduled episodes = 0
  incomplete : ∀ ep ∈ episodes.getLast?, ∀ a ∈ ep.actions, a.isComplete = false

/-- What was asked for and reported is what a direct execution comes to. -/
structure Tracks (executor : OrchestrationExecutorFuture) (flow : Flow (OrchestratorResult String))
    (service : Service) (history : List HistoryEvent) (episodes : List Episode)
    (answered waiting : Multiset TaskRequest) (result : Option (OrchestratorResult String)) :
    Prop where
  halts : flow.Halts executor.env.toLowercase service answered waiting result
  scheduled : DurableTask.scheduled episodes =
    (answered + waiting).filter fun q => q.isSignal = false
  /-- The last episode reports nothing but the outcome. -/
  outcome : ∀ ep ∈ episodes.getLast?, ∀ a ∈ ep.actions, a.isComplete = true →
    ∃ r, result = some r ∧ a = completionAction a.id r
  reports : (∀ e ∈ history, e.kind ≠ .complete) → DurableTask.scheduled episodes ≠ 0 →
    ∀ ep ∈ episodes.getLast?, ∀ r ∈ result, ∃ id, completionAction id r ∈ ep.actions

variable {self : OrchestrationExecutorFuture} {ctx : OrchestrationExecutorContext}
  {flow : Flow (OrchestratorResult String)} {service : Service}
  {history : List HistoryEvent} {episodes : List Episode} {ep : Episode}

section Confirmed

variable {events : List HistoryEvent} {answered waiting : Multiset TaskRequest}
  {result : Option (OrchestratorResult String)}

theorem Unasked.confirmed (h : self.Unasked history episodes)
    (hk : ∀ e ∈ events, ∃ id, e.kind = .acknowledge id) :
    self.Unasked (history ++ events) episodes := by
  refine ⟨fun e he => ?_, h.scheduled, h.incomplete⟩
  rcases List.mem_append.mp he with he | he
  · exact h.unstarted e he
  · obtain ⟨id, hid⟩ := hk e he
    rw [hid]
    rfl

theorem Tracks.append (h : self.Tracks flow service history episodes answered waiting result) :
    self.Tracks flow service (history ++ events) episodes answered waiting result :=
  ⟨h.halts, h.scheduled, h.outcome,
    fun hincomplete => h.reports fun e he => hincomplete e (List.mem_append_left _ he)⟩

end Confirmed

theorem Run.unanswered (hrun : self.Run history episodes) (hplays : self.Plays history ep)
    (h : (self.under ep.env).replay (history ++ ep.newEvents) = .ok ctx)
    (ha : ∀ t, ¬ctx.AbandonedAt t) : DurableTask.unanswered (episodes ++ [ep]) =
      ((ctx.world.issued.filter fun a => a.id ∈ due (episodes ++ [ep])).filterMap
        OrchestratorAction.request? : List TaskRequest) := by
  rw [DurableTask.unanswered, List.filterMap_filter, List.filterMap_filter]
  refine Multiset.coe_eq_coe.mpr (perm_of_timeless (fun a => ?_) (hrun.issued hplays h ha))
  rw [a.timeless_id, a.timeless_request?]

theorem Run.waiting_due (hrun : self.Run history episodes) (hplays : self.Plays history ep)
    (h : (self.under ep.env).replay (history ++ ep.newEvents) = .ok ctx)
    (ha : ∀ t, ¬ctx.AbandonedAt t) (hret : ctx.world.returned = [])
    (hwait : ∀ (t : TaskRef) (c : Cell), ctx.world.cells[t]? = some c → c.outcome = none →
      c.dropped = false ∧ c.At .waiting) :
    ((ctx.world.waiting : Multiset TaskRequest).filter fun q => q.isSignal = false) ≤
      DurableTask.unanswered (episodes ++ [ep]) := by
  -- the tasks that wait are a heap of their own
  let w : World := { ctx.world with cells := ctx.world.cells.filter fun c => c.outcome.isNone }
  have hissued : w.issued.Sublist ctx.world.issued := List.filter_sublist.filterMap _
  have hdue : ∀ a ∈ w.issued, a.id ∈ due (episodes ++ [ep]) := by
    intro a hm
    obtain ⟨c, hc, ho⟩ := List.mem_filterMap.mp hm
    obtain ⟨hc, hnone⟩ := List.mem_filter.mp hc
    obtain ⟨t, hc⟩ := List.mem_iff_getElem?.mp hc
    obtain ⟨hlive, hw⟩ := hwait t c hc (by simpa using hnone)
    have hreg := replay_regular h
    have hl := hreg.linked.lookup_of_waiting hreg.drained hc (Origin.action?_eq_some.mp ho) hlive hw
    exact (hrun.accounted.played hrun hplays) ep.env ctx hplays.env h ha hret a.id
      (AList.lookup_isSome.mp (by rw [hl]; rfl))
  have hsub : w.issued.Sublist
      (ctx.world.issued.filter fun a => a.id ∈ due (episodes ++ [ep])) := by
    rw [← List.filter_eq_self.mpr fun a ha => decide_eq_true (hdue a ha)]
    exact hissued.filter _
  have hwaiting : ((ctx.world.waiting : Multiset TaskRequest).filter fun q => q.isSignal = false) =
      (w.issued.filterMap OrchestratorAction.request? : List TaskRequest) := by
    rw [World.issued_filterMap, Multiset.filter_coe]
    congr 2
    funext q
    simp
  rw [hwaiting, hrun.unanswered hplays h ha]
  exact Multiset.coe_le.mpr (hsub.filterMap _).subperm

/-- Of a signal that is waited for, more are awaited than events were raised. -/
theorem RunsFlow.waiting_raised (hflow : self.RunsFlow flow history)
    (hfaithful : self.Faithful service history) (h : self.replay history = .ok ctx)
    (hwait : ∀ (t : TaskRef) (c : Cell), ctx.world.cells[t]? = some c → c.outcome = none →
      c.dropped = false ∧ c.At .waiting) {name : String} (hm : .signal name ∈ ctx.world.waiting) :
    (raised self.env name history).length < ctx.world.requests.count (.signal name) := by
  obtain ⟨c, hm, hq⟩ := List.mem_filterMap.mp hm
  obtain ⟨hm, hnone⟩ := List.mem_filter.mp hm
  obtain ⟨t, hc⟩ := List.mem_iff_getElem?.mp hm
  obtain ⟨hlive, hw⟩ := hwait t c hc (by simpa using hnone)
  have hreg := replay_regular h
  have ho : c.origin = .signal name := Origin.request?_signal.mp hq
  have hraises : ∀ e ∈ history, ∀ r, e.kind = .raise r → r.input.isSome := by
    intro e he r hk
    obtain ⟨past, later, rfl⟩ := List.append_of_mem he
    obtain ⟨ctx₁, h₁, -⟩ := processEvents_split h
    have hfaith := throughout_iff.mp hfaithful past e later ctx₁ rfl h₁
    rw [hk] at hfaith
    obtain ⟨v, hv, -⟩ := hfaith
    exact Option.isSome_of_mem hv
  have hmatched := (replay_matched h hflow.once hraises).resolve_left (by
    rintro ⟨t, c, -, hc, -, ha⟩
    exact hflow.unabandonedAt hfaithful h t ⟨c, hc, ha⟩)
  have hwaits : t ∈ ctx.waiters name := by
    rcases hreg.linked.held hc hlive hw with ⟨id, hparked⟩ | ⟨name', hm⟩
    · obtain ⟨a, ha, -⟩ := hreg.linked.task_at hparked hc
      rw [ho] at ha
      cases ha
    · have ho' := (hreg.linked.waiter_at hm hc).1
      rw [ho] at ho'
      cases ho'
      exact hm
  have hlt := (hmatched.queues name).lt_of_waiting hwaits
  rwa [List.length_map, ctx.world.signals_requests] at hlt

theorem Plays.outcome (hplays : self.Plays history ep) (hrun : self.Run history episodes)
    (h : (self.under ep.env).replay (history ++ ep.newEvents) = .ok ctx) :
    ∀ a ∈ ep.actions, a.isComplete = true →
      ∃ r ∈ ctx.world.returned, a = completionAction a.id r := by
  obtain ⟨ctx', h', hactions⟩ := hplays.replay
  rw [h] at h'
  cases h'
  intro a ha hc
  refine (replay_completion h (hactions ▸ ha) hc).resolve_right ?_
  rintro ⟨⟨e, he, hterminate⟩, -⟩
  rcases List.mem_append.mp he with he | he
  · exact hrun.wellFormed.2 e he hterminate
  · exact (isNews_of (hplays.news e he)).1 hterminate

section Episode

variable (hflow : self.RunsFlow flow (history ++ ep.newEvents)) (hrun : self.Run history episodes)
  (hplays : self.Plays history ep)
  (hfaithful : (self.under ep.env).Faithful service (history ++ ep.newEvents))
  (h : (self.under ep.env).replay (history ++ ep.newEvents) = .ok ctx)

include hflow hrun hplays hfaithful h

theorem RunsFlow.unasked (hlaunched : ¬Launched ctx) :
    self.Unasked (history ++ ep.newEvents) (episodes ++ [ep]) := by
  have hflow' := hflow.under ep.env
  have hnone : ctx.world.requests = [] := by
    rw [World.requests, hflow'.cells_nil hfaithful h hlaunched]
    rfl
  refine ⟨fun e he => ?_, ?_, fun ep' hep a ha => ?_⟩
  · by_contra hstarts
    have hs : self.starts e.kind = true := by simpa using hstarts
    exact hlaunched (replay_launched h ⟨e, he, hs⟩)
  · rw [hrun.scheduled hplays h (hflow'.unabandonedAt hfaithful h), hnone]
    rfl
  · rw [List.getLast?_concat] at hep
    cases hep
    by_contra hc
    obtain ⟨r, hr, -⟩ := hplays.outcome hrun h a ha (by simpa using hc)
    exact hlaunched (.inr (List.ne_nil_of_mem hr))

theorem RunsFlow.tracks (hlaunched : Launched ctx) : ∃ result,
    self.Tracks flow service (history ++ ep.newEvents) (episodes ++ [ep]) ctx.world.answered
      ctx.world.waiting result := by
  have hflow' := hflow.under ep.env
  have hab := hflow'.unabandonedAt hfaithful h
  have hscheduled := hrun.scheduled hplays h hab
  obtain ⟨result, hhalts, hret⟩ := hflow'.halts hfaithful h hlaunched
  refine ⟨result, hplays.env.toLowercase ▸ hhalts, ?_, fun ep' hep a ha hc => ?_,
    fun hincomplete hne ep' hep r hr => ?_⟩
  · rw [hscheduled, ctx.world.requests_split]
  · rw [List.getLast?_concat] at hep
    cases hep
    obtain ⟨r, hr, he⟩ := hplays.outcome hrun h a ha hc
    rw [hret, Option.mem_toList] at hr
    exact ⟨r, hr, he⟩
  · rw [List.getLast?_concat] at hep
    cases hep
    refine hflow.reports hrun hplays hfaithful h hincomplete (fun hissued => hne ?_)
      (hret ▸ Option.mem_toList.mpr hr)
    rw [scheduled_eq (hrun.issued hplays h hab), hissued]
    rfl

theorem RunsFlow.lacks (hlaunched : Launched ctx)
    (hloud : ∀ e ∈ history ++ ep.newEvents, e.kind.silent = false)
    (hb : ∀ N ∈ self.env.budget, ctx.world.answered.length < N) :
    Lacks self.env (history ++ ep.newEvents) (episodes ++ [ep]) ctx.world.answered
      ctx.world.waiting := by
  have hflow' := hflow.under ep.env
  obtain ⟨result, hhalts, hret⟩ := hflow'.halts hfaithful h hlaunched
  cases result with
  | some r =>
    rw [hhalts.isSome_iff.mp rfl]
    exact ⟨Multiset.zero_le _, fun name hm => absurd hm (Multiset.notMem_zero _)⟩
  | none =>
    have hrunning := hlaunched.resolve_right (not_not.mpr hret)
    have hwait (t : TaskRef) (c : Cell) (hc : ctx.world.cells[t]? = some c)
        (hnone : c.outcome = none) : c.dropped = false ∧ c.At .waiting :=
      hflow'.tasks_wait hfaithful h hrunning (replay_notified hloud h)
        (hplays.env.budget ▸ hb) hc hnone
    refine ⟨hrun.waiting_due hplays h (hflow'.unabandonedAt hfaithful h) hret hwait,
      fun name hm => ?_⟩
    rw [← ctx.world.requests_split, Multiset.coe_count, ← hplays.env.raised]
    exact hflow'.waiting_raised hfaithful h hwait hm

end Episode

/--
In every run of the protocol, in the state in which the last episode ends: all that the program has
asked for was scheduled, over all episodes. If it was started, that is what one direct execution
asks for which goes on until it needs an answer that has not come, and the outcome that the sidecar
gets is that of this execution.
-/
theorem run_refines (hrun : self.Run history episodes) (hplays : self.Plays history ep)
    (hflow : self.RunsFlow flow (history ++ ep.newEvents))
    (hfaithful : (self.under ep.env).Faithful service (history ++ ep.newEvents)) :
    ∃ ctx, (self.under ep.env).replay (history ++ ep.newEvents) = .ok ctx ∧
      scheduled (episodes ++ [ep]) =
        (ctx.world.requests : Multiset TaskRequest).filter (fun q => q.isSignal = false) ∧
      (self.Unasked (history ++ ep.newEvents) (episodes ++ [ep]) ∨
        (∃ result, self.Tracks flow service (history ++ ep.newEvents) (episodes ++ [ep])
          ctx.world.answered ctx.world.waiting result) ∧
        ((∀ e ∈ history ++ ep.newEvents, e.kind.silent = false) →
          (∀ N ∈ self.env.budget, ctx.world.answered.length < N) →
          Lacks self.env (history ++ ep.newEvents) (episodes ++ [ep]) ctx.world.answered
            ctx.world.waiting)) := by
  obtain ⟨ctx, h, -⟩ := hplays.replay
  refine ⟨ctx, h, hrun.scheduled hplays h ((hflow.under ep.env).unabandonedAt hfaithful h), ?_⟩
  by_cases hlaunched : Launched ctx
  · exact .inr ⟨hflow.tracks hrun hplays hfaithful h hlaunched,
      hflow.lacks hrun hplays hfaithful h hlaunched⟩
  · exact .inl (hflow.unasked hrun hplays hfaithful h hlaunched)

theorem approval_run_refines : (∃ result, approvalExecutor.Tracks approval
      (answeredBy approvalAnswer) [executionStarted] [requestEpisode] 0
      {.activity "check" (some "\"a\""), .activity "check" (some "\"b\"")} result) ∧
    Lacks approvalExecutor.env [executionStarted] [requestEpisode] 0
      {.activity "check" (some "\"a\""), .activity "check" (some "\"b\"")} := by
  have hplays : approvalExecutor.Plays [] requestEpisode :=
    ⟨⟨rfl, rfl⟩, by decide, by decide, by decide⟩
  obtain ⟨ctx, h, -, hcases⟩ := run_refines .nil hplays (approval_runsFlow (by decide))
    (show OrchestrationExecutorFuture.Faithful _ (answeredBy approvalAnswer) _ by decide)
  have hmap : ((approvalExecutor.under requestEpisode.env).replay [executionStarted]).map
      (fun ctx => (ctx.world.answered, ctx.world.waiting)) =
        .ok ([], [.activity "check" (some "\"a\""), .activity "check" (some "\"b\"")]) := by decide
  rw [show (approvalExecutor.under requestEpisode.env).replay [executionStarted] = .ok ctx from h]
    at hmap
  simp only [Except.map, Except.ok.injEq, Prod.mk.injEq] at hmap
  obtain ⟨htracks, hlacks⟩ := hcases.resolve_left fun hu =>
    absurd (hu.unstarted executionStarted (by simp [requestEpisode])) (by decide)
  rw [hmap.1, hmap.2] at htracks hlacks
  exact ⟨htracks, hlacks (by decide) (by rintro N ⟨⟩; decide)⟩

end OrchestrationExecutorFuture

end DurableTask
