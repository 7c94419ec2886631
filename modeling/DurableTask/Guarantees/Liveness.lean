import DurableTask.Guarantees.Provenance
import DurableTask.Guarantees.Results

/-! # A run goes on

A sidecar that answers each task that is due once, as the service may, never
makes the worker panic, unless the program panics by itself: what is due still
waits, and while a task waits the program is running.
-/

namespace DurableTask

open Interaction OrchestrationExecutorContext

def EventKind.answered? : EventKind → Option Int
  | .resolve id _ _ _ => some id
  | _ => none

theorem EventKind.names_iff {k : EventKind} {id : Int} : k.Names id ↔ k.answered? = some id := by
  cases k with
  | resolve id' payload message polls => exact Option.some_inj.symm
  | _ => exact ⟨False.elim, fun h => by cases h⟩

def answered (news : List HistoryEvent) : List Int := news.filterMap fun e => e.kind.answered?

theorem mem_answered {news : List HistoryEvent} {id : Int} :
    id ∈ answered news ↔ ∃ e ∈ news, e.kind.Names id := by
  simp only [answered, List.mem_filterMap, EventKind.names_iff]

/-- The news answers what is due, each task once, and does not complete the orchestration. -/
structure Orderly (env : Env) (service : Service) (episodes : List Episode)
    (news : List HistoryEvent) : Prop where
  isNews : ∀ e ∈ news, e.kind.isNews = true
  answers : ∀ e ∈ news, AnswersTask env service (episodes.flatMap Episode.tasks) e.kind
  incomplete : ∀ e ∈ news, e.kind ≠ .complete
  once : (answered news).Nodup
  due : ∀ id ∈ answered news, id ∈ due episodes

theorem AnswersTask.carries {env : Env} {service : Service} {tasks : List OrchestratorAction}
    {k : EventKind} (h : AnswersTask env service tasks k) : k.carries = true := by
  cases k with
  | resolve id payload message polls =>
    obtain ⟨a, -, -, v, rfl, -⟩ := h
    rfl
  | _ => rfl

theorem AnswersTask.names {env : Env} {service : Service} {tasks : List OrchestratorAction}
    {k : EventKind} {id : Int} (h : AnswersTask env service tasks k) (hk : k.Names id) :
    id ∈ tasks.map OrchestratorAction.id := by
  cases k with
  | resolve id' payload message polls =>
    obtain ⟨a, ha, hid, -⟩ := h
    exact List.mem_map.mpr ⟨a, ha, hid.trans hk⟩
  | _ => cases hk

namespace OrchestrationExecutorFuture

variable {self : OrchestrationExecutorFuture} {ctx ctx' : OrchestrationExecutorContext}
  {flow : Flow (OrchestratorResult String)} {service : Service}
  {history news events : List HistoryEvent} {episodes : List Episode} {ep : Episode} {env : Env}

/-- A run in which all news is orderly. -/
inductive OrderlyRun (executor : OrchestrationExecutorFuture) (service : Service) :
    List HistoryEvent → List Episode → Prop where
  | nil : OrderlyRun executor service [] []
  | episode {history : List HistoryEvent} {episodes : List Episode} {ep : Episode}
      {order : List OrchestratorAction} (h : OrderlyRun executor service history episodes)
      (hplays : executor.Plays history ep)
      (hnews : Orderly executor.env service episodes ep.newEvents) (horder : order.Perm ep.tasks)
      (hconf : List.Forall₂ Confirms order ep.confirmations) :
    OrderlyRun executor service (history ++ ep.newEvents ++ ep.confirmations) (episodes ++ [ep])

theorem OrderlyRun.run (h : self.OrderlyRun service history episodes) :
    self.Run history episodes := by
  induction h with
  | nil => exact .nil
  | episode _ hplays _ horder hconf ih => exact ih.episode hplays horder hconf

theorem processEvents_acknowledge (ctx : OrchestrationExecutorContext)
    (hk : ∀ e ∈ events, ∃ id, e.kind = .acknowledge id) :
    ∃ ctx', self.processEvents ctx events = .ok ctx' := by
  induction events generalizing ctx with
  | nil => exact ⟨ctx, rfl⟩
  | cons e events ih =>
    obtain ⟨id, hid⟩ := hk e List.mem_cons_self
    rw [processEvents_cons_ok (processEvent_acknowledge hid)]
    exact ih _ fun e he => hk e (List.mem_cons_of_mem _ he)

theorem Run.replays (hrun : self.Run history episodes) (henv : self.env.Alike env) :
    ∃ ctx, (self.under env).replay history = .ok ctx := by
  cases hrun with
  | nil => exact ⟨_, rfl⟩
  | episode hrun hplays horder hconf =>
    obtain ⟨ctx, h, -⟩ := hplays.replay
    obtain ⟨ctx₁, h₁, -⟩ := (replay_agree (hplays.env.between henv) _).exists_ok h
    have h₁ : (self.under env).replay _ = .ok ctx₁ := h₁
    rw [replay, processEvents_append_ok h₁]
    exact processEvents_acknowledge ctx₁ (confirmations_kind hconf).1

theorem OrderlyRun.faithful (hrun : self.OrderlyRun service history episodes)
    (henv : self.env.Alike env) (hflow : self.RunsFlow flow history) :
    (self.under env).Faithful service history := by
  induction hrun with
  | nil => trivial
  | episode hrun hplays hnews horder hconf ih =>
    refine faithful_confirmed ?_ (confirmations_kind hconf).1
    exact hrun.run.faithful_news henv hflow.left (ih hflow.left.left) fun e he =>
      ⟨hnews.isNews e he, hnews.answers e he⟩

theorem OrderlyRun.answers (hrun : self.OrderlyRun service history episodes) :
    ∀ e ∈ history, AnswersTask self.env service (episodes.flatMap Episode.tasks) e.kind := by
  induction hrun with
  | nil => simp
  | episode hrun hplays hnews horder hconf ih =>
    intro e he
    rw [List.flatMap_append]
    rcases List.mem_append.mp he with he | he
    · refine AnswersTask.mono ?_ (List.subset_append_left _ _)
      exact (List.mem_append.mp he).elim (ih e) (hnews.answers e)
    · obtain ⟨id, hid⟩ := (confirmations_kind hconf).1 e he
      rw [hid]
      trivial

theorem Run.nodup (hrun : self.Run history episodes) (hplays : self.Plays history ep)
    (h : (self.under ep.env).replay (history ++ ep.newEvents) = .ok ctx)
    (ha : ∀ t, ¬ctx.AbandonedAt t) :
    (((episodes ++ [ep]).flatMap Episode.tasks).map OrchestratorAction.id).Nodup := by
  have hids := (hrun.issued hplays h ha).map OrchestratorAction.id
  have htimeless : OrchestratorAction.id ∘ OrchestratorAction.timeless = OrchestratorAction.id :=
    funext OrchestratorAction.timeless_id
  rw [List.map_map, List.map_map, htimeless] at hids
  obtain ⟨log, hlog⟩ := replay_booked h hplays.started (hplays.apart hrun h ha)
  rw [hids.nodup_iff, hlog.issued]
  exact hlog.numbered.nodup.sublist (List.filter_sublist.map _)

/-- What is due was scheduled, and no event has answered it. -/
theorem OrderlyRun.due (hrun : self.OrderlyRun service history episodes)
    (hflow : self.RunsFlow flow history) : ∀ id ∈ due episodes,
      id ∈ (episodes.flatMap Episode.tasks).map OrchestratorAction.id ∧
        ∀ e ∈ history, ¬e.kind.Names id := by
  induction hrun with
  | nil => exact fun id hid => absurd hid List.not_mem_nil
  | @episode history episodes ep order hrun hplays hnews horder hconf ih =>
    intro id hid
    have hconfirmed : ∀ e ∈ ep.confirmations, ¬e.kind.Names id := by
      intro e he
      obtain ⟨id', hid'⟩ := (confirmations_kind hconf).1 e he
      rw [hid']
      exact not_false
    rw [due_append, Episode.leaves, List.mem_append, List.mem_filter] at hid
    rw [List.flatMap_append, List.map_append, List.mem_append]
    rcases hid with ⟨hid, hnone⟩ | hid
    · obtain ⟨hm, hold⟩ := ih hflow.left.left id hid
      refine ⟨.inl hm, fun e he => ?_⟩
      rcases List.mem_append.mp he with he | he
      · rcases List.mem_append.mp he with he | he
        · exact hold e he
        · exact of_decide_eq_true hnone e he
      · exact hconfirmed e he
    · refine ⟨.inr (by simpa using hid), fun e he hnames => ?_⟩
      rcases List.mem_append.mp he with he | he
      · -- an answer to a task that was not scheduled yet
        have hanswers : AnswersTask self.env service (episodes.flatMap Episode.tasks) e.kind :=
          (List.mem_append.mp he).elim (hrun.answers e) (hnews.answers e)
        obtain ⟨ctx, h, -⟩ := hplays.replay
        have hfaithful := hrun.run.faithful_news hplays.env hflow.left
          (hrun.faithful hplays.env hflow.left.left) fun e he =>
            ⟨hnews.isNews e he, hnews.answers e he⟩
        have hnodup := hrun.run.nodup hplays h
          ((hflow.left.under ep.env).unabandonedAt hfaithful h)
        rw [List.flatMap_append, List.map_append, List.nodup_append] at hnodup
        exact hnodup.2.2 id (hanswers.names hnames) id (by simpa using hid) rfl
      · exact hconfirmed e he hnames

theorem processEvent_origin {e : HistoryEvent} (hr : ctx.Regular) (hs : e.isStart = false)
    (he : self.processEvent ctx e = .ok ctx') {t : ℕ} {c : Cell}
    (hc : ctx.world.cells[t]? = some c) :
    ∃ c', ctx'.drain.world.cells[t]? = some c' ∧ c'.origin = c.origin := by
  obtain ⟨ctx₁, hd, hm⟩ := processEvent_moves hr.incomplete hs he
  refine Moves.preserves (P := fun ctx => ∃ c', ctx.world.cells[t]? = some c' ∧
    c'.origin = c.origin) ?_ (hm.trans (drain_moves self.env ctx')) ?_
  · rintro ctx₂ ctx₃ hm ⟨c₂, hc₂, ho₂⟩
    obtain ⟨c₃, hc₃, ho₃, -⟩ := hm.cells hc₂
    exact ⟨c₃, hc₃, ho₃.trans ho₂⟩
  · have horigin := congrArg (·[t]?) hd.origins
    simp only [List.getElem?_map, hc, Option.map_some] at horigin
    exact Option.map_eq_some_iff.mp horigin

theorem replay_unnamed (hone : history.countP HistoryEvent.isStart ≤ 1)
    (hk : ∀ e ∈ history, e.kind.carries = true) (h : self.replay history = .ok ctx) {t : ℕ}
    {c : Cell} {a : OrchestratorAction} (hc : ctx.world.cells[t]? = some c)
    (ho : c.origin = .action a) (hn : ∀ e ∈ history, ¬e.kind.Names a.id) :
    Tracked ctx t a none := by
  refine replay_induct (P := fun history ctx => (∀ e ∈ history, e.kind.carries = true) →
    (∀ e ∈ history, ¬e.kind.Names a.id) → ∀ c, ctx.world.cells[t]? = some c →
      c.origin = .action a → Tracked ctx t a none) hone ?_ ?_ h hk hn c hc ho
  · intro _ _ c hc
    cases hc
  · intro past e ctx₁ ctx₂ hr ih hs he hk hn c hc ho
    rcases Nat.lt_or_ge t ctx₁.world.cells.length with hlt | hge
    · have hc₁ := List.getElem?_eq_getElem hlt
      have hstart : e.isStart = false := by
        by_contra hne
        have hcells := (replay_unstarted (hs (by simpa using hne)) hr).cells
        rw [hcells] at hlt
        cases hlt
      obtain ⟨c', hc', ho'⟩ := processEvent_origin (replay_regular hr) hstart he hc₁
      rw [hc] at hc'
      cases hc'
      have hold := ih (fun e he => hk e (List.mem_append_left _ he))
        (fun e he => hn e (List.mem_append_left _ he)) _ hc₁ (ho'.symm.trans ho)
      have hnone : e.kind.completion a.id = none := by
        have hname := hn e (by simp)
        cases hkind : e.kind with
        | resolve id payload message polls =>
          rw [hkind] at hname
          exact if_neg hname
        | _ => rfl
      have hstep := processEvent_tracked (replay_regular hr) (replay_fresh hr) hstart
        (hk e (by simp)) he hold
      rwa [hnone] at hstep
    · exact tracked_of_new hr (replay_append_ok hr he) hge hc ho

theorem RunsFlow.running (hflow : self.RunsFlow flow history)
    (hfaithful : self.Faithful service history) (h : self.replay history = .ok ctx) {t : ℕ}
    {c : Cell} (hc : ctx.world.cells[t]? = some c) (hw : c.At .waiting) : ctx.running = true := by
  have hserved := hflow.served hfaithful h
  by_contra hrun
  by_cases hret : ctx.world.returned = []
  · rw [hserved.idle (by simpa using hrun) hret] at hc
    cases hc
  · have hyielded := hflow.yielded hfaithful h hret c (List.mem_of_getElem? hc)
    rw [hw.2] at hyielded
    cases hyielded

theorem RunsFlow.unnamed (hflow : self.RunsFlow flow history)
    (hfaithful : self.Faithful service history) (hk : ∀ e ∈ history, e.kind.carries = true)
    (h : self.replay history = .ok ctx) {a : OrchestratorAction} (ha : a ∈ ctx.world.issued)
    (hn : ∀ e ∈ history, ¬e.kind.Names a.id) :
    ctx.running = true ∧ ∃ t, ctx.pendingTasks.lookup a.id = some t := by
  obtain ⟨c, hm, ho⟩ := List.mem_filterMap.mp ha
  obtain ⟨t, hc⟩ := List.mem_iff_getElem?.mp hm
  have ho : c.origin = .action a := by
    cases hcell : c.origin with
    | action b =>
      rw [hcell] at ho
      exact congrArg _ (Option.some.inj ho)
    | signal name =>
      rw [hcell] at ho
      cases ho
  obtain ⟨c', hc', -, hholds⟩ := replay_unnamed hflow.once hk h hc ho hn
  rw [hc] at hc'
  cases hc'
  have hunabandoned := hflow.unabandoned hfaithful h c hm
  have hw : c.At .waiting := hholds.resolve_left hunabandoned
  have hreg := replay_regular h
  exact ⟨hflow.running hfaithful h hc hw, t, hreg.linked.lookup_of_waiting hreg.drained hc ho
    (Cell.Holds.live hw hunabandoned) hw⟩

theorem RunsFlow.awaited (hflow : self.RunsFlow flow history)
    (hfaithful : self.Faithful service history) (h : self.replay history = .ok ctx) {name : String}
    (hl : (ctx.pendingEvents.lookup name).isSome) : ctx.running = true := by
  obtain ⟨waiters, hl⟩ := Option.isSome_iff_exists.mp hl
  have hreg := replay_regular h
  cases waiters with
  | nil => exact absurd hl ((replay_queued h).waiters _)
  | cons t waiters =>
    obtain ⟨c, hc, -, hw⟩ := hreg.linked.waiter (mem_waiters_of_lookup hreg.drained hl)
    exact hflow.running hfaithful h hc hw

theorem Run.reissued (hrun : self.Run history episodes) (henv : self.env.Alike env)
    (h : (self.under env).replay history = .ok ctx) (ha : ∀ t, ¬ctx.AbandonedAt t) {id : Int}
    (hid : id ∈ (episodes.flatMap Episode.tasks).map OrchestratorAction.id) :
    ∃ a ∈ ctx.world.issued, a.id = id := by
  have hids := (hrun.settled env ctx henv h ha).2.map OrchestratorAction.id
  have htimeless : OrchestratorAction.id ∘ OrchestratorAction.timeless = OrchestratorAction.id :=
    funext OrchestratorAction.timeless_id
  rw [List.map_map, List.map_map, htimeless] at hids
  exact List.mem_map.mp (hids.mem_iff.mp hid)

/-- When news that is orderly comes to its turn, the program that it concerns is running. -/
theorem OrderlyRun.running (hrun : self.OrderlyRun service history episodes)
    (henv : self.env.Alike env) {seen later : List HistoryEvent} {e : HistoryEvent}
    (hnews : Orderly self.env service episodes (seen ++ e :: later))
    (hflow : self.RunsFlow flow (history ++ seen))
    (h : (self.under env).replay (history ++ seen) = .ok ctx) (hstart : e.isStart = false)
    (hactive : (self.under env).polls ctx e.kind = true ∨ ctx.sends e.kind = true) :
    ctx.running = true := by
  have hanswers : ∀ e ∈ history ++ seen, AnswersTask self.env service
      (episodes.flatMap Episode.tasks) e.kind := fun e he =>
    (List.mem_append.mp he).elim (hrun.answers e) fun he =>
      hnews.answers e (List.mem_append_left _ he)
  have hpast := hrun.faithful henv hflow.left
  have hfaithful := hrun.run.faithful_news henv hflow hpast fun e he =>
    ⟨hnews.isNews e (List.mem_append_left _ he), hnews.answers e (List.mem_append_left _ he)⟩
  have hflow' := hflow.under env
  cases hk : e.kind with
  | resolve id payload message polls =>
    have hnames : e.kind.Names id := by rw [hk]; rfl
    obtain ⟨hid, hold⟩ := hrun.due hflow.left id
      (hnews.due id (mem_answered.mpr ⟨e, by simp, hnames⟩))
    obtain ⟨ctx₁, h₁, -⟩ := processEvents_split h
    obtain ⟨a, ha, rfl⟩ := hrun.run.reissued henv h₁
      ((hflow.left.under env).unabandonedAt hpast h₁) hid
    refine (hflow'.unnamed hfaithful (fun e he => (hanswers e he).carries) h
      ((replay_grows h₁ h).1.subset ha) fun e' he' hnames' => ?_).1
    rcases List.mem_append.mp he' with he' | he'
    · exact hold e' he' hnames'
    · -- it answers each task once
      have honce := hnews.once
      rw [answered, List.filterMap_append, List.nodup_append] at honce
      exact honce.2.2 _ (mem_answered.mpr ⟨e', he', hnames'⟩) _
        (mem_answered.mpr ⟨e, List.mem_cons_self, hnames⟩) rfl
  | raise r =>
    rw [hk] at hactive
    refine hflow'.awaited hfaithful h (hactive.resolve_right ?_)
    exact Bool.false_ne_true
  | complete => exact absurd hk (hnews.incomplete e (by simp))
  | start s =>
    rw [HistoryEvent.isStart, hk] at hstart
    cases hstart
  | _ =>
    rw [hk] at hactive
    rcases hactive with hactive | hactive <;> cases hactive

/-- The worker takes news that is orderly, unless a direct execution of the program panics. -/
theorem OrderlyRun.plays (hrun : self.OrderlyRun service history episodes)
    (henv : self.env.Alike env) (hnews : Orderly self.env service episodes news)
    (hflow : self.RunsFlow flow (history ++ news))
    (hsafe : ∀ p, ¬flow.Panics self.env.toLowercase service p) : ∃ actions,
      ∀ confirmations, self.Plays history ⟨env, news, actions, confirmations⟩ := by
  obtain ⟨ctx₁, h₁⟩ := hrun.run.replays henv
  have hfaithful := hrun.run.faithful_news henv hflow (hrun.faithful henv hflow.left) fun e he =>
    ⟨hnews.isNews e he, hnews.answers e he⟩
  suffices ∃ ctx, (self.under env).replay (history ++ news) = .ok ctx by
    obtain ⟨ctx, h⟩ := this
    refine ⟨ctx.getActions env, fun _ => ⟨henv, hnews.isNews, hflow.once, ?_⟩⟩
    rw [execute_eq, h]
    rfl
  cases h : (self.under env).replay (history ++ news) with
  | ok ctx => exact ⟨ctx, rfl⟩
  | error p =>
    exfalso
    rcases replay_fails (hflow.under env) hfaithful h with
      hp | ⟨past, e, later, ctx, hsplit, hr, he, hstopped, hstart, hactive⟩
    · refine hsafe p ?_
      rw [← henv.toLowercase]
      exact hp
    obtain ⟨seen, rfl, rfl⟩ : ∃ seen, past = history ++ seen ∧ news = seen ++ e :: later := by
      rcases List.append_eq_append_iff.mp hsplit with ⟨seen, hpast, hnews⟩ | ⟨rest, hpast, hrest⟩
      · exact ⟨seen, hpast, hnews⟩
      · cases rest with
        | nil => exact ⟨[], by simpa using hpast.symm, hrest.symm⟩
        | cons e' rest =>
          -- the history was replayed before
          cases (List.cons.inj hrest).1
          rw [hpast] at h₁
          obtain ⟨ctx₂, h₂, hlater⟩ := processEvents_split h₁
          obtain rfl : ctx = ctx₂ := Except.ok.inj (hr.symm.trans h₂)
          obtain ⟨ctx₃, he', -⟩ := processEvents_cons_split hlater
          rw [he] at he'
          cases he'
    rw [← List.append_assoc] at hflow
    have hrunning := hrun.running henv hnews hflow.left hr hstart hactive
    rw [hstopped] at hrunning
    cases hrunning

end OrchestrationExecutorFuture

end DurableTask
