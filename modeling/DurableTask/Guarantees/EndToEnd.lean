import DurableTask.Guarantees.Durability
import DurableTask.Guarantees.Maps
import DurableTask.Guarantees.Reporting
import DurableTask.Guarantees.Scheduling

/-! # From end to end

The sidecar sees neither the program nor its state, only the actions that come
back from one episode after the other. Taken together, they are what one direct
execution asks for, each once, and the completion is its outcome. And as long as
the sidecar answers what it was asked for, the program gets to its end.
-/

namespace DurableTask

open Interaction Queues OrchestrationExecutorContext

theorem OrchestratorAction.timeless_request? (a : OrchestratorAction) :
    a.timeless.request? = a.request? := by
  unfold OrchestratorAction.timeless OrchestratorAction.request?
  rcases a with ⟨id, _ | _ | _ | _ | _⟩ <;> rfl

def scheduled (episodes : List Episode) : Multiset TaskRequest :=
  ((episodes.flatMap Episode.tasks).filterMap OrchestratorAction.request? : List TaskRequest)

namespace OrchestrationExecutorFuture

variable {self : OrchestrationExecutorFuture} {ctx ctx₁ : OrchestrationExecutorContext}
  {flow : Flow (OrchestratorResult String)} {service : Service}
  {history past news : List HistoryEvent} {episodes : List Episode} {ep : Episode} {env : Env}

theorem RunsFlow.unabandoned (hflow : self.RunsFlow flow history)
    (hfaithful : self.Faithful service history) (h : self.replay history = .ok ctx) :
    ∀ c ∈ ctx.world.cells, ¬c.Abandoned := by
  rintro c hc ⟨hd, hn⟩
  have hserved := hflow.served hfaithful h
  by_cases hret : ctx.world.returned = []
  · cases hrun : ctx.running with
    | true =>
      obtain ⟨base, f, hfn⟩ := running_iff.mp hrun
      obtain ⟨t, ht⟩ := List.mem_iff_getElem?.mp hc
      have hlive := ((hserved.program base f hfn).serving.tasks ht).live
      rw [hd] at hlive
      cases hlive
    | false =>
      rw [hserved.idle hrun hret] at hc
      cases hc
  · have hyielded := hflow.yielded hfaithful h hret c hc
    rw [hn] at hyielded
    cases hyielded

theorem RunsFlow.unabandonedAt (hflow : self.RunsFlow flow history)
    (hfaithful : self.Faithful service history) (h : self.replay history = .ok ctx) (t : ℕ) :
    ¬ctx.AbandonedAt t := by
  rintro ⟨c, hc, ha⟩
  exact hflow.unabandoned hfaithful h c (List.mem_of_getElem? hc) ha

theorem RunsFlow.under (hflow : self.RunsFlow flow history) (env : Env) :
    (self.under env).RunsFlow flow history := ⟨hflow.once, hflow.future⟩

theorem perm_of_timeless {β : Type} {f : OrchestratorAction → Option β}
    (hf : ∀ a, f a.timeless = f a) {actions created : List OrchestratorAction}
    (h : (actions.map OrchestratorAction.timeless).Perm (created.map OrchestratorAction.timeless)) :
    (actions.filterMap f).Perm (created.filterMap f) := by
  have hperm := h.filterMap f
  rwa [List.filterMap_map, List.filterMap_map,
    show f ∘ OrchestratorAction.timeless = f from funext hf] at hperm

theorem scheduled_eq {created : List OrchestratorAction}
    (hall : ((episodes.flatMap Episode.tasks).map OrchestratorAction.timeless).Perm
      (created.map OrchestratorAction.timeless)) :
    scheduled episodes = (created.filterMap OrchestratorAction.request? : List TaskRequest) :=
  Multiset.coe_eq_coe.mpr (perm_of_timeless OrchestratorAction.timeless_request? hall)

theorem Plays.replay (hplays : self.Plays history ep) : ∃ ctx,
    (self.under ep.env).replay (history ++ ep.newEvents) = .ok ctx ∧
      ep.actions = ctx.getActions ep.env :=
  execute_ok hplays.execute

theorem Run.issued (hrun : self.Run history episodes) (hplays : self.Plays history ep)
    (h : (self.under ep.env).replay (history ++ ep.newEvents) = .ok ctx)
    (ha : ∀ t, ¬ctx.AbandonedAt t) :
    (((episodes ++ [ep]).flatMap Episode.tasks).map OrchestratorAction.timeless).Perm
      (ctx.world.issued.map OrchestratorAction.timeless) := by
  obtain ⟨ctx₁, h₁, hnews⟩ := processEvents_split h
  have ha₁ (t : ℕ) : ¬ctx₁.AbandonedAt t := fun hab =>
    ha t (processEvents_abandoned (replay_regular h₁) hnews hab)
  obtain ⟨created, hissued, hreturned⟩ := hrun.settled.returned hrun hplays h₁ h ha
  rw [hissued, List.map_append, List.flatMap_append, List.map_append]
  refine (hrun.settled ep.env ctx₁ hplays.env h₁ ha₁).2.append ?_
  simpa using hreturned.map OrchestratorAction.timeless

theorem Run.scheduled (hrun : self.Run history episodes) (hplays : self.Plays history ep)
    (h : (self.under ep.env).replay (history ++ ep.newEvents) = .ok ctx)
    (ha : ∀ t, ¬ctx.AbandonedAt t) : DurableTask.scheduled (episodes ++ [ep]) =
      (ctx.world.requests : Multiset TaskRequest).filter fun q => q.isSignal = false := by
  rw [scheduled_eq (hrun.issued hplays h ha), World.issued_filterMap, Multiset.filter_coe]
  simp

def requestEpisode : Episode where
  env := plainEnvAt 5
  newEvents := [executionStarted]
  actions := [newScheduleTaskAction 2 "check" (some "\"b\""),
    newScheduleTaskAction 1 "check" (some "\"a\"")]
  confirmations := [⟨1, none, some (.taskScheduled ⟨"check", some "\"a\""⟩)⟩,
    ⟨2, none, some (.taskScheduled ⟨"check", some "\"b\""⟩)⟩]

def answerEpisode : Episode where
  env := plainEnvAt 7
  newEvents := [eventRaisedEvent "approved" (some "\"yes\""), taskCompleted 2 (some "\"b\""),
    taskCompleted 1 (some "\"a\"")]
  actions := [newCompleteOrchestrationAction 3 .completed (some "\"yes\"") [] none]
  confirmations := []

theorem requestEpisode_run : approvalExecutor.Run
    ([] ++ requestEpisode.newEvents ++ requestEpisode.confirmations) ([] ++ [requestEpisode]) :=
  .episode .nil ⟨⟨rfl, rfl⟩, by decide, by decide, by decide⟩ (.swap _ _ _)
    (.cons (.scheduleTask _ _ _) (.cons (.scheduleTask _ _ _) .nil))

theorem answerEpisode_plays : approvalExecutor.Plays
    ([] ++ requestEpisode.newEvents ++ requestEpisode.confirmations) answerEpisode :=
  ⟨⟨rfl, rfl⟩, by decide, by decide, by decide⟩

end OrchestrationExecutorFuture

instance (id : Int) : (k : EventKind) → Decidable (k.Names id)
  | .resolve id' _ _ _ => inferInstanceAs (Decidable (id' = id))
  | .skip | .tick _ | .start _ | .complete | .terminate | .acknowledge _ | .raise _ =>
    inferInstanceAs (Decidable False)

def Episode.leaves (due : List Int) (ep : Episode) : List Int :=
  due.filter (fun id => ∀ e ∈ ep.newEvents, ¬e.kind.Names id) ++
    ep.tasks.map OrchestratorAction.id

def due (episodes : List Episode) : List Int := episodes.foldl Episode.leaves []

theorem due_append (episodes : List Episode) (ep : Episode) :
    due (episodes ++ [ep]) = ep.leaves (due episodes) := by
  rw [due, List.foldl_append]
  rfl

namespace OrchestrationExecutorFuture

variable {self : OrchestrationExecutorFuture} {ctx ctx₁ : OrchestrationExecutorContext}
  {flow : Flow (OrchestratorResult String)} {service : Service}
  {history past news : List HistoryEvent} {episodes : List Episode} {ep : Episode} {env : Env}
  {ids : List Int}

/-- While the program runs, a sender stays until an event names it, and comes with an action. -/
theorem processEvents_pendingTasks (h₁ : self.replay past = .ok ctx₁)
    (h : self.processEvents ctx₁ news = .ok ctx) (hret : ctx.world.returned = []) :
    ∃ l, ctx.world.issued = ctx₁.world.issued ++ l ∧ ∀ id ∈ ctx.pendingTasks,
      id ∈ l.map OrchestratorAction.id ∨ id ∈ ctx₁.pendingTasks ∧ ∀ e ∈ news, ¬e.kind.Names id := by
  revert hret
  refine processEvents_induct (P := fun news ctx => ctx.world.returned = [] →
    ∃ l, ctx.world.issued = ctx₁.world.issued ++ l ∧ ∀ id ∈ ctx.pendingTasks,
      id ∈ l.map OrchestratorAction.id ∨
        id ∈ ctx₁.pendingTasks ∧ ∀ e ∈ news, ¬e.kind.Names id) ?_ ?_ h
  · exact fun _ => ⟨[], by simp, fun id hid => .inr ⟨hid, by simp⟩⟩
  · intro news e ctx₂ ctx₃ h₂ ih he hret
    have hr : self.replay (past ++ news) = .ok ctx₂ := by
      rw [replay, processEvents_append_ok h₁, h₂]
    have hreg := replay_regular hr
    obtain ⟨n, l, lost, hb⟩ := processEvent_entries hreg.drained hreg.incomplete he
    rw [hb.returned, List.append_eq_nil_iff, Option.toList_eq_nil_iff] at hret
    obtain ⟨l, hissued, hl⟩ := ih hret.1
    obtain ⟨l', hsent⟩ := (processEvent_turn hreg.incomplete he).sent hreg.drained
      hreg.incomplete hret.2
    refine ⟨l ++ l', by rw [hsent.issued, hissued, List.append_assoc], fun id hid => ?_⟩
    rw [List.map_append, List.mem_append]
    rcases (hsent.pendingTasks id).mp hid with hnew | ⟨hold, hnames⟩
    · exact .inl (.inr hnew)
    · refine (hl id hold).imp .inl fun h => ⟨h.1, fun e' he' => ?_⟩
      rcases List.mem_append.mp he' with he' | he'
      · exact h.2 e' he'
      · rwa [List.mem_singleton.mp he']

/-- Whatever the clock, the executor holds senders only for tasks that are due. -/
def Accounted (executor : OrchestrationExecutorFuture) (history : List HistoryEvent)
    (ids : List Int) : Prop :=
  ∀ env ctx, executor.env.Alike env → (executor.under env).replay history = .ok ctx →
    (∀ t, ¬ctx.AbandonedAt t) → ctx.world.returned = [] → ∀ id ∈ ctx.pendingTasks, id ∈ ids

/-- The news of an episode answers what is due, and its tasks are due after it. -/
theorem Accounted.played (hacc : self.Accounted history (due episodes))
    (hrun : self.Run history episodes) (hplays : self.Plays history ep) :
    self.Accounted (history ++ ep.newEvents) (due (episodes ++ [ep])) := by
  intro env ctx henv h ha hret id hid
  obtain ⟨ctx₁, h₁, hnews⟩ := processEvents_split h
  have ha₁ (t : ℕ) : ¬ctx₁.AbandonedAt t := fun hab =>
    ha t (processEvents_abandoned (replay_regular h₁) hnews hab)
  have hret₁ : ctx₁.world.returned = [] :=
    List.prefix_nil.mp (hret ▸ (replay_grows h₁ h).2)
  obtain ⟨l, hl, hpending⟩ := processEvents_pendingTasks h₁ hnews hret
  rw [due_append, Episode.leaves, List.mem_append]
  rcases hpending id hid with hm | ⟨hm, hnone⟩
  · right
    -- the same under the clock of the episode
    have henv' := henv.between hplays.env
    obtain ⟨d, hd, halike⟩ := (replay_agree henv' _).exists_ok h
    obtain ⟨d₁, hd₁, -⟩ := (replay_agree henv' _).exists_ok h₁
    obtain ⟨l', hl', hreturned⟩ := hrun.settled.returned hrun hplays hd₁ hd fun t hab =>
      ha t (halike.abandoned hab)
    have htimeless := created_timeless henv' h₁ hd₁ h hd hl hl'
    have hids := congrArg (List.map OrchestratorAction.id) htimeless
    have hid' : OrchestratorAction.id ∘ OrchestratorAction.timeless = OrchestratorAction.id :=
      funext OrchestratorAction.timeless_id
    rw [List.map_map, List.map_map, hid'] at hids
    exact (hreturned.map OrchestratorAction.id).mem_iff.mpr (hids ▸ hm)
  · left
    rw [List.mem_filter]
    exact ⟨hacc env ctx₁ henv h₁ ha₁ hret₁ id hm, by simpa using hnone⟩

theorem Accounted.confirmed {events : List HistoryEvent} (hacc : self.Accounted history ids)
    (hk : ∀ e ∈ events, ∃ id, e.kind = .acknowledge id) :
    self.Accounted (history ++ events) ids := by
  intro env ctx henv h ha hret id hid
  obtain ⟨ctx₁, h₁, hconfirm⟩ := processEvents_split h
  have hw := (processEvents_confirm (replay_regular h₁).drained hconfirm hk).1
  obtain ⟨l, hl, hpending⟩ := processEvents_pendingTasks h₁ hconfirm hret
  obtain rfl : l = [] := by
    rw [hw] at hl
    exact List.self_eq_append_right.mp hl
  refine hacc env ctx₁ henv h₁ (fun t hab => ?_) ?_ id ?_
  · exact ha t (processEvents_abandoned (replay_regular h₁) hconfirm hab)
  · exact hw ▸ hret
  · exact ((hpending id hid).resolve_left (by simp)).1

theorem Run.accounted (hrun : self.Run history episodes) :
    self.Accounted history (due episodes) := by
  induction hrun with
  | nil =>
    intro env ctx henv h ha hret id hid
    cases h
    exact absurd hid (AList.notMem_empty id)
  | episode hrun hplays horder hconf ih =>
    exact (ih.played hrun hplays).confirmed (confirmations_kind hconf).1

theorem RunsFlow.left {later : List HistoryEvent} (hflow : self.RunsFlow flow (past ++ later)) :
    self.RunsFlow flow past :=
  ⟨((List.sublist_append_left _ _).countP_le).trans hflow.once,
    fun e he => hflow.future e (List.mem_append_left _ he)⟩

/-- Every outcome was entered as an action. -/
def Entered (ctx : OrchestrationExecutorContext) : Prop :=
  ∀ r ∈ ctx.world.returned, ∃ id, (id, completionAction id r) ∈ ctx.inserted

theorem Entered.step {k : EventKind} {n : Int} {l lost : List OrchestratorAction}
    (h : Entered ctx₁) (hb : self.Entries ctx₁ k ctx n l lost)
    (hown : ∀ r, self.returns ctx₁ k = some r →
      self.ownEntry ctx₁ k = [(completionAction (ctx₁.sequenceNumber + 1) r).entry]) :
    Entered ctx := by
  intro r hr
  rw [hb.returned] at hr
  rcases List.mem_append.mp hr with hr | hr
  · refine (h r hr).imp fun id hm => ?_
    rw [hb.inserted, List.append_assoc]
    exact List.mem_append_left _ hm
  · rw [Option.mem_toList] at hr
    refine ⟨ctx₁.sequenceNumber + 1, ?_⟩
    rw [hb.inserted, hown r hr, completionAction_entry]
    simp

section Turn

variable {e : HistoryEvent} (hflow : self.RunsFlow flow (past ++ [e]))
  (hfaithful : self.Faithful service (past ++ [e])) (hr : self.replay past = .ok ctx₁)

include hflow hfaithful hr

theorem RunsFlow.issues_of_returns (he : self.processEvent ctx₁ e = .ok ctx)
    (hret : (self.returns ctx₁ e.kind).isSome) : self.issues ctx₁ e.kind = false := by
  by_contra hne
  obtain ⟨t, hab⟩ := (processEvent_turn (replay_regular hr).incomplete he).abandons
    (replay_based hr) (by simpa using hne) hret
  exact hflow.unabandonedAt hfaithful (replay_append_ok hr he) t
    (Moves.abandoned (drain_moves self.env ctx) hab)

theorem RunsFlow.issues_of_returned (hs : e.isStart → past.countP HistoryEvent.isStart = 0)
    (hreturned : ctx₁.world.returned ≠ []) : self.issues ctx₁ e.kind = false := by
  have hstart : e.isStart = false := by
    by_contra hne
    exact hreturned (replay_unstarted (hs (by simpa using hne)) hr).returned
  have hrun : ctx₁.running = false := by
    by_contra hne
    obtain ⟨base, f, hfn⟩ := running_iff.mp (by simpa using hne)
    exact hreturned ((hflow.left.served hfaithful.left hr).program base f hfn).unreturned
  have hactivation : self.activation ctx₁ e.kind = none := by
    by_contra hne
    obtain ⟨a, ha⟩ := Option.ne_none_iff_exists'.mp hne
    rw [running_of_activation ha hstart] at hrun
    cases hrun
  simp [issues, hactivation]

end Turn

/-- The result is entered as an action, unless the program returned before it issued anything. -/
theorem RunsFlow.enters (hflow : self.RunsFlow flow history)
    (hfaithful : self.Faithful service history) (h : self.replay history = .ok ctx)
    (hcomplete : ∀ e ∈ history, e.kind ≠ .complete) :
    Entered ctx ∨ ctx.world.issued = [] ∧ ctx.world.returned ≠ [] := by
  refine replay_induct (P := fun history ctx => self.RunsFlow flow history →
    self.Faithful service history → (∀ e ∈ history, e.kind ≠ .complete) →
    Entered ctx ∨ ctx.world.issued = [] ∧ ctx.world.returned ≠ []) hflow.once ?_ ?_ h hflow
    hfaithful hcomplete
  · exact fun _ _ _ => .inl fun r hr => by cases hr
  · intro past e ctx₁ ctx₂ hr ih hs he hflow hfaithful hcomplete
    have hreg := replay_regular hr
    obtain ⟨n, l, lost, hb⟩ := processEvent_entries hreg.drained hreg.incomplete he
    rcases ih hflow.left hfaithful.left fun e he => hcomplete e (List.mem_append_left _ he) with
      hentered | ⟨hissued, hreturned⟩
    · by_cases hfirst : e.isStart = true ∧ (self.returns ctx₁ e.kind).isSome
      · obtain ⟨rfl, rfl⟩ := hb.quiet (hflow.issues_of_returns hfaithful hr he hfirst.2)
        obtain ⟨r, hret⟩ := Option.isSome_iff_exists.mp hfirst.2
        refine .inr ⟨?_, by simp [hb.returned, hret]⟩
        rw [hb.issued, World.issued, (replay_unstarted (hs hfirst.1) hr).cells]
        rfl
      · refine .inl (hentered.step hb fun r hret => ?_)
        have hstart : e.isStart = false := by
          by_contra hne
          exact hfirst ⟨by simpa using hne, Option.isSome_of_eq_some hret⟩
        exact self.ownEntry_of_returns hret hstart (hcomplete e (by simp))
    · obtain ⟨rfl, rfl⟩ := hb.quiet (hflow.issues_of_returned hfaithful hr hs hreturned)
      refine .inr ⟨?_, by simp [hb.returned, hreturned]⟩
      rw [hb.issued, hissued]
      rfl

theorem inserted_pending (h : self.replay history = .ok ctx)
    (hone : history.countP HistoryEvent.isStart ≤ 1)
    (hap : self.Throughout self.Apart (.new self.env.budget) history)
    {m : Int × OrchestratorAction} (hm : m ∈ ctx.inserted)
    (hack : ∀ e ∈ history, e.kind ≠ .acknowledge m.1) :
    ctx.pendingActions.lookup m.1 = some m.2 := by
  refine processEvents_induct (P := fun history ctx =>
    history.countP HistoryEvent.isStart ≤ 1 →
    self.Throughout self.Apart (.new self.env.budget) history → m ∈ ctx.inserted →
    (∀ e ∈ history, e.kind ≠ .acknowledge m.1) → ctx.pendingActions.lookup m.1 = some m.2)
    ?_ ?_ h hone hap hm hack
  · intro _ _ hm
    cases hm
  · intro past e ctx₁ ctx₂ hr ih he hone hap hm hack
    have hreg := replay_regular hr
    obtain ⟨n, l, lost, hb⟩ := processEvent_entries hreg.drained hreg.incomplete he
    obtain ⟨log, hlog⟩ := replay_booked (replay_append_ok hr he) hone hap
    by_cases hold : m ∈ ctx₁.inserted
    · rw [hb.lookup_kept hlog.nodup hold (hack e (by simp))]
      exact ih (((List.sublist_append_left _ _).countP_le).trans hone) hap.left hold
        fun e' he' => hack e' (List.mem_append_left _ he')
    · exact hb.lookup_new hlog.nodup hm hold

theorem confirmations_ids {order : List OrchestratorAction} {events : List HistoryEvent}
    (h : List.Forall₂ Confirms order events) :
    ∀ e ∈ events, ∃ a ∈ order, e.kind = .acknowledge a.id := by
  induction h with
  | nil => simp
  | cons h _ ih =>
    intro e he
    rcases List.mem_cons.mp he with rfl | he
    · exact ⟨_, List.mem_cons_self, h.kind⟩
    · exact (ih e he).imp fun a ha => ha.imp_left (List.mem_cons_of_mem _)

theorem Run.acknowledges (hrun : self.Run history episodes) :
    ∀ e ∈ history, ∀ id, e.kind = .acknowledge id →
      id ∈ (episodes.flatMap Episode.tasks).map OrchestratorAction.id := by
  induction hrun with
  | nil => simp
  | @episode history episodes ep order hrun hplays horder hconf ih =>
    intro e he id hid
    rw [List.flatMap_append, List.map_append, List.mem_append]
    rcases List.mem_append.mp he with he | he
    · rcases List.mem_append.mp he with he | he
      · exact .inl (ih e he id hid)
      · exact absurd hid ((isNews_of (hplays.news e he)).2 id)
    · obtain ⟨a, ha, hkind⟩ := confirmations_ids hconf e he
      rw [hkind] at hid
      cases hid
      right
      simpa using ⟨a, horder.mem_iff.mp ha, rfl⟩

theorem Run.unconfirmed (hrun : self.Run history episodes) (hplays : self.Plays history ep)
    (h : (self.under ep.env).replay (history ++ ep.newEvents) = .ok ctx)
    (ha : ∀ t, ¬ctx.AbandonedAt t) {m : Int × OrchestratorAction} (hm : m ∈ ctx.inserted)
    (hc : m.2.isComplete = true) :
    ∀ e ∈ history ++ ep.newEvents, e.kind ≠ .acknowledge m.1 := by
  intro e he hack
  have hold : e ∈ history := (List.mem_append.mp he).resolve_right fun he =>
    (isNews_of (hplays.news e he)).2 _ hack
  have hid := hrun.acknowledges e hold _ hack
  have hids := (hrun.issued hplays h ha).map OrchestratorAction.id
  have htimeless : OrchestratorAction.id ∘ OrchestratorAction.timeless = OrchestratorAction.id :=
    funext OrchestratorAction.timeless_id
  rw [List.map_map, List.map_map, htimeless] at hids
  have hmem : m.1 ∈ ctx.world.issued.map OrchestratorAction.id := by
    apply hids.mem_iff.mp
    rw [List.flatMap_append, List.map_append]
    exact List.mem_append_left _ hid
  obtain ⟨a, hissued, haid⟩ := List.mem_map.mp hmem
  obtain ⟨log, hlog⟩ := replay_booked h hplays.started (hplays.apart hrun h ha)
  rw [hlog.issued, List.mem_filter] at hissued
  have hentry : a.entry ∈ ctx.inserted := hlog.inserted ▸ List.mem_map_of_mem hissued.1
  have hsame : m = a.entry := List.inj_on_of_nodup_map hlog.nodup hm hentry haid.symm
  have hincomplete : a.isComplete = false := by simpa using hissued.2
  rw [hsame, show a.entry.2 = a from rfl, hincomplete] at hc
  cases hc

theorem RunsFlow.reports (hflow : self.RunsFlow flow (history ++ ep.newEvents))
    (hrun : self.Run history episodes) (hplays : self.Plays history ep)
    (hfaithful : (self.under ep.env).Faithful service (history ++ ep.newEvents))
    (h : (self.under ep.env).replay (history ++ ep.newEvents) = .ok ctx)
    (hcomplete : ∀ e ∈ history ++ ep.newEvents, e.kind ≠ .complete)
    (hissued : ctx.world.issued ≠ []) {r : OrchestratorResult String}
    (hr : r ∈ ctx.world.returned) : ∃ id, completionAction id r ∈ ep.actions := by
  have hflow' := hflow.under ep.env
  have hab := hflow'.unabandonedAt hfaithful h
  obtain ⟨id, hm⟩ := (hflow'.enters hfaithful h hcomplete).resolve_right
    (fun hnone => hissued hnone.1) r hr
  have hl := inserted_pending h hplays.started (hplays.apart hrun h hab) hm
    (hrun.unconfirmed hplays h hab hm (completionAction_isComplete id r))
  obtain ⟨ctx', h', hactions⟩ := hplays.replay
  rw [h] at h'
  cases h'
  exact ⟨id, hactions ▸ mem_getActions.mpr ⟨id, hl⟩⟩

/--
When nothing is due any more and nobody waits for a signal, the orchestration is over: the last
episode returns the outcome of a complete direct execution, and what the sidecar was asked to
schedule over all episodes is what this execution asks for.
-/
theorem run_completes (hrun : self.Run history episodes) (hplays : self.Plays history ep)
    (hflow : self.RunsFlow flow (history ++ ep.newEvents))
    (hfaithful : (self.under ep.env).Faithful service (history ++ ep.newEvents))
    (h : (self.under ep.env).replay (history ++ ep.newEvents) = .ok ctx)
    (hs : ∃ e ∈ history ++ ep.newEvents, self.starts e.kind = true)
    (hcomplete : ∀ e ∈ history ++ ep.newEvents, e.kind ≠ .complete)
    (hn : ctx.world.notified = false)
    (hb : ∀ N ∈ ep.env.budget, ctx.world.requests.length ≤ N)
    (hscheduled : scheduled (episodes ++ [ep]) ≠ 0) (hdue : due (episodes ++ [ep]) = [])
    (hevents : ctx.pendingEvents = ∅) :
    ∃ (requests : Multiset TaskRequest) (r : OrchestratorResult String) (id : Int),
      flow.Runs self.env.toLowercase service requests (some r) ∧
        scheduled (episodes ++ [ep]) = requests.filter (fun q => q.isSignal = false) ∧
        completionAction id r ∈ ep.actions := by
  have hflow' := hflow.under ep.env
  have hab := hflow'.unabandonedAt hfaithful h
  have hreturned : ctx.world.returned ≠ [] := by
    intro hret
    have hrunning := (replay_launched h hs).resolve_right (not_not.mpr hret)
    rcases hflow'.awaits hfaithful h hrunning hn hb with ⟨a, -, t, hl⟩ | ⟨name, t, hm⟩
    · have hdue' := (hrun.accounted.played hrun hplays) ep.env ctx hplays.env h hab hret a.id
        (AList.lookup_isSome.mp (by rw [hl]; rfl))
      rw [hdue] at hdue'
      cases hdue'
    · rw [hevents, Keyed.get_empty] at hm
      cases hm
  obtain ⟨r, hret, hsettles⟩ := (hflow'.served hfaithful h).returned.resolve_left hreturned
  obtain ⟨id, hreport⟩ := hflow.reports hrun hplays hfaithful h hcomplete
    (fun hissued => hscheduled (by rw [scheduled_eq (hrun.issued hplays h hab), hissued]; rfl))
    (hret ▸ List.mem_singleton_self r)
  refine ⟨ctx.world.requests, r, id, ?_, hrun.scheduled hplays h hab, hreport⟩
  rw [← hplays.env.toLowercase]
  exact hsettles.runs

theorem approval_run_completes : ∃ (requests : Multiset TaskRequest)
    (r : OrchestratorResult String) (id' : Int),
    approval.Runs id (answeredBy approvalAnswer) requests (some r) ∧
      scheduled [requestEpisode, answerEpisode] = requests.filter (fun q => q.isSignal = false) ∧
      completionAction id' r ∈ answerEpisode.actions := by
  obtain ⟨ctx, h, hidle⟩ := Except.exists_of_map
    (show ((approvalExecutor.under answerEpisode.env).replay
      ([] ++ requestEpisode.newEvents ++ requestEpisode.confirmations ++
        answerEpisode.newEvents)).map (fun ctx => (ctx.world.notified,
          ctx.world.requests.length, ctx.pendingEvents.entries.length)) = .ok (false, 3, 0)
      by decide)
  simp only [Prod.mk.injEq, List.length_eq_zero_iff] at hidle
  obtain ⟨hn, hlen, hevents⟩ := hidle
  have hb : ∀ N ∈ answerEpisode.env.budget, ctx.world.requests.length ≤ N := by
    rintro N ⟨⟩
    omega
  exact run_completes requestEpisode_run answerEpisode_plays (approval_runsFlow (by decide))
    (show OrchestrationExecutorFuture.Faithful _ (answeredBy approvalAnswer) _ by decide) h
    ⟨executionStarted, by simp [requestEpisode], by decide⟩ (by decide) hn hb (by decide)
    (by decide) (AList.ext hevents)

end OrchestrationExecutorFuture

end DurableTask
