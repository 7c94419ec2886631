import DurableTask.Executor.Agreement
import DurableTask.Guarantees.Awaiting

/-! # Exactly-once scheduling

In every episode the worker replays the whole history, so the program issues
all its actions again. What keeps them from being returned again is that the
sidecar has confirmed each of them: after the history of an episode nothing but
a completion is pending, and what the new events add is what is returned.
-/

namespace DurableTask

open OrchestrationExecutorContext

def EventKind.isNews : EventKind → Bool
  | .terminate => false
  | .acknowledge _ => false
  | _ => true

/-- The event with which the sidecar confirms an action. -/
inductive Confirms : OrchestratorAction → HistoryEvent → Prop where
  | scheduleTask (id : Int) (action : ScheduleTaskAction) (timestamp : Option Timestamp) :
    Confirms ⟨id, some (.scheduleTask action)⟩
      ⟨id, timestamp, some (.taskScheduled ⟨action.name, action.input⟩)⟩
  | createTimer (id : Int) (action : CreateTimerAction) (timestamp : Option Timestamp) :
    Confirms ⟨id, some (.createTimer action)⟩ ⟨id, timestamp, some (.timerCreated ⟨action.fireAt⟩)⟩
  | createSubOrchestration (id : Int) (action : CreateSubOrchestrationAction)
      (timestamp : Option Timestamp) :
    Confirms ⟨id, some (.createSubOrchestration action)⟩ ⟨id, timestamp,
      some (.subOrchestrationInstanceCreated ⟨action.instanceId, action.name, action.input⟩)⟩

/-- One exchange between the sidecar and the worker. -/
structure Episode where
  env : Env
  newEvents : List HistoryEvent
  /-- What the worker returns. -/
  actions : List OrchestratorAction
  /-- How the sidecar confirms what it schedules. -/
  confirmations : List HistoryEvent

def Episode.tasks (ep : Episode) : List OrchestratorAction :=
  ep.actions.filter fun a => !a.isComplete

namespace OrchestrationExecutorFuture

/--
The worker executes the history and the new events; from one episode to the next only the clock
and the order of the hash maps change.
-/
structure Plays (executor : OrchestrationExecutorFuture) (history : List HistoryEvent)
    (ep : Episode) : Prop where
  env : executor.env.Alike ep.env
  news : ∀ e ∈ ep.newEvents, e.kind.isNews = true
  started : (history ++ ep.newEvents).countP HistoryEvent.isStart ≤ 1
  execute : (executor.under ep.env).execute history ep.newEvents = .ok ep.actions

/--
A run of the protocol and the history that it has led to: after each episode the history grows by
the new events, and by one confirmation for each action to schedule, in any order.
-/
inductive Run (executor : OrchestrationExecutorFuture) :
    List HistoryEvent → List Episode → Prop where
  | nil : Run executor [] []
  | episode {history : List HistoryEvent} {episodes : List Episode} {ep : Episode}
      {order : List OrchestratorAction} (h : Run executor history episodes)
      (hplays : executor.Plays history ep) (horder : order.Perm ep.tasks)
      (hconf : List.Forall₂ Confirms order ep.confirmations) :
    Run executor (history ++ ep.newEvents ++ ep.confirmations) (episodes ++ [ep])

end OrchestrationExecutorFuture

theorem Confirms.kind {a : OrchestratorAction} {e : HistoryEvent} (h : Confirms a e) :
    e.kind = .acknowledge a.id := by
  cases h <;> rfl

namespace OrchestrationExecutorContext

def openActions (ctx : OrchestrationExecutorContext) : List OrchestratorAction :=
  (ctx.pendingActions.entries.map Sigma.snd).filter fun a => !a.isComplete

variable {ctx : OrchestrationExecutorContext}

theorem mem_openActions {a : OrchestratorAction} : a ∈ ctx.openActions ↔
    (∃ id, ctx.pendingActions.lookup id = some a) ∧ a.isComplete = false := by
  simp only [openActions, List.mem_filter, List.mem_map, Bool.not_eq_true']
  refine and_congr_left fun _ => ⟨?_, ?_⟩
  · rintro ⟨⟨id, b⟩, hm, rfl⟩
    exact ⟨id, AList.mem_lookup_iff.mpr hm⟩
  · rintro ⟨id, hl⟩
    exact ⟨⟨id, a⟩, AList.mem_lookup_iff.mp hl, rfl⟩

theorem getActions_perm (env : Env) :
    ((ctx.getActions env).filter fun a => !a.isComplete).Perm ctx.openActions :=
  (env.hashOrder_perm _).filter _

theorem insertAll_perm {l : List (Int × OrchestratorAction)}
    {actions : AList fun _ : Int => OrchestratorAction} (hn : (l.map Prod.fst).Nodup)
    (hnew : ∀ m ∈ l, actions.lookup m.1 = none) :
    ((insertAll l actions).entries.map Sigma.snd).Perm
      (actions.entries.map Sigma.snd ++ l.map Prod.snd) := by
  induction l generalizing actions with
  | nil => simp
  | cons m l ih =>
    rw [List.map_cons, List.nodup_cons] at hn
    have hm : m.1 ∉ actions := AList.lookup_eq_none.mp (hnew m List.mem_cons_self)
    rw [insertAll_cons]
    refine (ih hn.2 fun m' hm' => ?_).trans ?_
    · have hne : m'.1 ≠ m.1 := fun he => hn.1 (List.mem_map.mpr ⟨m', hm', he⟩)
      rw [AList.lookup_insert_ne hne]
      exact hnew m' (List.mem_cons_of_mem _ hm')
    · rw [AList.entries_insert_of_notMem hm]
      simp only [List.map_cons, List.cons_append]
      exact List.perm_middle.symm

end OrchestrationExecutorContext

namespace OrchestrationExecutorFuture

variable {self : OrchestrationExecutorFuture} {ctx ctx' ctx₁ : OrchestrationExecutorContext}
  {past news history events : List HistoryEvent} {e : HistoryEvent}

theorem replay_entered (h : self.replay history = .ok ctx) {id : Int} {a : OrchestratorAction}
    (hl : ctx.pendingActions.lookup id = some a) : (id, a) ∈ ctx.inserted := by
  revert hl
  refine processEvents_induct (P := fun _ ctx => ctx.pendingActions.lookup id = some a →
    (id, a) ∈ ctx.inserted) ?_ ?_ h
  · intro hl
    cases hl
  · intro past e ctx₁ ctx₂ hr ih he hl
    have hreg := replay_regular hr
    obtain ⟨n, l, lost, hb⟩ := processEvent_entries hreg.drained hreg.incomplete he
    rw [hb.pendingActions] at hl
    rw [hb.inserted, List.append_assoc, List.mem_append]
    exact (lookup_insertAll hl).symm.imp_left fun hl => ih (EventKind.lookup_of_acked hl)

/-- News adds to the open actions what the program issues. -/
theorem processEvent_open (hr : self.replay past = .ok ctx)
    (he : self.processEvent ctx e = .ok ctx') (hk : e.kind.isNews = true) (hap : self.Apart ctx e)
    (hn : (ctx'.drain.inserted.map Prod.fst).Nodup) :
    ∃ l, ctx'.drain.world.issued = ctx.world.issued ++ l ∧
      ctx'.drain.openActions.Perm (ctx.openActions ++ l) := by
  have hreg := replay_regular hr
  obtain ⟨n, l, lost, hb⟩ := processEvent_entries hreg.drained hreg.incomplete he
  obtain rfl : lost = [] := by
    by_contra hne
    obtain ⟨hstart, hi, hret⟩ := hb.lost_of hne
    rw [(hap hi).2 hret] at hstart
    cases hstart
  have hacked : e.kind.acked ctx.pendingActions = ctx.pendingActions := by
    cases hkind : e.kind with
    | acknowledge id => rw [hkind] at hk; cases hk
    | _ => rfl
  refine ⟨l, by rw [hb.issued, List.append_nil], ?_⟩
  obtain ⟨own, hown, -, hcomp⟩ := ownEntry_log self ctx e.kind
  rw [hb.inserted, List.append_assoc, List.map_append, List.nodup_append] at hn
  have hnew : ∀ m ∈ self.ownEntry ctx e.kind ++ l.map OrchestratorAction.entry,
      ctx.pendingActions.lookup m.1 = none := by
    intro m hm
    apply Option.eq_none_iff_forall_ne_some.mpr
    intro a hl
    exact hn.2.2 m.1 (List.mem_map.mpr ⟨_, replay_entered hr hl, rfl⟩) m.1 (List.mem_map_of_mem hm)
      rfl
  have hperm := insertAll_perm hn.2.1 hnew
  have hsnd (l : List OrchestratorAction) :
      (l.map OrchestratorAction.entry).map Prod.snd = l := by
    rw [List.map_map]
    exact List.map_id l
  rw [hown, List.map_append, hsnd, hsnd] at hperm
  have hfilter := hperm.filter fun a => !a.isComplete
  rw [List.filter_append, List.filter_append,
    List.filter_eq_nil_iff.mpr (show ∀ a ∈ own, ¬(!a.isComplete) = true by simpa using hcomp),
    List.filter_eq_self.mpr (show ∀ a ∈ l, (!a.isComplete) = true by simpa using hb.incomplete),
    List.nil_append] at hfilter
  rw [openActions, hb.pendingActions, hacked, hown]
  exact hfilter

theorem processEvents_open (h₁ : self.replay past = .ok ctx₁)
    (h : self.processEvents ctx₁ news = .ok ctx) (hk : ∀ e ∈ news, e.kind.isNews = true)
    (hone : (past ++ news).countP HistoryEvent.isStart ≤ 1)
    (hap : self.Throughout self.Apart (.new self.env.budget) (past ++ news)) :
    ∃ l, ctx.world.issued = ctx₁.world.issued ++ l ∧
      ctx.openActions.Perm (ctx₁.openActions ++ l) := by
  revert hk hone hap
  refine processEvents_induct (P := fun news ctx => (∀ e ∈ news, e.kind.isNews = true) →
    (past ++ news).countP HistoryEvent.isStart ≤ 1 →
    self.Throughout self.Apart (.new self.env.budget) (past ++ news) →
    ∃ l, ctx.world.issued = ctx₁.world.issued ++ l ∧
      ctx.openActions.Perm (ctx₁.openActions ++ l)) ?_ ?_ h
  · exact fun _ _ _ => ⟨[], by simp, by simp⟩
  · intro q e ctx₂ ctx₃ h₂ ih he hk hone hap
    rw [← List.append_assoc] at hone hap
    have hr : self.replay (past ++ q) = .ok ctx₂ := by
      rw [replay, processEvents_append_ok h₁, h₂]
    have hr' := replay_append_ok hr he
    obtain ⟨l, hl, hp⟩ := ih (fun e' he' => hk e' (List.mem_append_left _ he'))
      (Nat.le_trans (List.Sublist.countP_le (List.sublist_append_left _ _)) hone) hap.left
    obtain ⟨log, hlog⟩ := replay_booked hr' hone hap
    obtain ⟨l', hl', hp'⟩ :=
      processEvent_open hr he (hk e (by simp)) (hap.right hr).1 hlog.nodup
    refine ⟨l ++ l', by rw [hl', hl, List.append_assoc], hp'.trans ?_⟩
    rw [← List.append_assoc]
    exact hp.append_right l'

theorem processEvents_confirm (hd : ctx.Drained) (h : self.processEvents ctx events = .ok ctx')
    (hk : ∀ e ∈ events, ∃ id, e.kind = .acknowledge id) : ctx'.world = ctx.world ∧
      ∀ id a, ctx'.pendingActions.lookup id = some a → ctx.pendingActions.lookup id = some a ∧
        ∀ e ∈ events, e.kind ≠ .acknowledge id := by
  induction events generalizing ctx with
  | nil =>
    cases h
    exact ⟨rfl, fun id a hl => ⟨hl, by simp⟩⟩
  | cons e events ih =>
    obtain ⟨ctx₁, he, h⟩ := processEvents_cons_split h
    obtain ⟨id₁, hid⟩ := hk e List.mem_cons_self
    rw [processEvent_eq, hid] at he
    cases he
    have hd₁ : (ctx.acknowledge id₁).Drained := hd.of_octx rfl
    rw [drain_of_drained hd₁] at h
    obtain ⟨hw, hl⟩ := ih hd₁ h fun e' he' => hk e' (List.mem_cons_of_mem _ he')
    refine ⟨hw, fun id a hla => ?_⟩
    obtain ⟨hla₁, hne⟩ := hl id a hla
    refine ⟨AList.lookup_of_erase _ _ _ hla₁, fun e' he' hack => ?_⟩
    rcases List.mem_cons.mp he' with rfl | he'
    · rw [hid] at hack
      cases hack
      simp [acknowledge] at hla₁
    · exact hne e' he' hack

theorem openActions_confirmed (hr : self.replay past = .ok ctx)
    (hone : past.countP HistoryEvent.isStart ≤ 1)
    (hap : self.Throughout self.Apart (.new self.env.budget) past)
    (h : self.processEvents ctx events = .ok ctx')
    (hk : ∀ e ∈ events, ∃ id, e.kind = .acknowledge id)
    (hall : ∀ a ∈ ctx.openActions, ∃ e ∈ events, e.kind = .acknowledge a.id) :
    ctx'.openActions = [] := by
  obtain ⟨-, hl⟩ := processEvents_confirm (replay_regular hr).drained h hk
  obtain ⟨log, hlog⟩ := replay_booked hr hone hap
  apply List.eq_nil_iff_forall_not_mem.mpr
  intro a ha
  obtain ⟨⟨id, hla⟩, hc⟩ := mem_openActions.mp ha
  obtain ⟨hla₁, hne⟩ := hl id a hla
  have hentry := replay_entered hr hla₁
  rw [hlog.inserted, List.mem_map] at hentry
  obtain ⟨b, -, hb⟩ := hentry
  cases hb
  obtain ⟨e, he, hack⟩ := hall a (mem_openActions.mpr ⟨⟨_, hla₁⟩, hc⟩)
  exact hne e he hack

end OrchestrationExecutorFuture

theorem Env.Alike.between {env env₁ env₂ : Env} (h₁ : env.Alike env₁) (h₂ : env.Alike env₂) :
    env₁.Alike env₂ :=
  ⟨h₂.toLowercase.trans h₁.toLowercase.symm, h₂.budget.trans h₁.budget.symm⟩

theorem OrchestrationExecutorContext.Alike.abandoned {ctx ctx' : OrchestrationExecutorContext}
    (h : Alike ctx ctx') {t : ℕ} (ha : ctx'.AbandonedAt t) : ctx.AbandonedAt t := by
  obtain ⟨c', hc', ha⟩ := ha
  have hget := h.world.get t
  rw [hc', Option.map_some, eq_comm, Option.map_eq_some_iff] at hget
  obtain ⟨c, hc, he⟩ := hget
  obtain ⟨-, -, hd, ho⟩ := Cell.timeless_eq.mp he
  exact ⟨c, hc, hd.trans ha.1, ho.trans ha.2⟩

namespace OrchestrationExecutorFuture

variable {self : OrchestrationExecutorFuture} {ctx ctx' ctx₁ : OrchestrationExecutorContext}
  {history : List HistoryEvent} {episodes : List Episode} {ep : Episode} {env : Env}

theorem isNews_of {k : EventKind} (h : k.isNews = true) :
    k ≠ .terminate ∧ ∀ id, k ≠ .acknowledge id := by
  cases k <;> simp_all [EventKind.isNews]

theorem confirmations_kind {order : List OrchestratorAction} {events : List HistoryEvent}
    (h : List.Forall₂ Confirms order events) :
    (∀ e ∈ events, ∃ id, e.kind = .acknowledge id) ∧
      ∀ a ∈ order, ∃ e ∈ events, e.kind = .acknowledge a.id := by
  induction h with
  | nil => simp
  | cons h _ ih =>
    have hkind := h.kind
    constructor
    · intro e he
      rcases List.mem_cons.mp he with rfl | he
      · exact ⟨_, hkind⟩
      · exact ih.1 e he
    · intro a ha
      rcases List.mem_cons.mp ha with rfl | ha
      · exact ⟨_, List.mem_cons_self, hkind⟩
      · exact (ih.2 a ha).imp fun e h => h.imp_left (List.mem_cons_of_mem _)

theorem Run.wellFormed (h : self.Run history episodes) :
    history.countP HistoryEvent.isStart ≤ 1 ∧ ∀ e ∈ history, e.kind ≠ .terminate := by
  induction h with
  | nil => simp
  | @episode history episodes ep order h hplays horder hconf ih =>
    obtain ⟨hack, -⟩ := confirmations_kind hconf
    refine ⟨?_, fun e he => ?_⟩
    · have hzero : ep.confirmations.countP HistoryEvent.isStart = 0 := by
        rw [List.countP_eq_zero]
        intro e he
        obtain ⟨id, hid⟩ := hack e he
        simp [HistoryEvent.isStart, EventKind.isStart, hid]
      rw [List.countP_append, hzero]
      exact hplays.started
    · rcases List.mem_append.mp he with he | he
      · rcases List.mem_append.mp he with he | he
        · exact ih.2 e he
        · exact (isNews_of (hplays.news e he)).1
      · obtain ⟨id, hid⟩ := hack e he
        simp [hid]

/-- Nothing that was issued before the episode is open, whatever the clock. -/
def Settled (executor : OrchestrationExecutorFuture) (history : List HistoryEvent)
    (episodes : List Episode) : Prop :=
  ∀ env ctx, executor.env.Alike env → (executor.under env).replay history = .ok ctx →
    (∀ t, ¬ctx.AbandonedAt t) → ctx.openActions = [] ∧
      ((episodes.flatMap Episode.tasks).map OrchestratorAction.timeless).Perm
        (ctx.world.issued.map OrchestratorAction.timeless)

theorem Plays.apart (hplays : self.Plays history ep) (hrun : self.Run history episodes)
    (h : (self.under env).replay (history ++ ep.newEvents) = .ok ctx)
    (ha : ∀ t, ¬ctx.AbandonedAt t) :
    (self.under env).Throughout (self.under env).Apart (.new (self.under env).env.budget)
      (history ++ ep.newEvents) :=
  replay_apart h (fun e he => (List.mem_append.mp he).elim (hrun.wellFormed.2 e) fun he =>
    (isNews_of (hplays.news e he)).1) ha

theorem Settled.news (hs : self.Settled history episodes) (hrun : self.Run history episodes)
    (hplays : self.Plays history ep) (henv : self.env.Alike env)
    (h₁ : (self.under env).replay history = .ok ctx₁)
    (h : (self.under env).replay (history ++ ep.newEvents) = .ok ctx)
    (ha : ∀ t, ¬ctx.AbandonedAt t) :
    ∃ created, ctx.world.issued = ctx₁.world.issued ++ created ∧ ctx.openActions.Perm created := by
  have h₂ := h
  rw [replay, processEvents_append_ok h₁] at h₂
  have ha₁ (t : ℕ) : ¬ctx₁.AbandonedAt t := fun hab =>
    ha t (processEvents_abandoned (replay_regular h₁) h₂ hab)
  obtain ⟨l, hl, hp⟩ := processEvents_open h₁ h₂ hplays.news hplays.started
    (hplays.apart hrun h ha)
  rw [(hs env ctx₁ henv h₁ ha₁).1, List.nil_append] at hp
  exact ⟨l, hl, hp⟩

theorem Settled.returned (hs : self.Settled history episodes) (hrun : self.Run history episodes)
    (hplays : self.Plays history ep)
    (h₁ : (self.under ep.env).replay history = .ok ctx₁)
    (h : (self.under ep.env).replay (history ++ ep.newEvents) = .ok ctx)
    (ha : ∀ t, ¬ctx.AbandonedAt t) :
    ∃ created, ctx.world.issued = ctx₁.world.issued ++ created ∧ ep.tasks.Perm created := by
  obtain ⟨created, hissued, hopen⟩ := hs.news hrun hplays hplays.env h₁ h ha
  obtain ⟨ctx', h', hactions⟩ := execute_ok hplays.execute
  rw [h] at h'
  cases h'
  refine ⟨created, hissued, ?_⟩
  rw [Episode.tasks, hactions]
  exact (getActions_perm _).trans hopen

theorem created_timeless {env' : Env} {past news : List HistoryEvent}
    {l l' : List OrchestratorAction} {ctx₁' : OrchestrationExecutorContext} (henv : env.Alike env')
    (h₁ : (self.under env).replay past = .ok ctx₁) (h₁' : (self.under env').replay past = .ok ctx₁')
    (h : (self.under env).replay (past ++ news) = .ok ctx)
    (h' : (self.under env').replay (past ++ news) = .ok ctx')
    (hl : ctx.world.issued = ctx₁.world.issued ++ l)
    (hl' : ctx'.world.issued = ctx₁'.world.issued ++ l') :
    l'.map OrchestratorAction.timeless = l.map OrchestratorAction.timeless := by
  have issued {events : List HistoryEvent} {c c' : OrchestrationExecutorContext}
      (hc : (self.under env).replay events = .ok c)
      (hc' : (self.under env').replay events = .ok c') :
      c'.world.issued.map OrchestratorAction.timeless =
        c.world.issued.map OrchestratorAction.timeless := by
    obtain ⟨d, hd, halike⟩ := (replay_agree henv events).exists_ok hc
    obtain rfl : c' = d := Except.ok.inj (hc'.symm.trans hd)
    exact halike.world.issued
  have hall := issued h h'
  rw [hl, hl', List.map_append, List.map_append, issued h₁ h₁'] at hall
  exact List.append_cancel_left hall

/-- An episode and its confirmations leave nothing open. -/
theorem Settled.episode {order : List OrchestratorAction} (hs : self.Settled history episodes)
    (hrun : self.Run history episodes) (hplays : self.Plays history ep)
    (horder : order.Perm ep.tasks) (hconf : List.Forall₂ Confirms order ep.confirmations) :
    self.Settled (history ++ ep.newEvents ++ ep.confirmations) (episodes ++ [ep]) := by
  intro env ctx henv hr ha
  obtain ⟨ctx₂, h₂, hconfirm⟩ := processEvents_split hr
  obtain ⟨ctx₁, h₁, hnews⟩ := processEvents_split h₂
  have ha₂ (t : ℕ) : ¬ctx₂.AbandonedAt t := fun hab =>
    ha t (processEvents_abandoned (replay_regular h₂) hconfirm hab)
  have ha₁ (t : ℕ) : ¬ctx₁.AbandonedAt t := fun hab =>
    ha₂ t (processEvents_abandoned (replay_regular h₁) hnews hab)
  obtain ⟨l, hl, hopen⟩ := hs.news hrun hplays henv h₁ h₂ ha₂
  -- the same under the clock of the episode
  have henv' := henv.between hplays.env
  obtain ⟨d₂, hd₂, halike₂⟩ := (replay_agree henv' _).exists_ok h₂
  obtain ⟨d₁, hd₁, halike₁⟩ := (replay_agree henv' _).exists_ok h₁
  obtain ⟨l', hl', hreturned⟩ := hs.returned hrun hplays hd₁ hd₂ fun t hab =>
    ha₂ t (halike₂.abandoned hab)
  have htimeless := created_timeless henv' h₁ hd₁ h₂ hd₂ hl hl'
  obtain ⟨hack, hall⟩ := confirmations_kind hconf
  have hclosed : ctx.openActions = [] := by
    refine openActions_confirmed h₂ hplays.started (hplays.apart hrun h₂ ha₂) hconfirm hack
      fun a ha => ?_
    have hm := List.mem_map_of_mem (f := OrchestratorAction.timeless) (hopen.mem_iff.mp ha)
    rw [← htimeless, List.mem_map] at hm
    obtain ⟨b, hb, hba⟩ := hm
    have hid : b.id = a.id := by rw [← b.timeless_id, hba, a.timeless_id]
    exact hid ▸ hall b (horder.mem_iff.mpr (hreturned.mem_iff.mpr hb))
  have hw := (processEvents_confirm (replay_regular h₂).drained hconfirm hack).1
  refine ⟨hclosed, ?_⟩
  rw [hw, hl, List.map_append, List.flatMap_append, List.map_append, ← htimeless]
  refine (hs env ctx₁ henv h₁ ha₁).2.append ?_
  simpa using hreturned.map OrchestratorAction.timeless

theorem Run.settled (h : self.Run history episodes) : self.Settled history episodes := by
  induction h with
  | nil =>
    intro env ctx henv hr ha
    cases hr
    exact ⟨rfl, .nil⟩
  | episode h hplays horder hconf ih => exact ih.episode h hplays horder hconf

/--
In every episode of every run, the actions returned for scheduling are those of the tasks that the
program created while the new events were processed. None of them was returned before, and
together with those returned before they are all that the program has issued.
-/
theorem run_schedules_once (hrun : self.Run history episodes) (hplays : self.Plays history ep)
    (h₁ : (self.under ep.env).replay history = .ok ctx₁)
    (h : (self.under ep.env).replay (history ++ ep.newEvents) = .ok ctx)
    (ha : ∀ c ∈ ctx.world.cells, ¬c.Abandoned) :
    (∃ created, ctx.world.issued = ctx₁.world.issued ++ created ∧ ep.tasks.Perm created) ∧
    (∀ ep' ∈ episodes, ∀ a ∈ ep.tasks, ∀ a' ∈ ep'.tasks, a.id ≠ a'.id) ∧
    (((episodes ++ [ep]).flatMap Episode.tasks).map OrchestratorAction.timeless).Perm
      (ctx.world.issued.map OrchestratorAction.timeless) := by
  have hab (t : ℕ) : ¬ctx.AbandonedAt t := by
    rintro ⟨c, hc, hca⟩
    exact ha c (List.mem_of_getElem? hc) hca
  obtain ⟨created, hissued, hreturned⟩ := hrun.settled.returned hrun hplays h₁ h hab
  have hnews := h
  rw [replay, processEvents_append_ok h₁] at hnews
  have hab₁ (t : ℕ) : ¬ctx₁.AbandonedAt t := fun hab' =>
    hab t (processEvents_abandoned (replay_regular h₁) hnews hab')
  have hall : (((episodes ++ [ep]).flatMap Episode.tasks).map OrchestratorAction.timeless).Perm
      (ctx.world.issued.map OrchestratorAction.timeless) := by
    rw [hissued, List.map_append, List.flatMap_append, List.map_append]
    refine (hrun.settled ep.env ctx₁ hplays.env h₁ hab₁).2.append ?_
    simpa using hreturned.map OrchestratorAction.timeless
  refine ⟨⟨created, hissued, hreturned⟩, fun ep' hep' a ha a' ha' hid => ?_, hall⟩
  obtain ⟨log, hlog⟩ := replay_booked h hplays.started (hplays.apart hrun h hab)
  have hids (l : List OrchestratorAction) :
      (l.map OrchestratorAction.timeless).map OrchestratorAction.id =
        l.map OrchestratorAction.id := by
    rw [List.map_map]
    exact List.map_congr_left fun a _ => a.timeless_id
  have hnodup : (((episodes ++ [ep]).flatMap Episode.tasks).map OrchestratorAction.id).Nodup := by
    have hperm := hall.map OrchestratorAction.id
    rw [hids, hids, hlog.issued] at hperm
    exact hperm.nodup_iff.mpr (hlog.numbered.nodup.sublist (List.filter_sublist.map _))
  rw [List.flatMap_append, List.map_append, List.nodup_append] at hnodup
  refine hnodup.2.2 a'.id ?_ a.id ?_ hid.symm
  · exact List.mem_map_of_mem (List.mem_flatMap.mpr ⟨ep', hep', ha'⟩)
  · exact List.mem_map_of_mem (by simpa using ha)

def plainEnvAt (nanos : ℕ) : Env := { plainEnv with now := fun _ => nanos }

/-- `sequence_orchestration` starts and creates its timer. -/
def timerEpisode : Episode where
  env := plainEnvAt 5
  newEvents := [executionStarted]
  actions := [newCreateTimerAction 1 ⟨10, 5⟩]
  confirmations := [⟨1, none, some (.timerCreated ⟨some ⟨10, 5⟩⟩)⟩]

def activityEpisode : Episode where
  env := plainEnvAt 7
  newEvents := [timerFired 1]
  actions := [newScheduleTaskAction 2 "test_activity" (some "\"test\"")]
  confirmations := [⟨2, none, some (.taskScheduled ⟨"test_activity", some "\"test\""⟩)⟩]

theorem timerEpisode_run : (executorOf sequenceOrchestration).Run
    ([] ++ timerEpisode.newEvents ++ timerEpisode.confirmations) ([] ++ [timerEpisode]) :=
  .episode .nil ⟨⟨rfl, rfl⟩, by decide, by decide, by decide⟩ (.refl _)
    (.cons (.createTimer _ _ _) .nil)

theorem activityEpisode_plays : (executorOf sequenceOrchestration).Plays
    ([] ++ timerEpisode.newEvents ++ timerEpisode.confirmations) activityEpisode :=
  ⟨⟨rfl, rfl⟩, by decide, by decide, by decide⟩

theorem sequenceOrchestration_schedules_once : ∃ ctx,
    ((executorOf sequenceOrchestration).under activityEpisode.env).replay
      (timerEpisode.newEvents ++ timerEpisode.confirmations ++ activityEpisode.newEvents) =
        .ok ctx ∧
      (([timerEpisode, activityEpisode].flatMap Episode.tasks).map
        OrchestratorAction.timeless).Perm (ctx.world.issued.map OrchestratorAction.timeless) := by
  obtain ⟨ctx₁, h₁, -⟩ := Except.exists_of_map
    (show (((executorOf sequenceOrchestration).under activityEpisode.env).replay
      ([] ++ timerEpisode.newEvents ++ timerEpisode.confirmations)).map
        (fun ctx => ctx.world.cells.length) = .ok 1 by decide)
  obtain ⟨ctx, h, hkeep⟩ := Except.exists_of_map
    (show (((executorOf sequenceOrchestration).under activityEpisode.env).replay
      ([] ++ timerEpisode.newEvents ++ timerEpisode.confirmations ++ activityEpisode.newEvents)).map
        (fun ctx => ctx.world.cells.map fun c => decide c.Abandoned) = .ok [false, false] by decide)
  refine ⟨ctx, h, (run_schedules_once timerEpisode_run activityEpisode_plays h₁ h
    fun c hc ha => ?_).2.2⟩
  have hm : decide c.Abandoned ∈ [false, false] := hkeep ▸ List.mem_map_of_mem hc
  simp [ha] at hm

end OrchestrationExecutorFuture

end DurableTask
