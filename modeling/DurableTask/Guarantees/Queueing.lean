import DurableTask.Invariants.Linked
import DurableTask.Invariants.Queued

/-! # Well-formed queues

Waiters and buffered events of one name never meet: a program waits only where
no event is buffered, and its waiters are known to the executor before the next
event. So a queue that is looked up has a front.
-/

namespace DurableTask

open Interaction Queues OrchestrationExecutorContext

/-- No event is buffered under a name that has a waiter, be it known or on its way. -/
def OrchestrationExecutorContext.Apart (ctx : OrchestrationExecutorContext) : Prop :=
  ctx.world.receivedEvents.Within fun name =>
    ctx.pendingEvents.lookup name = none ∧ ∀ m ∈ ctx.world.octx.eventsTx, m.1 ≠ name

/-- Signals are awaited under lower-case names only. -/
def World.Lowercased (env : Env) (w : World) : Prop :=
  ∀ o ∈ w.cells.map Cell.origin, ∀ key, o = .signal key → ∃ name, key = env.toLowercase name

/-- Buffered events are filed under the lower-case names of raised ones. -/
def World.Raised (env : Env) (history : List HistoryEvent) (w : World) : Prop :=
  w.receivedEvents.Within fun key =>
    ∃ e ∈ history, ∃ r, e.kind = .raise r ∧ key = env.toLowercase r.name

variable {env : Env} {ctx ctx' : OrchestrationExecutorContext} {w w' : World}
  {history : List HistoryEvent} {e : HistoryEvent}

theorem World.Lowercased.of_origins (h : w.Lowercased env)
    (ho : w'.cells.map Cell.origin = w.cells.map Cell.origin) : w'.Lowercased env := by
  rw [World.Lowercased, ho]
  exact h

theorem World.Lowercased.append {c : Cell} (h : w.Lowercased env)
    (hw : w'.cells = w.cells ++ [c])
    (hc : ∀ key, c.origin = .signal key → ∃ name, key = env.toLowercase name) :
    w'.Lowercased env := by
  rintro o ho key hkey
  rw [hw, List.map_append, List.mem_append] at ho
  obtain ho | ho := ho
  · exact h o ho key hkey
  · obtain rfl := List.mem_singleton.mp ho
    exact hc key hkey

theorem World.Step.lowercased (h : World.Step env w w') (hw : w.Lowercased env) :
    w'.Lowercased env := by
  have hcells := fun (t : ℕ) (c : Cell) (hc : w.cells[t]? = some c) =>
    (h.cells hc).imp fun _ h => h.imp_right Cell.Evolves.origin
  cases h with
  | issue reads mk hid hc =>
    refine hw.append rfl ?_
    rintro key hkey
    cases hkey
  | take name payload received hl =>
    refine hw.append rfl ?_
    rintro key hkey
    exact ⟨name, (Origin.signal.inj hkey).symm⟩
  | wait name hl =>
    refine hw.append rfl ?_
    rintro key hkey
    exact ⟨name, (Origin.signal.inj hkey).symm⟩
  | poll t c c' r b hc hp => exact hw.of_origins (World.origins_eq (by simp) hcells)
  | drop t => exact hw.of_origins (World.origins_eq (by simp [World.dropTask]) hcells)

theorem World.Steps.lowercased (h : World.Steps env w w') (hw : w.Lowercased env) :
    w'.Lowercased env :=
  h.preserves (fun _ _ hs hw => hs.lowercased hw) hw

theorem World.Step.raised (h : World.Step env w w') (hw : w.Raised env history) :
    w'.Raised env history := by
  cases h with
  | take name payload received hl => exact Keyed.Within.pop hw (hw _ _ hl)
  | _ => exact hw

theorem World.Steps.raised (h : World.Steps env w w') (hw : w.Raised env history) :
    w'.Raised env history :=
  h.preserves (fun _ _ hs hw => hs.raised hw) hw

theorem World.dropFrom_origins {base : TaskRef} :
    (w.dropFrom base).cells.map Cell.origin = w.cells.map Cell.origin :=
  World.origins_eq World.dropFrom_length fun _ _ hc =>
    (World.dropFrom_evolves hc).imp fun _ h => h.imp_right Cell.Evolves.origin

theorem Move.lowercased (hm : Move env ctx ctx') (h : ctx.world.Lowercased env) :
    ctx'.world.Lowercased env := by
  cases hm with
  | step base f w hfn hs => exact hs.lowercased h
  | finish base f r hfn => exact h.of_origins World.dropFrom_origins
  | takeAction m rest hm =>
    rw [takeAction_eq]
    exact h
  | takeTask m rest hm => exact h.of_origins (takeTask_map (fun _ => rfl) m)
  | _ => exact h

theorem Move.raised (hm : Move env ctx ctx') (h : ctx.world.Raised env history) :
    ctx'.world.Raised env history := by
  cases hm with
  | step base f w hfn hs => exact hs.raised h
  | takeAction m rest hm =>
    rw [takeAction_eq]
    exact h
  | takeTask m rest hm =>
    rw [World.Raised, takeTask_receivedEvents]
    exact h
  | _ => exact h

theorem World.Raised.mono (h : w.Raised env history) (e : HistoryEvent) :
    w.Raised env (history ++ [e]) := by
  refine Keyed.Within.mono h ?_
  rintro key q - ⟨e', he', hr⟩
  exact ⟨e', List.mem_append_left _ he', hr⟩

theorem Delivery.raised (hdel : Delivery env ctx e.kind ctx')
    (h : ctx.world.Raised env history) : ctx'.world.Raised env (history ++ [e]) := by
  generalize hk : e.kind = k at hdel
  cases hdel with
  | send id v message polls t w hl hs =>
    obtain ⟨c, -, -, rfl⟩ := World.send_ok hs
    exact h.mono e
  | give r t waiters w hl hs =>
    obtain ⟨c, -, -, rfl⟩ := World.send_ok hs
    exact h.mono e
  | buffer r hl =>
    exact Keyed.Within.push (h.mono e) ⟨e, List.mem_append_right _ List.mem_cons_self, r, hk, rfl⟩
  | _ => exact h.mono e

theorem World.Step.apart (h : World.Step env ctx.world w) (ha : ctx.Apart) :
    OrchestrationExecutorContext.Apart { ctx with world := w } := by
  cases h with
  | take name payload received hl => exact Keyed.Within.pop ha (ha _ _ hl)
  | wait name hl =>
    refine Keyed.Within.mono ha ?_
    rintro key q hq ⟨hnone, hsent⟩
    refine ⟨hnone, ?_⟩
    rintro m hm
    obtain hm | hm := List.mem_append.mp hm
    · exact hsent m hm
    · obtain rfl := List.mem_singleton.mp hm
      rintro rfl
      exact absurd (hl.symm.trans hq) (by simp)
  | _ => exact ha

theorem World.Steps.apart (h : World.Steps env ctx.world w) (ha : ctx.Apart) :
    OrchestrationExecutorContext.Apart { ctx with world := w } := by
  refine h.preserves (P := fun w => OrchestrationExecutorContext.Apart { ctx with world := w })
    ?_ ha
  intro w₁ w₂ hs ha
  have hs' : World.Step env ({ ctx with world := w₁ } : OrchestrationExecutorContext).world w₂ :=
    hs
  exact hs'.apart ha

/-- Where no waiter is on its way, only those that are known count. -/
theorem OrchestrationExecutorContext.Apart.of_events (h : ctx.Apart)
    (hp : ctx'.pendingEvents = ctx.pendingEvents)
    (hr : ctx'.world.receivedEvents = ctx.world.receivedEvents)
    (he : ctx'.world.octx.eventsTx = []) : ctx'.Apart := by
  rw [OrchestrationExecutorContext.Apart, hp, hr, he]
  refine Keyed.Within.mono h ?_
  rintro key q - ⟨hnone, -⟩
  refine ⟨hnone, ?_⟩
  rintro m hm
  cases hm

theorem Move.apart (hm : Move env ctx ctx') (h : ctx.Apart) : ctx'.Apart := by
  cases hm with
  | step base f w hfn hs => exact hs.apart h
  | takeAction m rest hm =>
    rw [takeAction_eq]
    exact h
  | takeTask m rest hm =>
    rw [OrchestrationExecutorContext.Apart, takeTask_receivedEvents, takeTask_octx]
    exact h
  | takeWaiter m rest hm =>
    refine Keyed.Within.mono h ?_
    rintro key q hq ⟨hnone, hsent⟩
    rw [hm] at hsent
    refine ⟨Keyed.lookup_push_none hnone (hsent m List.mem_cons_self).symm, ?_⟩
    rintro m' hm'
    exact hsent m' (List.mem_cons_of_mem _ hm')
  | _ => exact h

theorem Delivery.apart {k : EventKind} (hdel : Delivery env ctx k ctx') (hd : ctx.Drained)
    (h : ctx.Apart) : ctx'.Apart := by
  cases hdel with
  | send id v message polls t w hl hs =>
    obtain ⟨c, -, -, rfl⟩ := World.send_ok hs
    exact h
  | give e t waiters w hl hs =>
    obtain ⟨c, -, -, rfl⟩ := World.send_ok hs
    refine Keyed.Within.mono h ?_
    rintro key q hq ⟨hnone, hsent⟩
    have hne : key ≠ env.toLowercase e.name := by
      rintro rfl
      exact absurd (hl.symm.trans hnone) (by simp)
    exact ⟨Keyed.lookup_pop_none hnone hne, hsent⟩
  | buffer e hl =>
    refine Keyed.Within.push h ⟨hl, ?_⟩
    rintro m hm
    have hm : m ∈ ctx.world.octx.eventsTx := hm
    rw [hd.events] at hm
    cases hm
  | _ => exact h

/-- What is filed under a name was asked for or raised under it, and not both. -/
structure OrchestrationExecutorContext.Filed (env : Env) (history : List HistoryEvent)
    (ctx : OrchestrationExecutorContext) : Prop where
  apart : ctx.Apart
  lowercased : ctx.world.Lowercased env
  raised : ctx.world.Raised env history

theorem Moves.filed (hm : Moves env ctx ctx') (h : ctx.Filed env history) :
    ctx'.Filed env history :=
  hm.preserves
    (fun _ _ hm h => ⟨hm.apart h.apart, hm.lowercased h.lowercased, hm.raised h.raised⟩) h

theorem Delivery.filed (hdel : Delivery env ctx e.kind ctx') (hd : ctx.Drained)
    (h : ctx.Filed env history) : ctx'.Filed env (history ++ [e]) :=
  ⟨hdel.apart hd h.apart, h.lowercased.of_origins hdel.origins, hdel.raised h.raised⟩

namespace OrchestrationExecutorFuture

variable {self : OrchestrationExecutorFuture}

theorem processEvent_filed (hr : ctx.Regular) (h : ctx.Filed self.env history)
    (he : self.processEvent ctx e = .ok ctx') : ctx'.Filed self.env (history ++ [e]) := by
  obtain ⟨s, -, ht⟩ | ⟨-, ctx₁, hd, hm⟩ := processEvent_cases hr.incomplete he
  · obtain rfl | ⟨func, w, -, hs, hout⟩ := ht.start_cases
    · exact ⟨h.apart, h.lowercased, h.raised.mono e⟩
    · -- the channels of the new context are empty
      have hfresh : OrchestrationExecutorContext.Apart { ctx with
          world := { ctx.world with octx := .new self.instanceId s.input, notified := false } } :=
        h.apart.of_events rfl rfl rfl
      have hapart := hs.apart hfresh
      have hlower : w.Lowercased self.env := hs.lowercased h.lowercased
      have hraised : w.Raised self.env history := hs.raised h.raised
      obtain ⟨t, -, rfl⟩ | ⟨r, -, rfl⟩ := hout
      · exact ⟨hapart, hlower.of_origins World.dropBefore_origins, hraised.mono e⟩
      · exact ⟨hapart.of_events rfl rfl hr.drained.events,
          hlower.of_origins World.dropFrom_origins, hraised.mono e⟩
  · exact hm.filed (hd.filed hr.drained h)

theorem replay_filed (h : self.replay history = .ok ctx) : ctx.Filed self.env history := by
  refine processEvents_induct (P := fun past ctx => ctx.Filed self.env past) ?_ ?_ h
  · refine ⟨Keyed.within_empty, ?_, Keyed.within_empty⟩
    rintro o ho
    cases ho
  · intro past e ctx₁ ctx₂ hr hf he
    exact (drain_moves self.env ctx₂).filed (processEvent_filed (replay_regular hr) hf he)

end OrchestrationExecutorFuture

theorem Oneshot.poll_ne_emptyQueue (rx : Oneshot) (b : Budget) :
    rx.poll b ≠ .error .emptyQueue := by
  unfold Oneshot.poll
  cases rx <;> by_cases hb : b.exhausted <;> simp [hb]

theorem CompletableTask.poll_ne_emptyQueue (t : CompletableTask) (b : Budget) :
    t.poll b ≠ .error .emptyQueue := by
  rintro h
  unfold CompletableTask.poll at h
  split at h
  · split at h <;> cases h
  · split at h
    · rename_i p hp
      cases h
      exact Oneshot.poll_ne_emptyQueue _ _ hp
    · cases h
    · cases h
    · cases h
    · cases h

theorem World.pollTask_ne_emptyQueue (w : World) (t : TaskRef) :
    w.pollTask t ≠ .error .emptyQueue := by
  rintro h
  unfold World.pollTask at h
  split at h
  · cases h
  · split at h
    · rename_i p hp
      cases h
      unfold Cell.poll at hp
      split at hp
      · cases hp
      · split at hp
        · rename_i p hp'
          cases hp
          exact CompletableTask.poll_ne_emptyQueue _ _ hp'
        · cases hp
        · cases hp
    · cases h

theorem World.awaitSignalEvent_ne_emptyQueue (hq : w.receivedEvents.Filled) (name : String) :
    w.awaitSignalEvent env name ≠ .error .emptyQueue := by
  rintro h
  simp only [World.awaitSignalEvent] at h
  split at h
  · rename_i received hl
    split at h
    · rename_i hnone
      exact hq _ (List.head?_eq_none_iff.mp hnone ▸ hl)
    · cases h
    · cases h
  · cases h

theorem handle_ne_emptyQueue (hq : w.receivedEvents.Filled) (o : Op) :
    handle env o w ≠ .error .emptyQueue := by
  cases o with
  | awaitSignalEvent name => exact World.awaitSignalEvent_ne_emptyQueue hq name
  | poll t => exact World.pollTask_ne_emptyQueue w t
  | _ =>
    rintro h
    cases h

/-- A program never takes from an empty queue. -/
theorem BoxFuture.pollUnpin_ne_emptyQueue (hq : w.receivedEvents.Filled) (fn : BoxFuture) :
    fn.pollUnpin env w ≠ .error .emptyQueue := by
  rintro h
  cases fn with
  | finished => cases h
  | suspended base f =>
    simp only [BoxFuture.pollUnpin] at h
    split at h
    · rename_i p hrun
      cases h
      obtain ⟨o, w', hreach, ho⟩ := Prog.run_error hrun
      have hq' : w'.receivedEvents.Filled := hreach.preserves
        (fun o w r w' hw ho => (handle_step env o w r w' ho).filled hw) hq
      exact handle_ne_emptyQueue hq' o ho
    · cases h
    · cases h

namespace OrchestrationExecutorFuture

variable {self : OrchestrationExecutorFuture}

theorem poll_ne_emptyQueue (h : ctx.Queued) : self.poll ctx ≠ .error .emptyQueue := by
  rintro he
  unfold poll at he
  split at he
  · cases he
  · split at he
    · cases he
    · split at he
      · rename_i p hp
        cases he
        exact BoxFuture.pollUnpin_ne_emptyQueue h.events _ hp
      · cases he
      · cases he

theorem resolveTask_ne_emptyQueue {id : Int} {payload : Option String} {message : String} :
    ctx.resolveTask id payload message ≠ .error .emptyQueue := by
  rintro he
  simp only [OrchestrationExecutorContext.resolveTask] at he
  split at he
  · cases he
  · split at he
    · cases he
    · split at he <;> cases he

theorem start_ne_emptyQueue {s : ExecutionStartedEvent} (h : ctx.Queued) :
    self.start ctx s ≠ .error .emptyQueue := by
  intro he
  simp only [start] at he
  split at he
  · cases he
  · split at he
    · rename_i p hp
      cases he
      exact BoxFuture.pollUnpin_ne_emptyQueue (w := { ctx.world with
        octx := .new self.instanceId s.input }) h.events _ hp
    · cases he
    · cases he

theorem executionCompleted_ne_emptyQueue (h : ctx.Queued) :
    self.executionCompleted ctx ≠ .error .emptyQueue := by
  intro he
  simp only [executionCompleted] at he
  split at he
  · cases he
  · split at he
    · rename_i p hp
      cases he
      exact BoxFuture.pollUnpin_ne_emptyQueue h.events _ hp
    · cases he

theorem eventRaised_ne_emptyQueue {r : EventRaisedEvent} (h : ctx.Queued) :
    self.eventRaised ctx r ≠ .error .emptyQueue := by
  intro he
  simp only [eventRaised] at he
  split at he
  · rename_i waiters hl
    split at he
    · rename_i hnone
      exact h.waiters _ (List.head?_eq_none_iff.mp hnone ▸ hl)
    · split at he
      · cases he
      · rename_i w hs
        obtain ⟨c, -, -, rfl⟩ := World.send_ok hs
        refine poll_ne_emptyQueue ?_ he
        exact ⟨h.waiters.pop, h.events⟩
  · cases he

theorem processEvent_ne_emptyQueue (h : ctx.Queued) :
    self.processEvent ctx e ≠ .error .emptyQueue := by
  rw [processEvent_eq]
  intro he
  generalize e.kind = k at he
  cases k with
  | start s => exact start_ne_emptyQueue h he
  | complete => exact executionCompleted_ne_emptyQueue h he
  | resolve id payload message polls =>
    cases polls with
    | false => exact resolveTask_ne_emptyQueue he
    | true =>
      simp only [processKind, resolveAndPoll] at he
      split at he
      · rename_i p hp
        cases he
        exact resolveTask_ne_emptyQueue hp
      · rename_i ctx₁ hr
        exact poll_ne_emptyQueue ((resolveTask_delivery self true hr).queued h) he
  | raise r => exact eventRaised_ne_emptyQueue h he
  | _ => cases he

end OrchestrationExecutorFuture

/-- The queues of a state between two events: none is empty, each is filed under the lower-case
form of a name that was awaited or raised, and no name has both waiters and events. -/
structure OrchestrationExecutorContext.WellQueued (env : Env) (history : List HistoryEvent)
    (ctx : OrchestrationExecutorContext) : Prop where
  waiters_ne_nil : ∀ key, ctx.pendingEvents.lookup key ≠ some []
  events_ne_nil : ∀ key, ctx.world.receivedEvents.lookup key ≠ some []
  awaited : ∀ key ∈ ctx.pendingEvents, ∃ (name : String) (t : TaskRef) (c : Cell),
    key = env.toLowercase name ∧ ctx.world.cells[t]? = some c ∧ c.origin = .signal key
  raised : ∀ key ∈ ctx.world.receivedEvents, ∃ e ∈ history, ∃ r, e.kind = .raise r ∧
    key = env.toLowercase r.name
  disjoint : ∀ key ∈ ctx.pendingEvents, key ∉ ctx.world.receivedEvents

theorem exists_lookup {K α : Type} [DecidableEq K] {qs : Keyed K α} {k : K} (h : k ∈ qs) :
    ∃ q, qs.lookup k = some q :=
  Option.isSome_iff_exists.mp (AList.lookup_isSome.mpr h)

/-- Queues that are filled and filed, and whose senders belong to tasks, are well formed. -/
theorem OrchestrationExecutorContext.Filed.wellQueued (h : ctx.Filed env history)
    (hr : ctx.Regular) (hq : ctx.Queued) : ctx.WellQueued env history := by
  refine ⟨hq.waiters, hq.events, ?_, ?_, ?_⟩
  · rintro key hkey
    obtain ⟨waiters, hl⟩ := exists_lookup hkey
    cases waiters with
    | nil => exact absurd hl (hq.waiters key)
    | cons t waiters =>
      obtain ⟨c, hc, ho, -⟩ := hr.linked.waiter (mem_waiters_of_lookup hr.drained hl)
      obtain ⟨name, hname⟩ := h.lowercased _ (List.mem_map_of_mem (List.mem_of_getElem? hc)) _ ho
      exact ⟨name, t, c, hname, hc, ho⟩
  · rintro key hkey
    obtain ⟨events, hl⟩ := exists_lookup hkey
    exact h.raised key events hl
  · rintro key hkey hkey'
    obtain ⟨waiters, hl⟩ := exists_lookup hkey
    obtain ⟨events, hl'⟩ := exists_lookup hkey'
    have hnone := (h.apart key events hl').1
    rw [hl] at hnone
    cases hnone

namespace OrchestrationExecutorFuture

variable {self : OrchestrationExecutorFuture}

/-- Between two events the queues are well formed, and no event meets an empty one. -/
theorem replay_wellQueued (self : OrchestrationExecutorFuture) (history : List HistoryEvent) :
    (∀ ctx, self.replay history = .ok ctx → ctx.WellQueued self.env history) ∧
      self.replay history ≠ .error .emptyQueue := by
  constructor
  · rintro ctx h
    exact (replay_filed h).wellQueued (replay_regular h) (replay_queued h)
  · rintro h
    obtain ⟨past, e, later, ctx, rfl, hpast, he⟩ := processEvents_error_split h
    exact processEvent_ne_emptyQueue (replay_queued hpast) he

end OrchestrationExecutorFuture

end DurableTask
