import DurableTask.Executor.Agreement
import DurableTask.Executor.Standing
import DurableTask.Runtime.Idle
import DurableTask.Runtime.Orchestrators

/-! # Determinism

The executor reads two things that are not among its arguments: a timer is
created at a time off the system clock, and the actions are returned in the
order of a hash map. Everything else of a replay is a function of its arguments,
so what is returned depends on the environment exactly if one of the two shows.
-/

namespace DurableTask

open Interaction OrchestrationExecutorContext

theorem Timestamp.ofNanos_injective : Function.Injective Timestamp.ofNanos := by
  intro s t h
  obtain ⟨hdiv, hmod⟩ := Timestamp.mk.inj h
  rw [← Nat.div_add_mod s 1000000000, ← Nat.div_add_mod t 1000000000, hdiv, hmod]

def OrchestratorAction.isTimer (a : OrchestratorAction) : Bool :=
  match a.orchestratorActionType with
  | some (.createTimer _) => true
  | _ => false

theorem OrchestratorAction.timeless_isTimer (a : OrchestratorAction) :
    a.timeless.isTimer = a.isTimer := by
  obtain ⟨id, _ | _ | _ | _ | _⟩ := a <;> rfl

theorem OrchestratorAction.timeless_of_not_isTimer {a : OrchestratorAction}
    (h : a.isTimer = false) : a.timeless = a := by
  obtain ⟨id, _ | _ | _ | _ | _⟩ := a
  all_goals first | rfl | cases h

/-- Every timer that was issued fires at a time that is counted from a reading of the clock. -/
def World.Timed (env : Env) (w : World) : Prop :=
  ∀ a ∈ w.issued, a.isTimer = true →
    ∃ k n, a = newCreateTimerAction a.id (.ofNanos (env.now k + n))

section Timed

variable {env : Env} {w w' : World}

theorem World.Timed.of_issued (h : w.Timed env) (hi : w'.issued = w.issued) : w'.Timed env := by
  unfold World.Timed
  rwa [hi]

theorem World.Timed.append (h : w.Timed env) {c : Cell} (hcells : w'.cells = w.cells ++ [c])
    (hc : ∀ a, c.origin = .action a → a.isTimer = true →
      ∃ k n, a = newCreateTimerAction a.id (.ofNanos (env.now k + n))) : w'.Timed env := by
  intro a ha ht
  rw [World.issued, hcells, List.filterMap_append, List.mem_append] at ha
  rcases ha with ha | ha
  · exact h a ha ht
  · cases ho : c.origin with
    | action b =>
      obtain rfl : a = b := by simpa [ho, Origin.action?] using ha
      exact hc a ho ht
    | signal name => simp [ho, Origin.action?] at ha

theorem handle_timed (o : Op) (r : o.Reply) (ht : w.Timed env)
    (h : handle env o w = .ok (r, w')) : w'.Timed env := by
  have hcells := fun (t : TaskRef) (c : Cell) (hc : w.cells[t]? = some c) =>
    ((handle_step env o w r w' h).cells hc).imp fun _ h => h.imp_right Cell.Evolves.origin
  cases o with
  | createTimer millis =>
    cases h
    apply ht.append rfl
    rintro a ha -
    cases ha
    exact ⟨w.clockReads, millis * 1000000, rfl⟩
  | scheduleActivity name input =>
    cases h
    apply ht.append rfl
    rintro a ha hid
    cases ha
    cases hid
  | scheduleSubOrchestrator name instanceId input =>
    cases h
    apply ht.append rfl
    rintro a ha hid
    cases ha
    cases hid
  | awaitSignalEvent name =>
    have hs : w.awaitSignalEvent env name = .ok (r, w') := h
    simp only [World.awaitSignalEvent] at hs
    cases hl : w.receivedEvents.lookup (env.toLowercase name) with
    | none =>
      rw [hl] at hs
      cases hs
      apply ht.append rfl
      intro a ha
      cases ha
    | some received =>
      rw [hl] at hs
      rcases received with _ | ⟨_ | payload, received⟩ <;> cases hs
      apply ht.append rfl
      intro a ha
      cases ha
  | poll t =>
    have hp : w.pollTask t = .ok (r, w') := h
    obtain ⟨c, c', b, hc, -, rfl⟩ := World.pollTask_ok hp
    exact ht.of_issued (World.issued_of_origin (by simp) hcells)
  | drop t =>
    cases h
    exact ht.of_issued (World.issued_of_origin (by simp [World.dropTask]) hcells)
  | panic message => cases h

theorem Activation.run_timed {a : Activation} {p : Progress a.1.State (OrchestratorResult String)}
    (ht : a.2.Timed env) (h : a.run env = .ok (p, w)) : w.Timed env :=
  Prog.run_preserves (h := handle env) (I := World.Timed env)
    (fun o _ r _ ht ho => handle_timed o r ht ho) ht h

end Timed

namespace OrchestrationExecutorFuture

variable {self : OrchestrationExecutorFuture} {ctx ctx' : OrchestrationExecutorContext}
  {k : EventKind} {history : List HistoryEvent}

theorem Turn.timed (h : self.Turn ctx k ctx') (ht : ctx.world.Timed self.env) :
    ctx'.world.Timed self.env := by
  cases h with
  | rest hd ha hk => exact ht.of_issued hd.books.2.2.2.2.1
  | terminate => exact ht.of_issued (congrArg World.issued (executionTerminated_frame ctx).2)
  | suspend hd hfn ha hrun =>
    have hd' := ht.of_issued hd.books.2.2.2.2.1
    exact Activation.run_timed hd' hrun
  | report hk hd hfn ha hrun =>
    have hd' := ht.of_issued hd.books.2.2.2.2.1
    exact (Activation.run_timed hd' hrun).of_issued World.issued_dropFrom
  | discard hfn hrun =>
    exact (Activation.run_timed ht hrun).of_issued World.issued_dropFrom
  | begin hr hrun =>
    exact (Activation.run_timed ht hrun).of_issued World.issued_dropBefore
  | forget hr hrun =>
    exact (Activation.run_timed ht hrun).of_issued World.issued_dropFrom
  | _ => exact ht

theorem replay_timed (h : self.replay history = .ok ctx) : ctx.world.Timed self.env := by
  refine processEvents_induct (P := fun _ ctx => ctx.world.Timed self.env) ?_ ?_ h
  · intro a ha
    cases ha
  · intro past e ctx₁ ctx₂ hr ht he
    exact ((processEvent_turn (replay_isComplete hr) he).timed ht).of_issued drain_issued

theorem replay_issued (h : self.replay history = .ok ctx) {id : Int} {a : OrchestratorAction}
    (hl : ctx.pendingActions.lookup id = some a) (ha : a.isComplete = false) :
    a ∈ ctx.world.issued := by
  revert hl
  refine processEvents_induct (P := fun _ ctx => ctx.pendingActions.lookup id = some a →
    a ∈ ctx.world.issued) ?_ ?_ h
  · intro hl
    cases hl
  · intro past e ctx₁ ctx₂ hr ih he hl
    obtain ⟨n, l, lost, hb⟩ := processEvent_entries (replay_drained hr) (replay_isComplete hr) he
    rw [hb.issued, List.append_assoc, List.mem_append, List.mem_append]
    rcases hb.entered hl with hm | ⟨hm, -⟩ | hl
    · rcases self.ownEntry_cases ctx₁ e.kind with ho | ⟨b, -, hb, ho⟩
      · rw [ho] at hm
        cases hm
      · rw [ho, List.mem_singleton] at hm
        cases hm
        rw [hb] at ha
        cases ha
    · exact .inr (.inl hm)
    · exact .inl (ih hl)

def sortedBy (env : Env) (le : OrchestratorAction → OrchestratorAction → Bool) : Env :=
  { env with hashOrder := fun l => l.mergeSort le, hashOrder_perm := fun l => l.mergeSort_perm le }

def stoppedAt (env : Env) (nanos : ℕ) : Env := { env with now := fun _ => nanos }

/-- What `execute` returns does not depend on the clock and on the order of hash maps. -/
def Deterministic (executor : OrchestrationExecutorFuture)
    (oldEvents newEvents : List HistoryEvent) : Prop :=
  ∀ env', executor.env.Alike env' →
    (executor.under env').execute oldEvents newEvents = executor.execute oldEvents newEvents

/--
Of the actions that the events of the history enter, all but those under one id are cleared by later
events, and so is every one that creates a timer.
-/
structure Unambiguous (executor : OrchestrationExecutorFuture) (history : List HistoryEvent) :
    Prop where
  single : ∀ id a id' a', executor.Stands history id a → executor.Stands history id' a' → id = id'
  untimed : ∀ id a, executor.Stands history id a → a.isTimer = false

variable {oldEvents newEvents : List HistoryEvent} {actions : List OrchestratorAction}

theorem execute_of_replay (h : self.replay (oldEvents ++ newEvents) = .ok ctx) :
    self.execute oldEvents newEvents = .ok (ctx.getActions self.env) := by
  rw [execute_eq, h]
  rfl

theorem length_getActions (ctx : OrchestrationExecutorContext) (env : Env) :
    (ctx.getActions env).length = ctx.pendingActions.entries.length := by
  rw [getActions, (env.hashOrder_perm _).length_eq, List.length_map]

theorem execute_sortedBy {le : OrchestratorAction → OrchestratorAction → Bool}
    (trans : ∀ a b c, le a b → le b c → le a c) (total : ∀ a b, le a b || le b a)
    (h : (self.under (sortedBy self.env le)).execute oldEvents newEvents = .ok actions) :
    actions.Pairwise fun a b => le a b := by
  obtain ⟨ctx, -, rfl⟩ := execute_ok h
  exact List.pairwise_mergeSort trans total _

theorem Deterministic.length_le_one (hdet : Deterministic self oldEvents newEvents)
    (h : self.execute oldEvents newEvents = .ok actions) : actions.length ≤ 1 := by
  have hle := hdet (sortedBy self.env fun a b => decide (a.id ≤ b.id)) ⟨rfl, rfl⟩
  have hge := hdet (sortedBy self.env fun a b => decide (b.id ≤ a.id)) ⟨rfl, rfl⟩
  replace hle := execute_sortedBy (by simp; omega) (by simp; omega) (hle.trans h)
  replace hge := execute_sortedBy (by simp; omega) (by simp; omega) (hge.trans h)
  obtain ⟨ctx, hr, rfl⟩ := execute_ok h
  have hids := getActions_ids_nodup self.env hr
  generalize ctx.getActions self.env = l at hle hge hids
  rcases l with _ | ⟨a, _ | ⟨b, l⟩⟩
  · exact Nat.zero_le 1
  · exact le_rfl
  · have hab : a.id ≤ b.id := by simpa using List.rel_of_pairwise_cons hle List.mem_cons_self
    have hba : b.id ≤ a.id := by simpa using List.rel_of_pairwise_cons hge List.mem_cons_self
    have hne : a.id ≠ b.id := by
      intro hid
      simp [hid] at hids
    omega

/-- A timer that is pending fires at another time if the clock stood at another time. -/
theorem Deterministic.not_timer (hdet : Deterministic self oldEvents newEvents)
    (h : self.replay (oldEvents ++ newEvents) = .ok ctx) {id : Int} {a : OrchestratorAction}
    (hl : ctx.pendingActions.lookup id = some a) : a.isTimer = false := by
  by_contra ht
  rw [Bool.not_eq_false] at ht
  have hc : a.isComplete = false := by
    obtain ⟨id, _ | _ | _ | _ | _⟩ := a <;> first | rfl | cases ht
  obtain ⟨k, n, ha⟩ := replay_timed h a (replay_issued h hl hc) ht
  have hsame := hdet (stoppedAt self.env (self.env.now k + n + 1)) ⟨rfl, rfl⟩
  rw [execute_of_replay h] at hsame
  obtain ⟨ctx', hr', hactions⟩ := execute_ok hsame
  have hmem : a ∈ ctx'.getActions (stoppedAt self.env (self.env.now k + n + 1)) :=
    hactions ▸ mem_getActions.mpr ⟨id, hl⟩
  obtain ⟨id', hl'⟩ := mem_getActions.mp hmem
  obtain ⟨k', n', ha'⟩ := replay_timed hr' a (replay_issued hr' hl' hc) ht
  have hfire := ha.symm.trans ha'
  simp only [newCreateTimerAction, OrchestratorAction.mk.injEq, true_and, Option.some.injEq,
    OrchestratorActionType.createTimer.injEq, CreateTimerAction.mk.injEq] at hfire
  have hnanos := Timestamp.ofNanos_injective hfire
  have hnow : ((self.under (stoppedAt self.env (self.env.now k + n + 1))).env.now k') =
    self.env.now k + n + 1 := rfl
  omega

theorem eq_of_perm_of_length_le_one {l l' : List OrchestratorAction} (h : l.Perm l')
    (hl : l'.length ≤ 1) : l = l' := by
  rcases l' with _ | ⟨a, _ | ⟨b, l'⟩⟩
  · exact List.perm_nil.mp h
  · exact List.perm_singleton.mp h
  · simp at hl

theorem map_timeless_of_not_isTimer {l : List OrchestratorAction}
    (h : ∀ a ∈ l, a.isTimer = false) : l.map OrchestratorAction.timeless = l := by
  conv_rhs => rw [← List.map_id l]
  exact List.map_congr_left fun a ha => OrchestratorAction.timeless_of_not_isTimer (h a ha)

theorem Unambiguous.length_le_one (hs : Unambiguous self history)
    (h : self.replay history = .ok ctx) :
    ctx.pendingActions.entries.length ≤ 1 := by
  by_contra! hlen
  have hnodup := List.nodup_iff_getElem?_ne_getElem?.mp ctx.pendingActions.nodupKeys 0 1
    Nat.zero_lt_one (by simpa [List.keys] using hlen)
  have stands (k : ℕ) (hk : k < ctx.pendingActions.entries.length) :
      self.Stands history ctx.pendingActions.entries[k].1 ctx.pendingActions.entries[k].2 :=
    (replay_stands h).mp (AList.mem_lookup_iff.mpr (List.getElem_mem hk))
  have heq := hs.single _ _ _ _ (stands 0 (by omega)) (stands 1 hlen)
  exact hnodup (by simpa [List.keys, List.getElem?_eq_getElem hlen,
    List.getElem?_eq_getElem (Nat.zero_lt_of_lt hlen)] using heq)

theorem deterministic_of_unambiguous (h : self.replay (oldEvents ++ newEvents) = .ok ctx)
    (hs : Unambiguous self (oldEvents ++ newEvents)) : Deterministic self oldEvents newEvents := by
  intro env' henv
  have htwin := replay_twin henv (oldEvents ++ newEvents)
  obtain ⟨ctx', hr', htwin⟩ := htwin.exists_ok h
  rw [execute_of_replay h, execute_of_replay hr']
  have hperm := htwin.getActions_perm self.env env'
  have htimers : ∀ a ∈ ctx.getActions self.env, a.isTimer = false := by
    intro a ha
    obtain ⟨id, hl⟩ := mem_getActions.mp ha
    exact hs.untimed id a ((replay_stands h).mp hl)
  have htimers' : ∀ a ∈ ctx'.getActions env', a.isTimer = false := by
    intro a ha
    have hm := hperm.mem_iff.mpr (List.mem_map_of_mem ha)
    rw [map_timeless_of_not_isTimer htimers] at hm
    rw [← a.timeless_isTimer]
    exact htimers _ hm
  rw [map_timeless_of_not_isTimer htimers, map_timeless_of_not_isTimer htimers'] at hperm
  congr 1
  apply eq_of_perm_of_length_le_one hperm.symm
  rw [length_getActions]
  exact hs.length_le_one h

theorem Deterministic.unambiguous (hdet : Deterministic self oldEvents newEvents)
    (h : self.replay (oldEvents ++ newEvents) = .ok ctx) :
    Unambiguous self (oldEvents ++ newEvents) := by
  have hlen := hdet.length_le_one (execute_of_replay h)
  rw [length_getActions] at hlen
  constructor
  · intro id a id' a' hs hs'
    have hm := AList.mem_lookup_iff.mp ((replay_stands h).mpr hs)
    have hm' := AList.mem_lookup_iff.mp ((replay_stands h).mpr hs')
    generalize ctx.pendingActions.entries = l at hlen hm hm'
    rcases l with _ | ⟨m, _ | ⟨m', l⟩⟩
    · cases hm
    · rw [List.mem_singleton] at hm hm'
      exact congrArg Sigma.fst (hm.trans hm'.symm)
    · simp at hlen
  · exact fun id a hs => hdet.not_timer h ((replay_stands h).mpr hs)

/--
Exactly if the history panics, or its later events clear every timer and all actions that were
entered but those under one id, `execute` returns the same in every environment.
-/
theorem deterministic_iff (executor : OrchestrationExecutorFuture)
    (oldEvents newEvents : List HistoryEvent) :
    Deterministic executor oldEvents newEvents ↔
      (∃ p, executor.replay (oldEvents ++ newEvents) = .error p) ∨
        Unambiguous executor (oldEvents ++ newEvents) := by
  constructor
  · intro hdet
    cases hr : executor.replay (oldEvents ++ newEvents) with
    | ok ctx => exact .inr (hdet.unambiguous hr)
    | error p => exact .inl ⟨p, rfl⟩
  · intro hs
    cases hr : executor.replay (oldEvents ++ newEvents) with
    | ok ctx =>
      refine deterministic_of_unambiguous hr (hs.resolve_left ?_)
      rintro ⟨p, hp⟩
      cases hr.symm.trans hp
    | error p =>
      intro env' henv
      have htwin := replay_twin henv (oldEvents ++ newEvents)
      rw [hr] at htwin
      rw [execute_eq, execute_eq, hr]
      cases hr' : (executor.under env').replay (oldEvents ++ newEvents) with
      | ok ctx' =>
        rw [hr'] at htwin
        cases htwin
      | error p' =>
        rw [hr'] at htwin
        cases htwin
        rfl

/-- One timer shows the clock, two activities show the order of the hash map. -/
theorem not_deterministic :
    ¬Deterministic (executorOf sequenceOrchestration) [] [executionStarted] ∧
      ¬Deterministic (executorOf parallelOrchestration) [] [executionStarted] := by
  constructor
  · intro hdet
    have hsame := hdet (stoppedAt plainEnv 5) ⟨rfl, rfl⟩
    revert hsame
    decide
  · intro hdet
    have hsame := hdet { plainEnv with
      hashOrder := List.reverse, hashOrder_perm := List.reverse_perm } ⟨rfl, rfl⟩
    revert hsame
    decide

end OrchestrationExecutorFuture

end DurableTask
