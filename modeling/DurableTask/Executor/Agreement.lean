import DurableTask.Executor.Clocks
import DurableTask.Executor.Ledger

/-! # The books of two replays

Two replays of one history under different clocks keep the same books up to the
times of timers: the program issues the same actions, the executor enters the
same completions under the same ids, and the same actions stay pending.
-/

namespace DurableTask

open Interaction Queues OrchestrationExecutorContext

theorem Env.Alike.refl (env : Env) : env.Alike env := ⟨rfl, rfl⟩

@[simp] theorem OrchestratorAction.timeless_id (a : OrchestratorAction) : a.timeless.id = a.id := by
  unfold timeless
  split <;> rfl

theorem World.Alike.issued {w w' : World} (h : w.Alike w') :
    w'.issued.map OrchestratorAction.timeless = w.issued.map OrchestratorAction.timeless := by
  have hissued (w : World) : w.issued.map OrchestratorAction.timeless =
      (w.cells.map Cell.timeless).filterMap (·.origin.action?) := by
    rw [World.issued, List.map_filterMap, List.filterMap_map]
    congr 1
    funext c
    cases ho : c.origin <;> simp [Cell.timeless, Origin.timeless, Origin.action?, ho]
  rw [hissued, hissued, h.cells]

/-- The same program, or none, in worlds that are alike. -/
inductive SameActivation : Option Activation → Option Activation → Prop where
  | none : SameActivation none none
  | some (f : TaskFuture (OrchestratorResult String)) {w w' : World} (h : w.Alike w') :
    SameActivation (some (f, w)) (some (f, w'))

theorem Activation.returns_agree {env env' : Env} {w w' : World} (henv : env.Alike env')
    (f : TaskFuture (OrchestratorResult String)) (h : w.Alike w') :
    Activation.returns env' (f, w') = Activation.returns env (f, w) := by
  have hrun := h.run henv (f.poll f.state)
  simp only [Activation.returns, Activation.run]
  generalize Prog.run (handle env) (f.poll f.state) w = x at hrun ⊢
  generalize Prog.run (handle env') (f.poll f.state) w' = y at hrun ⊢
  cases hrun with
  | error e => rfl
  | @ok p q hpq =>
    obtain ⟨r, w₁⟩ := p
    obtain ⟨r', w₁'⟩ := q
    obtain ⟨rfl, -⟩ := hpq
    cases r <;> rfl

theorem OrchestrationExecutorContext.Alike.program {ctx ctx' : OrchestrationExecutorContext}
    (h : Alike ctx ctx') : SameActivation ctx.program ctx'.program := by
  unfold OrchestrationExecutorContext.program
  rw [h.orchestratorFn]
  rcases ctx.orchestratorFn with _ | ⟨base, f⟩ | _
  · exact .none
  · exact .some f ⟨h.world.sequenceNumber, h.world.tasksTx, h.world.eventsTx,
      h.world.receivedEvents, h.world.cells, h.world.budget⟩
  · exact .none

namespace OrchestrationExecutorFuture

variable {self : OrchestrationExecutorFuture} {env : Env}
  {ctx ctx' ctx₁ ctx₁' : OrchestrationExecutorContext} {k : EventKind}

theorem activation_agree (henv : self.env.Alike env) (h : Alike ctx ctx') (k : EventKind) :
    SameActivation (self.activation ctx k) ((self.under env).activation ctx' k) := by
  cases k with
  | start e =>
    simp only [activation, under]
    cases self.registry.getOrchestrator e.name with
    | none => exact .none
    | some func =>
      have hw : { ctx.world with octx := .new self.instanceId e.input, notified := false }.Alike
          { ctx'.world with octx := .new self.instanceId e.input, notified := false } :=
        ⟨rfl, rfl, rfl, h.world.receivedEvents, h.world.cells, h.world.budget⟩
      rw [Option.map_some, Option.map_some]
      exact .some (func.call self.instanceId e.input) hw
  | complete => exact h.program
  | resolve id payload message polls =>
    cases polls with
    | false => exact .none
    | true =>
      have hres := h.resolveTask id payload message
      simp only [activation]
      generalize ctx.resolveTask id payload message = x at hres ⊢
      generalize ctx'.resolveTask id payload message = y at hres ⊢
      cases hres with
      | ok h₁ => exact h₁.program
      | error e => exact .none
  | raise e =>
    have hname : (self.under env).env.toLowercase = self.env.toLowercase := henv.toLowercase
    simp only [activation]
    rw [hname, h.pendingEvents]
    rcases ctx.pendingEvents.lookup (self.env.toLowercase e.name) with _ | _ | ⟨t, waiters⟩
    · exact .none
    · exact .none
    · dsimp only
      obtain ⟨hs, hs'⟩ | ⟨w, w', hs, hs', hw⟩ := h.world.send t e.input
      · rw [hs, hs']
        exact .none
      · rw [hs, hs']
        exact Alike.program
          ⟨h.isComplete, h.pendingTasks, rfl, h.orchestratorFn, hw⟩
  | _ => exact .none

theorem returns_agree (henv : self.env.Alike env) (h : Alike ctx ctx') (k : EventKind) :
    (self.under env).returns ctx' k = self.returns ctx k := by
  have hact := activation_agree henv h k
  unfold returns
  generalize self.activation ctx k = x at hact ⊢
  generalize (self.under env).activation ctx' k = y at hact ⊢
  cases hact with
  | none => rw [Option.bind_none, Option.bind_none]
  | some f hw =>
    rw [Option.bind_some, Option.bind_some]
    exact Activation.returns_agree henv f hw

theorem ownEntry_agree (henv : self.env.Alike env) (h : Alike ctx ctx')
    (hseq : ctx'.sequenceNumber = ctx.sequenceNumber) (k : EventKind) :
    (self.under env).ownEntry ctx' k = self.ownEntry ctx k := by
  have hret := returns_agree henv h k
  unfold ownEntry
  cases k <;> simp only [hseq, hret]

/-- A program that returns from its first poll enters nothing. -/
theorem Turn.start_returns {n : Int} {l lost : List OrchestratorAction}
    (ht : self.Turn ctx k ctx') (hd : ctx.Drained)
    (hb : self.Entries ctx k ctx'.drain n l lost) (hk : k.isStart = true)
    (hret : (self.returns ctx k).isSome = true) : l = [] := by
  cases k with
  | start e =>
    obtain rfl | ⟨func, w, hr, -, ⟨s, hrun, rfl⟩ | ⟨r, hrun, rfl⟩⟩ := ht.start_cases
    · have hi := hb.inserted
      rw [drain_of_drained hd] at hi
      simpa [ownEntry] using hi
    · simp [returns, activation, hr, Activation.returns_suspended hrun] at hret
    · have hi := hb.inserted
      rw [drain_of_drained (by exact hd.of_octx rfl)] at hi
      simpa [ownEntry] using hi
  | _ => cases hk

end OrchestrationExecutorFuture

namespace OrchestrationExecutorContext

/-- Between two events of two replays: the same books, up to the times of timers. -/
structure Twin (ctx ctx' : OrchestrationExecutorContext) : Prop extends Alike ctx ctx' where
  sequenceNumber : ctx'.sequenceNumber = ctx.sequenceNumber
  pendingActions : ∀ id, (ctx'.pendingActions.lookup id).map OrchestratorAction.timeless =
    (ctx.pendingActions.lookup id).map OrchestratorAction.timeless
  drained : ctx.Drained
  drained' : ctx'.Drained
  incomplete : ctx.isComplete = false

def timelessEntry (m : Int × OrchestratorAction) : Int × OrchestratorAction := (m.1, m.2.timeless)

theorem insertAll_agree {l l' : List (Int × OrchestratorAction)}
    {actions actions' : AList fun _ : Int => OrchestratorAction}
    (hl : l'.map timelessEntry = l.map timelessEntry)
    (ha : ∀ id, (actions'.lookup id).map OrchestratorAction.timeless =
      (actions.lookup id).map OrchestratorAction.timeless) (id : Int) :
    ((insertAll l' actions').lookup id).map OrchestratorAction.timeless =
      ((insertAll l actions).lookup id).map OrchestratorAction.timeless := by
  induction l generalizing l' actions actions' with
  | nil =>
    obtain rfl := List.map_eq_nil_iff.mp hl
    exact ha id
  | cons m l ih =>
    obtain ⟨m', l'', rfl, hm, hl⟩ := List.map_eq_cons_iff.mp hl
    simp only [timelessEntry, Prod.mk.injEq] at hm
    rw [insertAll_cons, insertAll_cons]
    apply ih hl
    intro id'
    by_cases hid : id' = m.1
    · subst hid
      rw [← hm.1, AList.lookup_insert, hm.1, AList.lookup_insert, Option.map_some, Option.map_some,
        hm.2]
    · rw [AList.lookup_insert_ne (hm.1 ▸ hid), AList.lookup_insert_ne hid, ha id']

theorem counterAfter_agree {l l' : List (Int × OrchestratorAction)} (n : Int)
    (hl : l'.map timelessEntry = l.map timelessEntry) : counterAfter l' n = counterAfter l n := by
  induction l generalizing l' n with
  | nil => rw [List.map_eq_nil_iff.mp hl]
  | cons m l ih =>
    obtain ⟨m', l'', rfl, hm, hl⟩ := List.map_eq_cons_iff.mp hl
    have hid := congrArg Prod.fst hm
    dsimp only [timelessEntry] at hid
    simp only [counterAfter, List.foldl_cons, hid]
    exact ih _ hl

theorem acked_agree {actions actions' : AList fun _ : Int => OrchestratorAction} (k : EventKind)
    (ha : ∀ id, (actions'.lookup id).map OrchestratorAction.timeless =
      (actions.lookup id).map OrchestratorAction.timeless) (id : Int) :
    ((k.acked actions').lookup id).map OrchestratorAction.timeless =
      ((k.acked actions).lookup id).map OrchestratorAction.timeless := by
  by_cases hk : k = .acknowledge id
  · simp [hk, EventKind.acked]
  · rw [EventKind.lookup_acked hk, EventKind.lookup_acked hk, ha id]

def timelessEntries (ctx : OrchestrationExecutorContext) : List (Σ _ : Int, OrchestratorAction) :=
  ctx.pendingActions.entries.map (Sigma.map id fun _ => OrchestratorAction.timeless)

theorem map_getActions_perm (ctx : OrchestrationExecutorContext) (env : Env) :
    ((ctx.getActions env).map OrchestratorAction.timeless).Perm
      (ctx.timelessEntries.map Sigma.snd) := by
  refine ((env.hashOrder_perm _).map _).trans ?_
  rw [timelessEntries, List.map_map, List.map_map]
  rfl

theorem Twin.getActions_perm {ctx ctx' : OrchestrationExecutorContext} (h : Twin ctx ctx')
    (env env' : Env) : ((ctx.getActions env).map OrchestratorAction.timeless).Perm
      ((ctx'.getActions env').map OrchestratorAction.timeless) := by
  have hperm : ctx.timelessEntries.Perm ctx'.timelessEntries := by
    refine List.lookup_ext (ctx.pendingActions.nodupKeys.map₂ _ _)
      (ctx'.pendingActions.nodupKeys.map₂ _ _) fun x y => ?_
    have hx := h.pendingActions x
    simp only [AList.lookup] at hx
    rw [timelessEntries, timelessEntries, List.dlookup_map₂, List.dlookup_map₂, hx]
  exact (ctx.map_getActions_perm env).trans
    ((hperm.map Sigma.snd).trans (ctx'.map_getActions_perm env').symm)

end OrchestrationExecutorContext

namespace OrchestrationExecutorFuture

variable {self : OrchestrationExecutorFuture} {env : Env}
  {ctx ctx' ctx₁ ctx₁' : OrchestrationExecutorContext} {k : EventKind} {e : HistoryEvent}

/-- The program issues the same actions on both sides, up to the times of timers. -/
theorem issued_agree {n n' : Int} {l l' lost lost' : List OrchestratorAction}
    (henv : self.env.Alike env) (h : Twin ctx ctx')
    (ht : self.Turn ctx k ctx₁) (ht' : (self.under env).Turn ctx' k ctx₁')
    (hw : ctx₁.drain.world.Alike ctx₁'.drain.world)
    (hb : self.Entries ctx k ctx₁.drain n l lost)
    (hb' : (self.under env).Entries ctx' k ctx₁'.drain n' l' lost') :
    l'.map OrchestratorAction.timeless = l.map OrchestratorAction.timeless := by
  have hret := returns_agree henv h.toAlike k
  by_cases hs : k.isStart = true ∧ (self.returns ctx k).isSome = true
  · rw [ht.start_returns h.drained hb hs.1 hs.2,
      ht'.start_returns h.drained' hb' hs.1 (hret ▸ hs.2)]
  · have hlost : lost = [] := by
      by_contra hne
      obtain ⟨hk, -, hsome⟩ := hb.lost_of hne
      exact hs ⟨hk, hsome⟩
    have hlost' : lost' = [] := by
      by_contra hne
      obtain ⟨hk, -, hsome⟩ := hb'.lost_of hne
      exact hs ⟨hk, hret ▸ hsome⟩
    have hissued := hw.issued
    rw [hb.issued, hb'.issued, hlost, hlost', List.append_nil, List.append_nil, List.map_append,
      List.map_append, h.world.issued] at hissued
    exact List.append_cancel_left hissued

/-- One event keeps twins, or fails alike for both. -/
theorem processEvent_twin (henv : self.env.Alike env) (h : Twin ctx ctx') (e : HistoryEvent) :
    Agree (fun c c' => Twin c.drain c'.drain) (self.processEvent ctx e)
      ((self.under env).processEvent ctx' e) := by
  have hagree := processEvent_agree henv h.toAlike e
  have hc' : ctx'.isComplete = false := h.isComplete.trans h.incomplete
  cases he : self.processEvent ctx e with
  | error p =>
    rw [he] at hagree
    cases he' : (self.under env).processEvent ctx' e with
    | error p' =>
      rw [he'] at hagree
      cases hagree
      exact .error p
    | ok ctx₁' =>
      rw [he'] at hagree
      cases hagree
  | ok ctx₁ =>
    obtain ⟨ctx₁', he', halike⟩ := hagree.exists_ok he
    rw [he']
    have ht := processEvent_turn h.incomplete he
    have ht' := processEvent_turn hc' he'
    obtain ⟨n, l, lost, hb⟩ := processEvent_entries h.drained h.incomplete he
    obtain ⟨n', l', lost', hb'⟩ := processEvent_entries h.drained' hc' he'
    have hl := issued_agree henv h ht ht' halike.drain.world hb hb'
    have hown := ownEntry_agree henv h.toAlike h.sequenceNumber e.kind
    have hentry : (l'.map OrchestratorAction.entry).map timelessEntry =
        (l.map OrchestratorAction.entry).map timelessEntry := by
      have hcomp : timelessEntry ∘ OrchestratorAction.entry =
          OrchestratorAction.entry ∘ OrchestratorAction.timeless := by
        funext a
        simp [timelessEntry, OrchestratorAction.entry]
      rw [List.map_map, List.map_map, hcomp, ← List.map_map, hl, List.map_map]
    refine .ok ⟨halike.drain, ?_, fun id => ?_, processEvent_drained h.incomplete h.drained he,
      processEvent_drained hc' h.drained' he', ?_⟩
    · rw [hb.sequenceNumber, hb'.sequenceNumber, hown, h.sequenceNumber]
      exact counterAfter_agree _ hentry
    · rw [hb.pendingActions, hb'.pendingActions, hown]
      refine insertAll_agree ?_ (acked_agree e.kind h.pendingActions) id
      rw [List.map_append, List.map_append, hentry]
    · rw [(drain_moves self.env ctx₁).isComplete]
      exact processEvent_isComplete h.incomplete he

theorem twin_new (henv : self.env.Alike env) :
    Twin (.new self.env.budget) (.new env.budget) where
  isComplete := rfl
  pendingTasks := rfl
  pendingEvents := rfl
  orchestratorFn := rfl
  world := ⟨rfl, rfl, rfl, rfl, rfl, henv.budget⟩
  sequenceNumber := rfl
  pendingActions _ := rfl
  drained := ⟨rfl, rfl, rfl⟩
  drained' := ⟨rfl, rfl, rfl⟩
  incomplete := rfl

theorem processEvents_twin (henv : self.env.Alike env) (h : Twin ctx ctx')
    (events : List HistoryEvent) :
    Agree Twin (self.processEvents ctx events) ((self.under env).processEvents ctx' events) := by
  induction events generalizing ctx ctx' with
  | nil => exact .ok h
  | cons e events ih =>
    have he := processEvent_twin henv h e
    unfold processEvents
    generalize self.processEvent ctx e = x at he ⊢
    generalize (self.under env).processEvent ctx' e = y at he ⊢
    cases he with
    | error p => exact .error p
    | ok h₁ => exact ih h₁

theorem replay_twin (henv : self.env.Alike env) (history : List HistoryEvent) :
    Agree Twin (self.replay history) ((self.under env).replay history) :=
  processEvents_twin henv (twin_new henv) history

end OrchestrationExecutorFuture

end DurableTask
