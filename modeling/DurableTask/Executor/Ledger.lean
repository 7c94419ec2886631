import DurableTask.Executor.Drain

/-! # The books of a turn

Actions are entered by both sides: the program numbers what it issues and sends
it over a channel, the executor numbers its completions itself. What a turn
adds to either book is a function of the state before it.
-/

namespace DurableTask

open Interaction Queues OrchestrationExecutorContext

def Origin.action? : Origin → Option OrchestratorAction
  | .action a => some a
  | .signal _ => none

theorem Origin.action?_eq_some {o : Origin} {a : OrchestratorAction} :
    o.action? = some a ↔ o = .action a := by
  cases o <;> simp [Origin.action?]

def World.issued (w : World) : List OrchestratorAction := w.cells.filterMap (·.origin.action?)

def OrchestratorAction.entry (a : OrchestratorAction) : Int × OrchestratorAction := (a.id, a)

/-- The actions are numbered consecutively after `n`. -/
def Numbered (n : Int) (l : List OrchestratorAction) : Prop :=
  ∀ (k : ℕ) (a : OrchestratorAction), l[k]? = some a → a.id = n + k + 1

theorem Numbered.nil {n : Int} : Numbered n [] := fun k a h => by simp at h

theorem Numbered.append {n : Int} {l l' : List OrchestratorAction} (h : Numbered n l)
    (h' : Numbered (n + l.length) l') : Numbered n (l ++ l') := by
  intro k a hk
  rw [List.getElem?_append] at hk
  split at hk
  · exact h k a hk
  · have := h' _ a hk
    omega

theorem Numbered.nodup {n : Int} {l : List OrchestratorAction} (h : Numbered n l) :
    (l.map OrchestratorAction.id).Nodup := by
  rw [List.nodup_iff_getElem?_ne_getElem?]
  intro i j hij hj he
  simp only [List.length_map] at hj
  have hi := h i l[i] (List.getElem?_eq_getElem (by omega))
  have hj' := h j l[j] (List.getElem?_eq_getElem hj)
  simp only [List.getElem?_map, List.getElem?_eq_getElem hj,
    List.getElem?_eq_getElem (show i < l.length by omega), Option.map_some,
    Option.some.injEq] at he
  omega

theorem Numbered.tail {n : Int} {a : OrchestratorAction} {l : List OrchestratorAction}
    (h : Numbered n (a :: l)) : a.id = n + 1 ∧ Numbered (n + 1) l := by
  refine ⟨by simpa using h 0 a rfl, fun k b hk => ?_⟩
  have := h (k + 1) b hk
  omega

/-- The executor's counter follows the ids that it takes from the channel. -/
theorem Numbered.counterAfter {n : Int} {l : List OrchestratorAction} (h : Numbered n l)
    (hn : 0 ≤ n) : counterAfter (l.map OrchestratorAction.entry) n = n + l.length := by
  induction l generalizing n with
  | nil => simp [OrchestrationExecutorContext.counterAfter]
  | cons a l ih =>
    obtain ⟨ha, hl⟩ := h.tail
    have hpos : a.entry.1 > 0 := by simp only [OrchestratorAction.entry]; omega
    simp only [List.map_cons, OrchestrationExecutorContext.counterAfter, List.foldl_cons,
      if_pos hpos, List.length_cons]
    rw [show a.entry.1 = n + 1 from ha]
    have := ih hl (by omega)
    simp only [OrchestrationExecutorContext.counterAfter] at this
    omega

namespace World

variable {env : Env} {w w' w'' : World} {l l' : List OrchestratorAction}

/-- The program issues actions: each is sent, and numbered by the program's counter. -/
structure Issues (w w' : World) (l : List OrchestratorAction) : Prop where
  issued : w'.issued = w.issued ++ l
  sent : w'.octx.actionsTx = w.octx.actionsTx ++ l.map OrchestratorAction.entry
  counter : w'.octx.sequenceNumber = w.octx.sequenceNumber + l.length
  numbered : Numbered w.octx.sequenceNumber l
  incomplete : ∀ a ∈ l, a.isComplete = false

theorem issued_eq : w.issued = (w.cells.map Cell.origin).filterMap Origin.action? := by
  rw [List.filterMap_map]
  rfl

theorem issued_of_origin (hlen : w'.cells.length = w.cells.length)
    (hcells : ∀ (t : ℕ) (c : Cell), w.cells[t]? = some c →
      ∃ c', w'.cells[t]? = some c' ∧ c'.origin = c.origin) : w'.issued = w.issued := by
  rw [issued_eq, issued_eq, origins_eq hlen hcells]

theorem Issues.of_eq (hi : w'.issued = w.issued) (ha : w'.octx.actionsTx = w.octx.actionsTx)
    (hs : w'.octx.sequenceNumber = w.octx.sequenceNumber) : Issues w w' [] where
  issued := by simp [hi]
  sent := by simp [ha]
  counter := by simp [hs]
  numbered := .nil
  incomplete := by simp

theorem Issues.trans (h : Issues w w' l) (h' : Issues w' w'' l') : Issues w w'' (l ++ l') where
  issued := by rw [h'.issued, h.issued, List.append_assoc]
  sent := by rw [h'.sent, h.sent, List.map_append, List.append_assoc]
  counter := by rw [h'.counter, h.counter]; simp; omega
  numbered := h.numbered.append (h.counter ▸ h'.numbered)
  incomplete a ha := (List.mem_append.mp ha).elim (h.incomplete a) (h'.incomplete a)

theorem Step.issues (h : Step env w w') : ∃ l, Issues w w' l := by
  have hcells := fun (t : ℕ) (c : Cell) (hc : w.cells[t]? = some c) =>
    (h.cells hc).imp fun _ h' => h'.imp_right Cell.Evolves.origin
  cases h with
  | issue reads mk hid hc =>
    refine ⟨[mk (w.octx.sequenceNumber + 1)], ?_, ?_, rfl, ?_, by simp [hc]⟩
    · simp [issued, Cell.new, Origin.action?]
    · simp [OrchestratorAction.entry, hid]
    · intro k a hk
      obtain ⟨hlt, rfl⟩ := List.getElem?_eq_some_iff.mp hk
      simp only [List.length_singleton] at hlt
      simp [show k = 0 by omega, hid]
  | take name payload received _ =>
    exact ⟨[], .of_eq (by simp [issued, Origin.action?]) rfl rfl⟩
  | wait name _ => exact ⟨[], .of_eq (by simp [issued, Cell.new, Origin.action?]) rfl rfl⟩
  | poll t c c' r b _ _ => exact ⟨[], .of_eq (issued_of_origin (by simp) hcells) rfl rfl⟩
  | drop t => exact ⟨[], .of_eq (issued_of_origin (by simp [dropTask]) hcells) rfl rfl⟩

theorem Steps.issues (h : Steps env w w') : ∃ l, Issues w w' l := by
  induction h with
  | refl => exact ⟨[], .of_eq rfl rfl rfl⟩
  | tail _ hs ih =>
    obtain ⟨l, hl⟩ := ih
    obtain ⟨l', hl'⟩ := hs.issues
    exact ⟨l ++ l', hl.trans hl'⟩

theorem issued_dropFrom {base : ℕ} : (w.dropFrom base).issued = w.issued :=
  issued_of_origin dropFrom_length fun _ _ hc =>
    (dropFrom_evolves hc).imp fun _ h => h.imp_right Cell.Evolves.origin

theorem issued_dropBefore {base : ℕ} : (w.dropBefore base).issued = w.issued := by
  rw [issued_eq, issued_eq, dropBefore_origins]

end World

def EventKind.acked (k : EventKind) (actions : AList fun _ : Int => OrchestratorAction) :
    AList fun _ : Int => OrchestratorAction :=
  match k with
  | .acknowledge id => actions.erase id
  | _ => actions

theorem EventKind.lookup_acked {k : EventKind} {id : Int}
    {actions : AList fun _ : Int => OrchestratorAction} (hk : k ≠ .acknowledge id) :
    (k.acked actions).lookup id = actions.lookup id := by
  cases k with
  | acknowledge id' => exact AList.lookup_erase_ne fun h => hk (h ▸ rfl)
  | _ => rfl

theorem EventKind.lookup_of_acked {k : EventKind} {id : Int} {a : OrchestratorAction}
    {actions : AList fun _ : Int => OrchestratorAction} (h : (k.acked actions).lookup id = some a) :
    actions.lookup id = some a := by
  cases k with
  | acknowledge id' => exact AList.lookup_of_erase _ _ _ h
  | _ => exact h

namespace OrchestrationExecutorContext

variable {ctx : OrchestrationExecutorContext} {l : List OrchestratorAction}

theorem drain_of_drained (hd : ctx.Drained) : ctx.drain = ctx := by
  obtain ⟨ha, ht, he⟩ := hd
  obtain ⟨_, _, _, _, _, _, _, _, _, _, ⟨⟨_, _, _, _, _, _⟩, _, _, _, _, _, _⟩⟩ := ctx
  dsimp only at ha ht he
  subst ha ht he
  simp [drain, drainActions, drainTasks, drainEvents]

theorem drain_issued : ctx.drain.world.issued = ctx.world.issued := by
  rw [World.issued_eq, World.issued_eq, drain_origins]

theorem mem_getActions {env : Env} {a : OrchestratorAction} :
    a ∈ ctx.getActions env ↔ ∃ id, ctx.pendingActions.lookup id = some a := by
  rw [getActions, (env.hashOrder_perm _).mem_iff, List.mem_map]
  constructor
  · rintro ⟨⟨id, b⟩, hm, rfl⟩
    exact ⟨id, AList.mem_lookup_iff.mpr hm⟩
  · rintro ⟨id, hl⟩
    exact ⟨⟨id, a⟩, AList.mem_lookup_iff.mp hl, rfl⟩

end OrchestrationExecutorContext

open OrchestrationExecutorContext

theorem completionAction_entry (n : Int) (r : OrchestratorResult String) :
    (completionAction n r).entry = (n, completionAction n r) := by
  rcases r with _ | _ | _ <;> rfl

theorem completionAction_isComplete (n : Int) (r : OrchestratorResult String) :
    (completionAction n r).isComplete = true := by
  rcases r with _ | _ | _ <;> rfl

/--
The actions that a poll sends; the channel of a program that returns from its first poll is dropped
with it.
-/
def Activation.sent (env : Env) (a : Activation) (first : Bool) : List (Int × OrchestratorAction) :=
  match a.run env with
  | .ok (.suspended _, w) => w.octx.actionsTx
  | .ok (.ready _, w) => if first then [] else w.octx.actionsTx
  | .error _ => []

namespace OrchestrationExecutorFuture

variable (self : OrchestrationExecutorFuture)

def ownEntry (ctx : OrchestrationExecutorContext) (k : EventKind) :
    List (Int × OrchestratorAction) :=
  match k with
  | .terminate => [(newCompleteOrchestrationAction (ctx.sequenceNumber + 1) .terminated none []
      none).entry]
  | .start _ => []
  | .complete => []
  | _ => (self.returns ctx k).toList.map fun r =>
    (completionAction (ctx.sequenceNumber + 1) r).entry

theorem ownEntry_cases (ctx : OrchestrationExecutorContext) (k : EventKind) :
    self.ownEntry ctx k = [] ∨ ∃ a : OrchestratorAction, a.id = ctx.sequenceNumber + 1 ∧
      a.isComplete = true ∧ self.ownEntry ctx k = [a.entry] := by
  have shared : (self.returns ctx k).toList.map (fun r =>
      (completionAction (ctx.sequenceNumber + 1) r).entry) = [] ∨ ∃ a : OrchestratorAction,
      a.id = ctx.sequenceNumber + 1 ∧ a.isComplete = true ∧
        (self.returns ctx k).toList.map (fun r =>
          (completionAction (ctx.sequenceNumber + 1) r).entry) = [a.entry] := by
    cases self.returns ctx k with
    | none => exact .inl rfl
    | some r =>
      exact .inr ⟨completionAction (ctx.sequenceNumber + 1) r, congrArg Prod.fst
        (completionAction_entry _ r), completionAction_isComplete _ r, rfl⟩
  cases k with
  | terminate => exact .inr ⟨_, rfl, rfl, rfl⟩
  | start e => exact .inl rfl
  | complete => exact .inl rfl
  | _ => exact shared

theorem ownEntry_of_returns_none {ctx : OrchestrationExecutorContext} {k : EventKind}
    (hk : k ≠ .terminate) (hret : self.returns ctx k = none) : self.ownEntry ctx k = [] := by
  cases k with
  | terminate => exact absurd rfl hk
  | start e => rfl
  | complete => rfl
  | _ => simp [ownEntry, hret]

def sent (ctx : OrchestrationExecutorContext) (k : EventKind) : List (Int × OrchestratorAction) :=
  ((self.activation ctx k).map fun a => a.sent self.env k.isStart).getD []

def enters (ctx : OrchestrationExecutorContext) (k : EventKind) :
    List (Int × OrchestratorAction) :=
  self.ownEntry ctx k ++ self.sent ctx k

theorem ownEntry_of_returns {ctx : OrchestrationExecutorContext} {k : EventKind}
    {r : OrchestratorResult String} (hr : self.returns ctx k = some r) (hs : k.isStart = false)
    (hc : k ≠ .complete) :
    self.ownEntry ctx k = [(completionAction (ctx.sequenceNumber + 1) r).entry] := by
  cases k with
  | start e => cases hs
  | complete => exact absurd rfl hc
  | terminate => cases hr
  | _ => simp [ownEntry, hr]

/--
What a turn adds to the books: the actions `l` that the program issued after `n`, and the actions
`lost` that it issued before it returned from its first poll.
-/
structure Entries (executor : OrchestrationExecutorFuture) (ctx : OrchestrationExecutorContext)
    (k : EventKind) (ctx' : OrchestrationExecutorContext) (n : Int)
    (l lost : List OrchestratorAction) : Prop where
  sequenceNumber : ctx'.sequenceNumber = counterAfter (l.map OrchestratorAction.entry)
    (ctx.sequenceNumber + (executor.ownEntry ctx k).length)
  pendingActions : ctx'.pendingActions =
    insertAll (executor.ownEntry ctx k ++ l.map OrchestratorAction.entry)
      (k.acked ctx.pendingActions)
  inserted : ctx'.inserted =
    ctx.inserted ++ executor.ownEntry ctx k ++ l.map OrchestratorAction.entry
  issued : ctx'.world.issued = ctx.world.issued ++ l ++ lost
  returned : ctx'.world.returned = ctx.world.returned ++ (executor.returns ctx k).toList
  completionStatus : ctx'.completionStatus =
    if k = .terminate then .terminated else ctx.completionStatus
  sent : executor.sent ctx k = l.map OrchestratorAction.entry
  counter : ctx'.world.octx.sequenceNumber = n + l.length
  base : n = ctx.world.octx.sequenceNumber ∨ n = 0 ∧ k.isStart
  numbered : Numbered n l
  incomplete : ∀ a ∈ l, a.isComplete = false
  quiet : executor.issues ctx k = false → l = [] ∧ lost = []
  lost_of : lost ≠ [] → k.isStart ∧ executor.issues ctx k ∧ (executor.returns ctx k).isSome

end OrchestrationExecutorFuture

namespace Activation

variable {env : Env} {a : Activation} {p : Progress a.1.State (OrchestratorResult String)}
  {w : World} {l : List OrchestratorAction}

theorem run_issues (h : a.run env = .ok (p, w)) : ∃ l, World.Issues a.2 w l := (run_steps h).issues

theorem issues_iff (h : a.run env = .ok (p, w)) (hl : World.Issues a.2 w l) :
    a.issues env = true ↔ l ≠ [] := by
  have hc := hl.counter
  rw [issues, h, ← List.length_pos_iff]
  simp only [ne_eq, decide_eq_true_eq]
  omega

theorem returns_suspended {s : a.1.State} (h : a.run env = .ok (.suspended s, w)) :
    a.returns env = none := by
  rw [returns, h]

theorem returns_ready {r : OrchestratorResult String} (h : a.run env = .ok (.ready r, w)) :
    a.returns env = some r := by
  rw [returns, h]

end Activation

theorem Delivery.books {env : Env} {ctx ctx₁ : OrchestrationExecutorContext} {k : EventKind}
    (h : Delivery env ctx k ctx₁) : ctx₁.sequenceNumber = ctx.sequenceNumber ∧
      ctx₁.pendingActions = ctx.pendingActions ∧ ctx₁.inserted = ctx.inserted ∧
      ctx₁.completionStatus = ctx.completionStatus ∧ ctx₁.world.issued = ctx.world.issued ∧
      ctx₁.world.returned = ctx.world.returned := by
  have hissued : ctx₁.world.issued = ctx.world.issued := by
    rw [World.issued_eq, World.issued_eq, h.origins]
  cases h with
  | send id v message polls t w hl hs =>
    obtain ⟨c, -, -, rfl⟩ := World.send_ok hs
    exact ⟨rfl, rfl, rfl, rfl, hissued, rfl⟩
  | give e t waiters w hl hs =>
    obtain ⟨c, -, -, rfl⟩ := World.send_ok hs
    exact ⟨rfl, rfl, rfl, rfl, hissued, rfl⟩
  | _ => exact ⟨rfl, rfl, rfl, rfl, hissued, rfl⟩

theorem OrchestrationExecutorContext.drain_books {ctx : OrchestrationExecutorContext}
    (hfn : ctx.orchestratorFn.isSome) :
    ctx.drain.sequenceNumber = counterAfter ctx.world.octx.actionsTx ctx.sequenceNumber ∧
    ctx.drain.pendingActions = insertAll ctx.world.octx.actionsTx ctx.pendingActions ∧
    ctx.drain.inserted = ctx.inserted ++ ctx.world.octx.actionsTx ∧
    ctx.drain.completionStatus = ctx.completionStatus ∧
    ctx.drain.world.returned = ctx.world.returned ∧
    ctx.drain.world.octx.sequenceNumber = ctx.world.octx.sequenceNumber := by
  obtain ⟨tasks, events, cells, h⟩ := drain_eq hfn
  rw [h]
  exact ⟨rfl, rfl, rfl, rfl, rfl, rfl⟩

namespace OrchestrationExecutorFuture

variable {self : OrchestrationExecutorFuture} {ctx ctx' : OrchestrationExecutorContext}
  {k : EventKind}

/-- Between two events nothing is on its way to the books. -/
theorem Entries.of_rest (hd : ctx'.Drained) (ha : self.activation ctx k = none)
    (hseq : ctx'.sequenceNumber = ctx.sequenceNumber + (self.ownEntry ctx k).length)
    (hp : ctx'.pendingActions =
      insertAll (self.ownEntry ctx k) (k.acked ctx.pendingActions))
    (hi : ctx'.inserted = ctx.inserted ++ self.ownEntry ctx k)
    (hstatus : ctx'.completionStatus =
      if k = .terminate then .terminated else ctx.completionStatus)
    (hissued : ctx'.world.issued = ctx.world.issued)
    (hret : ctx'.world.returned = ctx.world.returned)
    (hoctx : ctx'.world.octx = ctx.world.octx) :
    self.Entries ctx k ctx'.drain ctx.world.octx.sequenceNumber [] [] := by
  rw [drain_of_drained hd]
  exact {
    sequenceNumber := hseq
    pendingActions := by simpa using hp
    inserted := by simpa using hi
    issued := by simpa using hissued
    returned := by simp [returns, ha, hret]
    completionStatus := hstatus
    sent := by simp [OrchestrationExecutorFuture.sent, ha]
    counter := by simp [hoctx]
    base := .inl rfl
    numbered := .nil
    incomplete := by simp
    quiet := fun _ => ⟨rfl, rfl⟩
    lost_of := fun h => absurd rfl h }

/-- The program was polled and goes on to be the program, or has returned. -/
theorem Entries.of_run {a : Activation} {p : Progress a.1.State (OrchestratorResult String)}
    {w : World} {n : Int} {l : List OrchestratorAction} (hfn : ctx'.orchestratorFn.isSome)
    (ha : self.activation ctx k = some a) (hrun : a.run self.env = .ok (p, w))
    (hl : World.Issues a.2 w l) (htx : a.2.octx.actionsTx = [])
    (hn : a.2.octx.sequenceNumber = n)
    (hbase : n = ctx.world.octx.sequenceNumber ∨ n = 0 ∧ k.isStart)
    (hseq : ctx'.sequenceNumber = ctx.sequenceNumber + (self.ownEntry ctx k).length)
    (hp : ctx'.pendingActions =
      insertAll (self.ownEntry ctx k) (k.acked ctx.pendingActions))
    (hi : ctx'.inserted = ctx.inserted ++ self.ownEntry ctx k)
    (hstatus : ctx'.completionStatus =
      if k = .terminate then .terminated else ctx.completionStatus)
    (hissued₀ : a.2.issued = ctx.world.issued) (hissued : ctx'.world.issued = w.issued)
    (hret : ctx'.world.returned = ctx.world.returned ++ (a.returns self.env).toList)
    (hoctx : ctx'.world.octx = w.octx) (hkeeps : self.sent ctx k = w.octx.actionsTx) :
    self.Entries ctx k ctx'.drain n l [] := by
  have hsent : ctx'.world.octx.actionsTx = l.map OrchestratorAction.entry := by
    rw [hoctx, hl.sent, htx, List.nil_append]
  obtain ⟨h₁, h₂, h₃, h₄, h₅, h₆⟩ := drain_books hfn
  rw [hsent] at h₁ h₂ h₃
  have hissues : self.issues ctx k = a.issues self.env := by simp [issues, ha]
  exact {
    sequenceNumber := by rw [h₁, hseq]
    pendingActions := by rw [h₂, hp, insertAll, insertAll, insertAll, List.foldl_append]
    inserted := by rw [h₃, hi]
    issued := by rw [drain_issued, hissued, hl.issued, hissued₀, List.append_nil]
    returned := by rw [h₅, hret, returns, ha]; rfl
    completionStatus := by rw [h₄, hstatus]
    sent := hkeeps.trans (hoctx ▸ hsent)
    counter := by rw [h₆, hoctx, hl.counter, hn]
    base := hbase
    numbered := hn ▸ hl.numbered
    incomplete := hl.incomplete
    quiet := fun hq => by
      refine ⟨Classical.by_contradiction fun hne => ?_, rfl⟩
      rw [hissues, (Activation.issues_iff hrun hl).mpr hne] at hq
      cases hq
    lost_of := fun h => absurd rfl h }

theorem acked_of_delivery {ctx₁ : OrchestrationExecutorContext} {env : Env}
    (h : Delivery env ctx k ctx₁) (hk : ∀ id, k ≠ .acknowledge id)
    (actions : AList fun _ : Int => OrchestratorAction) : k.acked actions = actions := by
  cases h with
  | acknowledge id => exact absurd rfl (hk id)
  | _ => rfl

theorem kind_of_activation {ctx₁ : OrchestrationExecutorContext} {env : Env} {a : Activation}
    (h : Delivery env ctx k ctx₁) (ha : self.activation ctx k = some a) :
    k ≠ .terminate ∧ ∀ id, k ≠ .acknowledge id := by
  cases h <;> simp_all [activation]

theorem isStart_of_delivery {ctx₁ : OrchestrationExecutorContext} {env : Env}
    (h : Delivery env ctx k ctx₁) : k.isStart = false := by
  cases h <;> rfl

theorem sent_suspended {a : Activation} {s : a.1.State} {w : World}
    (ha : self.activation ctx k = some a) (hrun : a.run self.env = .ok (.suspended s, w)) :
    self.sent ctx k = w.octx.actionsTx := by
  simp only [sent, ha, Option.map_some, Option.getD_some, Activation.sent, hrun]

theorem sent_ready {a : Activation} {r : OrchestratorResult String} {w : World}
    (ha : self.activation ctx k = some a) (hrun : a.run self.env = .ok (.ready r, w)) :
    self.sent ctx k = if k.isStart then [] else w.octx.actionsTx := by
  simp only [sent, ha, Option.map_some, Option.getD_some, Activation.sent, hrun]

section Arms

variable {ctx₁ : OrchestrationExecutorContext} {base : TaskRef}
  {f : TaskFuture (OrchestratorResult String)} {w : World} (hd : ctx.Drained)
include hd

theorem Entries.rest (hdel : Delivery self.env ctx k ctx₁) (ha : self.activation ctx k = none)
    (hk : k ≠ .terminate ∧ ∀ id, k ≠ .acknowledge id) :
    self.Entries ctx k ctx₁.drain ctx.world.octx.sequenceNumber [] [] := by
  obtain ⟨h₁, h₂, h₃, h₄, h₅, h₆⟩ := hdel.books
  have hown : self.ownEntry ctx k = [] :=
    self.ownEntry_of_returns_none hk.1 (by simp [returns, ha])
  refine .of_rest (hdel.drained hd) ha ?_ ?_ ?_ ?_ h₅ h₆ hdel.octx
  · simp [hown, h₁]
  · rw [hown, h₂, acked_of_delivery hdel hk.2]
    rfl
  · simp [hown, h₃]
  · rw [if_neg hk.1, h₄]

theorem Entries.suspend {s : f.State} (hdel : Delivery self.env ctx k ctx₁)
    (ha : self.activation ctx k = some (f, { ctx₁.world with notified := false }))
    (hrun : Activation.run self.env (f, { ctx₁.world with notified := false }) =
      .ok (.suspended s, w)) :
    ∃ l, self.Entries ctx k
      ({ ctx₁ with orchestratorFn := some (.suspended base (f.resume s)), world := w } :
        OrchestrationExecutorContext).drain ctx.world.octx.sequenceNumber l [] := by
  obtain ⟨l, hl⟩ := Activation.run_issues hrun
  obtain ⟨h₁, h₂, h₃, h₄, h₅, h₆⟩ := hdel.books
  have hkind := kind_of_activation hdel ha
  have hret := Activation.returns_suspended hrun
  have hown : self.ownEntry ctx k = [] :=
    self.ownEntry_of_returns_none hkind.1 (by simp only [returns, ha, Option.bind_some, hret])
  refine ⟨l, .of_run rfl ha hrun hl (hdel.drained hd).actions (by rw [hdel.octx]) (.inl rfl)
    ?_ ?_ ?_ ?_ h₅ rfl ?_ rfl (sent_suspended ha hrun)⟩
  · simp [hown, h₁]
  · rw [hown, acked_of_delivery hdel hkind.2]
    exact h₂
  · simp [hown, h₃]
  · rw [if_neg hkind.1]
    exact h₄
  · rw [hret, (run_steps hrun).returned]
    simpa using h₆

theorem Entries.report {r : OrchestratorResult String} (hk : k ≠ .complete)
    (hdel : Delivery self.env ctx k ctx₁)
    (ha : self.activation ctx k = some (f, { ctx₁.world with notified := false }))
    (hrun : Activation.run self.env (f, { ctx₁.world with notified := false }) =
      .ok (.ready r, w)) :
    ∃ l, self.Entries ctx k
      (({ ctx₁ with
        orchestratorFn := some .finished
        world := w.finish base r
        sequenceNumber := ctx₁.sequenceNumber + 1 } : OrchestrationExecutorContext).insertAction
          (ctx₁.sequenceNumber + 1) (completionAction (ctx₁.sequenceNumber + 1) r)).drain
      ctx.world.octx.sequenceNumber l [] := by
  obtain ⟨l, hl⟩ := Activation.run_issues hrun
  obtain ⟨h₁, h₂, h₃, h₄, h₅, h₆⟩ := hdel.books
  have hkind := kind_of_activation hdel ha
  have hret := Activation.returns_ready hrun
  have hown := self.ownEntry_of_returns
    (show self.returns ctx k = some r by simp only [returns, ha, Option.bind_some, hret])
    (isStart_of_delivery hdel) hk
  refine ⟨l, .of_run rfl ha hrun hl (hdel.drained hd).actions (by rw [hdel.octx]) (.inl rfl)
    ?_ ?_ ?_ ?_ h₅ World.issued_dropFrom ?_ rfl ?_⟩
  · simp [hown, insertAction, h₁]
  · rw [hown, acked_of_delivery hdel hkind.2, completionAction_entry]
    simp only [insertAction, h₁, h₂]
    rfl
  · rw [hown, completionAction_entry]
    simp only [insertAction, h₁, h₃]
  · rw [if_neg hkind.1]
    exact h₄
  · rw [hret, ← h₆, ← (run_steps hrun).returned]
    rfl
  · rw [sent_ready ha hrun, if_neg (by simp [isStart_of_delivery hdel])]

theorem Entries.discard {r : OrchestratorResult String}
    (hfn : ctx.orchestratorFn = some (.suspended base f))
    (hrun : Activation.run self.env (f, { ctx.world with notified := false }) =
      .ok (.ready r, w)) :
    ∃ l, self.Entries ctx .complete
      ({ ctx with orchestratorFn := some .finished, world := w.finish base r } :
        OrchestrationExecutorContext).drain ctx.world.octx.sequenceNumber l [] := by
  obtain ⟨l, hl⟩ := Activation.run_issues hrun
  have hret := Activation.returns_ready hrun
  have ha : self.activation ctx .complete = some (f, { ctx.world with notified := false }) := by
    simp [activation, program, hfn]
  refine ⟨l, .of_run rfl ha hrun hl hd.actions rfl (.inl rfl) (Int.add_zero _).symm rfl
    (List.append_nil _).symm rfl rfl World.issued_dropFrom ?_ rfl (sent_ready ha hrun)⟩
  rw [hret, ← (run_steps hrun).returned]
  rfl

omit hd in
theorem Entries.begin {e : ExecutionStartedEvent} {func : OrchestratorFunction}
    {s : (func.call self.instanceId e.input).State}
    (hr : self.registry.getOrchestrator e.name = some func)
    (hrun : Activation.run self.env (func.call self.instanceId e.input,
      { ctx.world with octx := .new self.instanceId e.input, notified := false }) =
        .ok (.suspended s, w)) :
    ∃ l, self.Entries ctx (.start e)
      ({ ctx with
        orchestratorFn := some (.suspended ctx.world.cells.length
          ((func.call self.instanceId e.input).resume s))
        world := w.dropBefore ctx.world.cells.length } : OrchestrationExecutorContext).drain
      0 l [] := by
  obtain ⟨l, hl⟩ := Activation.run_issues hrun
  have hret := Activation.returns_suspended hrun
  have ha : self.activation ctx (.start e) = some (func.call self.instanceId e.input,
      { ctx.world with octx := .new self.instanceId e.input, notified := false }) := by
    simp [activation, hr]
  refine ⟨l, .of_run rfl ha hrun hl rfl rfl (.inr ⟨rfl, rfl⟩) (Int.add_zero _).symm rfl
    (List.append_nil _).symm rfl rfl World.issued_dropBefore ?_ rfl (sent_suspended ha hrun)⟩
  rw [hret, Option.toList_none, List.append_nil]
  exact (run_steps hrun).returned

/-- A program that returns from its first poll takes its actions with it. -/
theorem Entries.forget {e : ExecutionStartedEvent} {func : OrchestratorFunction}
    {r : OrchestratorResult String} (hr : self.registry.getOrchestrator e.name = some func)
    (hrun : Activation.run self.env (func.call self.instanceId e.input,
      { ctx.world with octx := .new self.instanceId e.input, notified := false }) =
        .ok (.ready r, w)) :
    ∃ lost, self.Entries ctx (.start e)
      ({ ctx with
        world := { w.finish ctx.world.cells.length r with
          octx := ctx.world.octx, notified := ctx.world.notified } } :
            OrchestrationExecutorContext).drain
      ctx.world.octx.sequenceNumber [] lost := by
  obtain ⟨lost, hl⟩ := Activation.run_issues hrun
  have hret := Activation.returns_ready hrun
  have ha : self.activation ctx (.start e) = some (func.call self.instanceId e.input,
      { ctx.world with octx := .new self.instanceId e.input, notified := false }) := by
    simp [activation, hr]
  have hissues : self.issues ctx (.start e) = true ↔ lost ≠ [] := by
    simp only [issues, ha, Option.any_some]
    exact Activation.issues_iff hrun hl
  refine ⟨lost, ?_⟩
  rw [drain_of_drained]
  swap
  · exact hd.of_octx rfl
  exact {
    sequenceNumber := (Int.add_zero _).symm
    pendingActions := rfl
    inserted := by simp [ownEntry]
    issued := by
      rw [List.append_nil]
      exact World.issued_dropFrom.trans hl.issued
    returned := by
      simp only [returns, ha, Option.bind_some, hret]
      rw [show ctx.world.returned = w.returned from (run_steps hrun).returned.symm]
      rfl
    completionStatus := rfl
    sent := sent_ready ha hrun
    counter := (Int.add_zero _).symm
    base := .inl rfl
    numbered := .nil
    incomplete := by simp
    quiet := fun hq => ⟨rfl, Classical.by_contradiction fun hne => by
      rw [hissues.mpr hne] at hq
      cases hq⟩
    lost_of := fun hne => ⟨rfl, hissues.mpr hne, by simp [returns, ha, hret]⟩ }

end Arms

/-- What a turn adds to the books. -/
theorem Turn.entries (hd : ctx.Drained) (hc : ctx.isComplete = false) (h : self.Turn ctx k ctx') :
    ∃ n l lost, self.Entries ctx k ctx'.drain n l lost := by
  cases h with
  | rest hdel ha hk => exact ⟨_, [], [], .rest hd hdel ha hk⟩
  | tick timestamp currentTimeUtc =>
    exact ⟨_, [], [], .of_rest (hd.of_octx rfl) rfl (Int.add_zero _).symm rfl
      (List.append_nil _).symm rfl rfl rfl rfl⟩
  | terminate =>
    rw [executionTerminated_eq hc]
    exact ⟨_, [], [], .of_rest (hd.of_octx rfl) rfl rfl rfl rfl rfl rfl rfl rfl⟩
  | acknowledge id =>
    exact ⟨_, [], [], .of_rest (hd.of_octx rfl) rfl (Int.add_zero _).symm rfl
      (List.append_nil _).symm rfl rfl rfl rfl⟩
  | unknown e hr =>
    exact ⟨_, [], [], .of_rest hd (by simp [activation, hr]) (Int.add_zero _).symm rfl
      (List.append_nil _).symm rfl rfl rfl rfl⟩
  | suspend hdel hfn ha hrun => exact ⟨_, (Entries.suspend hd hdel ha hrun).imp fun _ h => ⟨_, h⟩⟩
  | report hk hdel hfn ha hrun =>
    exact ⟨_, (Entries.report hd hk hdel ha hrun).imp fun _ h => ⟨_, h⟩⟩
  | discard hfn hrun => exact ⟨_, (Entries.discard hd hfn hrun).imp fun _ h => ⟨_, h⟩⟩
  | begin hr hrun => exact ⟨_, (Entries.begin hr hrun).imp fun _ h => ⟨_, h⟩⟩
  | forget hr hrun => exact ⟨_, [], Entries.forget hd hr hrun⟩

theorem processEvent_entries {e : HistoryEvent} (hd : ctx.Drained) (hc : ctx.isComplete = false)
    (h : self.processEvent ctx e = .ok ctx') :
    ∃ n l lost, self.Entries ctx e.kind ctx'.drain n l lost :=
  Turn.entries hd hc (processEvent_turn hc h)

/-- What a turn enters is entered under its own id. -/
theorem Entries.entered {n : Int} {l lost : List OrchestratorAction} {id : Int}
    {a : OrchestratorAction} (h : self.Entries ctx k ctx' n l lost)
    (hl : ctx'.pendingActions.lookup id = some a) :
    (id, a) ∈ self.ownEntry ctx k ∨ (a ∈ l ∧ a.id = id) ∨
      ctx.pendingActions.lookup id = some a := by
  rw [h.pendingActions] at hl
  rcases lookup_insertAll hl with hm | hl
  · rcases List.mem_append.mp hm with hm | hm
    · exact .inl hm
    · obtain ⟨b, hb, he⟩ := List.mem_map.mp hm
      cases he
      exact .inr (.inl ⟨hb, rfl⟩)
  · exact .inr (.inr (EventKind.lookup_of_acked hl))

/-- Every pending action is entered under its own id. -/
theorem replay_keyed {history : List HistoryEvent} (h : self.replay history = .ok ctx) :
    ∀ id a, ctx.pendingActions.lookup id = some a → a.id = id := by
  refine processEvents_induct (P := fun _ ctx =>
    ∀ id a, ctx.pendingActions.lookup id = some a → a.id = id) ?_ ?_ h
  · intro id a hl
    cases hl
  · intro past e ctx₁ ctx₂ hr ih he id a hl
    obtain ⟨n, l, lost, hb⟩ := processEvent_entries (replay_drained hr) (replay_isComplete hr) he
    rcases hb.entered hl with hm | ⟨-, hid⟩ | hl
    · rcases self.ownEntry_cases ctx₁ e.kind with ho | ⟨b, -, -, ho⟩
      · rw [ho] at hm
        cases hm
      · rw [ho, List.mem_singleton] at hm
        cases hm
        rfl
    · exact hid
    · exact ih id a hl

theorem getActions_ids_nodup {history : List HistoryEvent} (env : Env)
    (h : self.replay history = .ok ctx) :
    ((ctx.getActions env).map OrchestratorAction.id).Nodup := by
  have hkeys : (ctx.pendingActions.entries.map Sigma.snd).map OrchestratorAction.id =
      ctx.pendingActions.entries.map Sigma.fst := by
    rw [List.map_map]
    apply List.map_congr_left
    rintro ⟨id, a⟩ hm
    exact replay_keyed h id a (AList.mem_lookup_iff.mpr hm)
  have hperm := (env.hashOrder_perm (ctx.pendingActions.entries.map Sigma.snd)).map
    OrchestratorAction.id
  rw [hkeys] at hperm
  exact hperm.nodup_iff.mpr ctx.pendingActions.nodupKeys

theorem getActions_nodup {history : List HistoryEvent} (env : Env)
    (h : self.replay history = .ok ctx) : (ctx.getActions env).Nodup :=
  List.Nodup.of_map OrchestratorAction.id (getActions_ids_nodup env h)

theorem Entries.lookup_new {n : Int} {l lost : List OrchestratorAction}
    {m : Int × OrchestratorAction}
    (h : self.Entries ctx k ctx' n l lost) (hn : (ctx'.inserted.map Prod.fst).Nodup)
    (hm : m ∈ ctx'.inserted) (hm' : m ∉ ctx.inserted) :
    ctx'.pendingActions.lookup m.1 = some m.2 := by
  rw [h.inserted, List.append_assoc] at hm hn
  rw [List.map_append] at hn
  rw [h.pendingActions]
  exact lookup_insertAll_of_mem hn.of_append_right ((List.mem_append.mp hm).resolve_left hm')

theorem Entries.lookup_kept {n : Int} {l lost : List OrchestratorAction}
    {m : Int × OrchestratorAction} (h : self.Entries ctx k ctx' n l lost)
    (hn : (ctx'.inserted.map Prod.fst).Nodup) (hm : m ∈ ctx.inserted) (hk : k ≠ .acknowledge m.1) :
    ctx'.pendingActions.lookup m.1 = ctx.pendingActions.lookup m.1 := by
  rw [h.inserted, List.append_assoc, List.map_append, List.nodup_append] at hn
  rw [h.pendingActions, lookup_insertAll_of_notMem, EventKind.lookup_acked hk]
  exact fun hmem => hn.2.2 m.1 (List.mem_map_of_mem hm) m.1 hmem rfl

section Quiet

variable {n : Int} (h : self.Entries ctx k ctx' n [] [])
include h

theorem Entries.sequenceNumber_le : ctx.sequenceNumber ≤ ctx'.sequenceNumber := by
  rw [h.sequenceNumber]
  exact Int.le_add_of_nonneg_right (Int.natCast_nonneg _)

theorem Entries.lookup_eq {id : Int} (hid : id ≤ ctx.sequenceNumber) (hk : k ≠ .acknowledge id) :
    ctx'.pendingActions.lookup id = ctx.pendingActions.lookup id := by
  rw [h.pendingActions, List.map_nil, List.append_nil, lookup_insertAll_of_notMem,
    EventKind.lookup_acked hk]
  rcases self.ownEntry_cases ctx k with ho | ⟨a, ha, -, ho⟩
  · simp [ho]
  · simp only [ho, List.map_cons, List.map_nil, List.mem_singleton, OrchestratorAction.entry, ha]
    omega

theorem Entries.lookup_old {id : Int} {a : OrchestratorAction} (ha : a.isComplete = false)
    (hl : ctx'.pendingActions.lookup id = some a) : ctx.pendingActions.lookup id = some a := by
  rw [h.pendingActions, List.map_nil, List.append_nil] at hl
  rcases lookup_insertAll hl with hm | hl
  · rcases self.ownEntry_cases ctx k with ho | ⟨b, -, hb, ho⟩
    · rw [ho] at hm
      cases hm
    · rw [ho, List.mem_singleton] at hm
      cases hm
      rw [hb] at ha
      cases ha
  · exact EventKind.lookup_of_acked hl

end Quiet

end OrchestrationExecutorFuture

end DurableTask
