import DurableTask.Invariants.Linked

/-! # Ids of live tasks

Each program numbers its tasks from 1 on, and the maps of the executor outlive
the program: an entry may be left over from a program that was replaced. What a
live task needs is that no such entry stands in its place.
-/

namespace DurableTask

open Interaction Queues OrchestrationExecutorContext

namespace OrchestrationExecutorContext

/-- A task from `base` on that was not dropped, and the action that created it. -/
structure Live (cells : List Cell) (base t : ℕ) (a : OrchestratorAction) : Prop where
  base_le : base ≤ t
  cell : ∃ c, cells[t]? = some c ∧ c.dropped = false ∧ c.origin = .action a

/-- Only its own sender is parked under the id of a live task. -/
structure Fresh (base : ℕ) (ctx : OrchestrationExecutorContext) : Prop where
  le : ∀ {t : ℕ} {a}, Live ctx.world.cells base t a → a.id ≤ ctx.world.octx.sequenceNumber
  sent_le : ∀ m ∈ ctx.world.octx.tasksTx, m.1 ≤ ctx.world.octx.sequenceNumber
  sent : ∀ {t : ℕ} {a}, Live ctx.world.cells base t a →
    ∀ m ∈ ctx.world.octx.tasksTx, m.1 = a.id → m.2 = t
  parked : ∀ {t : ℕ} {a}, Live ctx.world.cells base t a → (a.id, t) ∈ ctx.world.octx.tasksTx ∨
    ∀ t', ctx.pendingTasks.lookup a.id = some t' → t' = t

variable {env : Env} {ctx ctx' : OrchestrationExecutorContext} {base : ℕ}

/-- Losing tasks or senders keeps the ids fresh. -/
theorem Fresh.mono (h : ctx.Fresh base) {base' : ℕ}
    (hlive : ∀ {t : ℕ} {a}, Live ctx'.world.cells base' t a → Live ctx.world.cells base t a)
    (hseq : ctx'.world.octx.sequenceNumber = ctx.world.octx.sequenceNumber)
    (htx : ctx'.world.octx.tasksTx = ctx.world.octx.tasksTx)
    (hp : ∀ id t, ctx'.pendingTasks.lookup id = some t → ctx.pendingTasks.lookup id = some t) :
    ctx'.Fresh base' where
  le hl := hseq ▸ h.le (hlive hl)
  sent_le := by rw [hseq, htx]; exact h.sent_le
  sent hl := htx ▸ h.sent (hlive hl)
  parked hl := by
    rw [htx]
    exact (h.parked (hlive hl)).imp_right fun h' t' hl' => h' t' (hp _ _ hl')

theorem Live.of_evolves
    (hlen : ctx'.world.cells.length = ctx.world.cells.length)
    (hcells : ∀ (t : TaskRef) (c : Cell), ctx.world.cells[t]? = some c →
      ∃ c', ctx'.world.cells[t]? = some c' ∧ c.Evolves c')
    {t : ℕ} {a : OrchestratorAction} (hl : Live ctx'.world.cells base t a) :
    Live ctx.world.cells base t a := by
  obtain ⟨hb, c', hc', hd, ho⟩ := hl
  have hlt := (List.getElem?_eq_some_iff.mp hc').1
  have hc : ctx.world.cells[t]? = some ctx.world.cells[t] := List.getElem?_eq_getElem (hlen ▸ hlt)
  obtain ⟨c₁, hc₁, he⟩ := hcells t _ hc
  rw [hc'] at hc₁
  cases hc₁
  exact ⟨hb, _, hc, he.live hd, he.origin ▸ ho⟩

theorem Fresh.issue (h : ctx.Fresh base) (reads : ℕ)
    {mk : Int → OrchestratorAction} (hid : ∀ id, (mk id).id = id) :
    ({ ctx with world := ({ ctx.world with clockReads := ctx.world.clockReads + reads }.issue
      mk).2 } : OrchestrationExecutorContext).Fresh base := by
  have live {t : ℕ} {a : OrchestratorAction}
      (hl : Live ({ ctx.world with clockReads := ctx.world.clockReads + reads }.issue mk).2.cells
        base t a) :
      Live ctx.world.cells base t a ∨ t = ctx.world.cells.length ∧
        a.id = ctx.world.octx.sequenceNumber + 1 := by
    obtain ⟨hb, c, hc, hd, ho⟩ := hl
    simp only [World.issue_eq, List.getElem?_append] at hc
    split at hc
    · exact .inl ⟨hb, c, hc, hd, ho⟩
    · obtain ⟨hlt, rfl⟩ := List.getElem?_eq_some_iff.mp hc
      simp only [List.length_singleton] at hlt
      simp only [List.getElem_singleton, Cell.new, Origin.action.injEq] at ho
      exact .inr ⟨by omega, by rw [← ho, hid]⟩
  constructor
  · intro t a hl
    rcases live hl with hl | ⟨-, ha⟩
    · exact Int.le_add_one (h.le hl)
    · exact Int.le_of_eq ha
  · intro m hm
    simp only [World.issue_eq, List.mem_append, List.mem_singleton] at hm
    rcases hm with hm | rfl
    · exact Int.le_add_one (h.sent_le m hm)
    · exact Int.le_refl _
  · intro t a hl m hm he
    simp only [World.issue_eq, List.mem_append, List.mem_singleton] at hm
    rcases live hl with hl | ⟨rfl, ha⟩ <;> rcases hm with hm | rfl
    · exact h.sent hl m hm he
    · have := h.le hl
      dsimp only at he
      omega
    · have := h.sent_le m hm
      omega
    · rfl
  · intro t a hl
    rcases live hl with hl | ⟨rfl, ha⟩
    · exact (h.parked hl).imp_left (List.mem_append_left _)
    · exact .inl (by simp [ha])

theorem Fresh.signal {c : Cell} {name : String} (h : ctx.Fresh base)
    (hcells : ctx'.world.cells = ctx.world.cells ++ [c]) (ho : c.origin = .signal name)
    (hseq : ctx'.world.octx.sequenceNumber = ctx.world.octx.sequenceNumber)
    (htx : ctx'.world.octx.tasksTx = ctx.world.octx.tasksTx)
    (hp : ctx'.pendingTasks = ctx.pendingTasks) : ctx'.Fresh base := by
  refine h.mono (fun {t a} hl => ?_) hseq htx fun id t hl => hp ▸ hl
  obtain ⟨hb, c', hc', hd, ho'⟩ := hl
  rw [hcells, List.getElem?_append] at hc'
  split at hc'
  · exact ⟨hb, c', hc', hd, ho'⟩
  · rw [List.mem_singleton.mp (List.mem_of_getElem? hc'), ho] at ho'
    cases ho'

theorem Fresh.step (h : ctx.Fresh base) {w : World} (hs : World.Step env ctx.world w) :
    ({ ctx with world := w } : OrchestrationExecutorContext).Fresh base := by
  have hcells := fun (t : TaskRef) (c : Cell) (hc : ctx.world.cells[t]? = some c) => hs.cells hc
  cases hs with
  | issue reads mk hid _ => exact h.issue reads hid
  | take name payload received _ => exact h.signal rfl rfl rfl rfl rfl
  | wait name _ => exact h.signal rfl rfl rfl rfl rfl
  | poll t c c' r b _ _ =>
    exact h.mono (Live.of_evolves (by simp) hcells) rfl rfl fun _ _ hl => hl
  | drop t =>
    exact h.mono (Live.of_evolves (by simp [World.dropTask]) hcells) rfl rfl fun _ _ hl => hl

theorem Fresh.steps (h : ctx.Fresh base) {w : World} (hs : World.Steps env ctx.world w) :
    ({ ctx with world := w } : OrchestrationExecutorContext).Fresh base :=
  hs.preserves (P := fun w => ({ ctx with world := w } : OrchestrationExecutorContext).Fresh base)
    (fun _ _ hs h => h.step hs) h

/-- The sender of a live task takes its place in the map. -/
theorem Fresh.takeTask (h : ctx.Fresh base) {m : Int × TaskRef} {rest : List (Int × TaskRef)}
    (hm : ctx.world.octx.tasksTx = m :: rest) :
    ({ ctx with world.octx.tasksTx := rest }.takeTask m).Fresh base := by
  have live {t : ℕ} {a : OrchestratorAction}
      (hl : Live ({ ctx with world.octx.tasksTx := rest }.takeTask m).world.cells base t a) :
      Live ctx.world.cells base t a := by
    obtain ⟨hb, c, hc, hd, ho⟩ := hl
    rw [takeTask_cells] at hc
    split at hc
    · obtain ⟨c₁, hc₁, rfl⟩ := Option.map_eq_some_iff.mp hc
      exact ⟨hb, c₁, hc₁, hd, ho⟩
    · exact ⟨hb, c, hc, hd, ho⟩
  constructor
  · intro t a hl
    rw [takeTask_octx]
    exact h.le (live hl)
  · intro m' hm'
    rw [takeTask_octx] at hm' ⊢
    exact h.sent_le m' (by simp [hm, show m' ∈ rest from hm'])
  · intro t a hl m' hm'
    rw [takeTask_octx] at hm'
    exact h.sent (live hl) m' (by simp [hm, show m' ∈ rest from hm'])
  · intro t a hl
    rw [takeTask_octx]
    by_cases ha : a.id = m.1
    · have ht : m.2 = t := h.sent (live hl) m (by simp [hm]) ha.symm
      refine .inr fun t' hl' => ?_
      rw [ha, OrchestrationExecutorContext.takeTask, AList.lookup_insert] at hl'
      exact (Option.some.inj hl').symm.trans ht
    · rcases h.parked (live hl) with hp | hp
      · rw [hm, List.mem_cons] at hp
        exact .inl (hp.resolve_left (by rintro rfl; exact ha rfl))
      · refine .inr fun t' hl' => hp t' ?_
        rwa [OrchestrationExecutorContext.takeTask, AList.lookup_insert_ne ha] at hl'

end OrchestrationExecutorContext

variable {env : Env} {ctx ctx' : OrchestrationExecutorContext} {base : ℕ}

theorem Move.fresh (hm : Move env ctx ctx') (h : ctx.Fresh base) : ctx'.Fresh base := by
  cases hm with
  | step _ _ w _ hs => exact h.step hs
  | takeTask m rest hm => exact h.takeTask hm
  | finish b _ r _ =>
    refine h.mono (Live.of_evolves ?_ fun _ _ hc => World.dropFrom_evolves hc) rfl rfl
      fun _ _ hl => hl
    simp [World.finish, World.dropFrom]
    omega
  | takeAction m rest _ =>
    rw [takeAction_eq]
    exact h.mono id rfl rfl fun _ _ hl => hl
  | _ => exact h.mono id rfl rfl fun _ _ hl => hl

theorem Moves.fresh (hm : Moves env ctx ctx') (h : ctx.Fresh base) : ctx'.Fresh base :=
  hm.preserves (fun _ _ hm h => hm.fresh h) h

theorem Delivery.fresh {k : EventKind} (hdel : Delivery env ctx k ctx') (h : ctx.Fresh base) :
    ctx'.Fresh base := by
  have send {t : ℕ} {v : Option String} {w : World} (hs : ctx.world.send t v = some w) {u : ℕ}
      {a : OrchestratorAction} {c : Cell} (hc : w.cells[u]? = some c) (hd : c.dropped = false)
      (ho : c.origin = .action a) (hb : base ≤ u) : Live ctx.world.cells base u a := by
    obtain ⟨c', hc', hd', rfl⟩ := World.send_ok hs
    by_cases hu : t = u
    · subst hu
      have hlt := (List.getElem?_eq_some_iff.mp hc').1
      simp only [List.getElem?_set_self hlt, Option.some.injEq] at hc
      subst hc
      exact ⟨hb, c', hc', hd', ho⟩
    · exact ⟨hb, c, by simpa [List.getElem?_set_ne hu] using hc, hd, ho⟩
  cases hdel with
  | send id v message polls t w hl hs =>
    refine h.mono ?_ ?_ ?_ (AList.lookup_of_erase _ id)
    · rintro u a ⟨hb, c, hc, hd, ho⟩
      exact send hs hc hd ho hb
    · rw [show w.octx = ctx.world.octx from World.send_octx hs]
    · rw [show w.octx = ctx.world.octx from World.send_octx hs]
  | close id message polls t hl =>
    refine h.mono ?_ rfl rfl (AList.lookup_of_erase _ id)
    rintro u a ⟨hb, c, hc, hd, ho⟩
    by_cases hu : t = u
    · subst hu
      simp only [World.dropSender, List.getElem?_modify_eq, Option.map_eq_map,
        Option.map_eq_some_iff] at hc
      obtain ⟨c₁, hc₁, rfl⟩ := hc
      exact ⟨hb, c₁, hc₁, hd, ho⟩
    · exact ⟨hb, c, by simpa [World.dropSender, hu] using hc, hd, ho⟩
  | give e t rest w hl hs =>
    refine h.mono ?_ ?_ ?_ fun _ _ hl => hl
    · rintro u a ⟨hb, c, hc, hd, ho⟩
      exact send hs hc hd ho hb
    · rw [show w.octx = ctx.world.octx from World.send_octx hs]
    · rw [show w.octx = ctx.world.octx from World.send_octx hs]
  | buffer e _ => exact h.mono id rfl rfl fun _ _ hl => hl
  | _ => exact h

namespace OrchestrationExecutorFuture

variable {self : OrchestrationExecutorFuture} {events : List HistoryEvent}

theorem Turn.start_fresh {e : ExecutionStartedEvent} (ht : self.Turn ctx (.start e) ctx')
    (h : ctx.Fresh 0) : ctx'.Fresh 0 := by
  obtain rfl | ⟨func, w, -, hsteps, ⟨s, -, rfl⟩ | ⟨r, -, rfl⟩⟩ := ht.start_cases
  · exact h
  · have hfresh : ({ ctx with
        world := { ctx.world with octx := .new self.instanceId e.input, notified := false } } :
        OrchestrationExecutorContext).Fresh ctx.world.cells.length := by
      have dead {t : ℕ} {a : OrchestratorAction}
          (hl : Live ctx.world.cells ctx.world.cells.length t a) : False := by
        obtain ⟨hb, c, hc, -⟩ := hl
        exact absurd (List.getElem?_eq_some_iff.mp hc).1 (Nat.not_lt.mpr hb)
      exact ⟨fun hl => (dead hl).elim, fun m hm => (by cases hm), fun hl => (dead hl).elim,
        fun hl => (dead hl).elim⟩
    refine (hfresh.steps hsteps).mono ?_ rfl rfl fun _ _ hl => hl
    rintro t a ⟨-, c, hc, hdr, ho⟩
    rw [World.dropBefore_cells] at hc
    split at hc
    · obtain ⟨c₁, -, rfl⟩ := Option.map_eq_some_iff.mp hc
      cases hdr
    · exact ⟨by omega, c, hc, hdr, ho⟩
  · refine h.mono ?_ rfl rfl fun _ _ hl => hl
    rintro t a ⟨-, c, hc, hdr, ho⟩
    have hlt := World.dropFrom_live hc hdr
    obtain ⟨c₂, hc₂, he₂⟩ := World.dropFrom_source hc
    obtain ⟨c₁, hc₁, he₁⟩ := hsteps.cells (List.getElem?_eq_getElem hlt)
    rw [hc₂] at hc₁
    cases hc₁
    exact ⟨Nat.zero_le t, _, List.getElem?_eq_getElem hlt, he₁.live (he₂.live hdr),
      he₁.origin ▸ he₂.origin ▸ ho⟩

theorem processEvent_fresh {e : HistoryEvent} (hr : ctx.Regular) (h : ctx.Fresh 0)
    (he : self.processEvent ctx e = .ok ctx') : ctx'.Fresh 0 := by
  obtain ⟨s, -, ht⟩ | ⟨-, ctx₁, hdel, hm⟩ := processEvent_cases hr.incomplete he
  · exact ht.start_fresh h
  · exact hm.fresh (hdel.fresh h)

theorem fresh_new (budget : Budget) : (new budget).Fresh 0 := by
  have dead {t : ℕ} {a : OrchestratorAction} (hl : Live (new budget).world.cells 0 t a) :
      False := by
    obtain ⟨-, c, hc, -⟩ := hl
    cases hc
  constructor
  · intro t a hl
    exact (dead hl).elim
  · intro m hm
    cases hm
  · intro t a hl
    exact (dead hl).elim
  · intro t a hl
    exact (dead hl).elim

theorem replay_fresh (h : self.replay events = .ok ctx) : ctx.Fresh 0 := by
  refine processEvents_induct (P := fun _ ctx => ctx.Fresh 0) (fresh_new _) ?_ h
  intro past e ctx₁ ctx₂ hr hf he
  exact (drain_moves self.env ctx₂).fresh (processEvent_fresh (replay_regular hr) hf he)

end OrchestrationExecutorFuture

end DurableTask
