import DurableTask.Executor.Turns
import DurableTask.Invariants.Resting
import Mathlib.Data.Finset.Card

/-! # What the budget has room for

A receiver that has something to yield takes one unit of the budget of the tokio
task when it is polled. While every value finds room when it is handed over, the
budget outlasts what is still in the channels, so a receiver is never held up.
-/

namespace DurableTask

open Interaction OrchestrationExecutorContext

def Cell.loaded (c : Cell) : Bool :=
  !c.dropped && !c.task.completed &&
    match c.task.unblockRx with
    | .sent _ => true
    | .closed => true
    | _ => false

theorem Cell.loaded_new (origin : Origin) : (Cell.new origin).loaded = false := rfl

/-- What a poll takes from a channel it pays for. -/
theorem Cell.poll_loaded {c c' : Cell} {b b' : Budget} {r : Poll String}
    (h : c.poll b = .ok (r, c', b')) :
    c'.loaded = c.loaded ∧ b' = b ∨
      c.loaded = true ∧ c'.loaded = false ∧ ¬b.exhausted ∧ b' = b.spend := by
  obtain ⟨origin, ⟨completed, result, rx⟩, dropped, outcome⟩ := c
  cases dropped with
  | true => cases h
  | false =>
    cases completed with
    | true =>
      cases result with
      | none => cases h
      | some v => cases h; exact .inl ⟨rfl, rfl⟩
    | false =>
      simp only [Cell.poll, CompletableTask.poll, Bool.false_eq_true, ↓reduceIte] at h
      by_cases hb : b.exhausted
      · cases rx <;> simp [Oneshot.poll, hb] at h <;> obtain ⟨-, rfl, rfl⟩ := h <;>
          exact .inl ⟨rfl, rfl⟩
      · rcases rx with _ | (_ | _) | _ | _ <;> simp [Oneshot.poll, hb] at h <;>
          obtain ⟨-, rfl, rfl⟩ := h
        · exact .inl ⟨rfl, rfl⟩
        · exact .inr ⟨rfl, rfl, hb, rfl⟩
        · exact .inr ⟨rfl, rfl, hb, rfl⟩

namespace World

variable {env : Env} {w w' : World} {t : TaskRef} {c : Cell}

def unreceived (w : World) : Finset TaskRef :=
  (Finset.range w.cells.length).filter fun t => w.cells[t]?.any Cell.loaded

theorem mem_unreceived : t ∈ w.unreceived ↔ ∃ c, w.cells[t]? = some c ∧ c.loaded = true := by
  rw [unreceived, Finset.mem_filter, Finset.mem_range, Option.any_eq_true]
  exact and_iff_right_of_imp fun ⟨c, hc, _⟩ => (List.getElem?_eq_some_iff.mp hc).1

/-- The budget pays for all that was handed over. -/
def Funded (w : World) : Prop := ∀ n ∈ w.budget, w.unreceived.card ≤ n

theorem Funded.mono (h : w.Funded) (hb : w'.budget = w.budget)
    (hsub : w'.unreceived ⊆ w.unreceived) : w'.Funded := fun n hn =>
  (Finset.card_le_card hsub).trans (h n (hb ▸ hn))

theorem Funded.of_cells (h : w.Funded) (hb : w'.budget = w.budget)
    (hcells : ∀ (t : TaskRef) (c' : Cell), w'.cells[t]? = some c' → c'.loaded = true →
      ∃ c : Cell, w.cells[t]? = some c ∧ c.loaded = true) : w'.Funded :=
  h.mono hb fun t ht => by
    obtain ⟨c', hc', hl⟩ := mem_unreceived.mp ht
    exact mem_unreceived.mpr (hcells t c' hc' hl)

theorem Funded.append (h : w.Funded) (hb : w'.budget = w.budget) (hc : w'.cells = w.cells ++ [c])
    (hl : c.loaded = false) : w'.Funded := by
  refine h.of_cells hb fun u d hd hloaded => ?_
  rw [hc, List.getElem?_append] at hd
  split at hd
  · exact ⟨d, hd, hloaded⟩
  · rw [List.mem_singleton.mp (List.mem_of_getElem? hd), hl] at hloaded
    cases hloaded

theorem Step.funded (hs : Step env w w') (h : w.Funded) : w'.Funded := by
  cases hs with
  | issue reads mk _ _ => exact h.append rfl rfl (Cell.loaded_new _)
  | take name payload received _ => exact h.append rfl rfl rfl
  | wait name _ => exact h.append rfl rfl (Cell.loaded_new _)
  | drop t =>
    refine h.of_cells rfl fun u d hd hl => ?_
    by_cases hu : t = u
    · subst hu
      obtain ⟨c, -, rfl⟩ := Option.map_eq_some_iff.mp
        (show w.cells[t]?.map Cell.drop = some d by simpa [dropTask] using hd)
      cases hl
    · exact ⟨d, by simpa [dropTask, hu] using hd, hl⟩
  | poll t c c' r b hc hp =>
    have hlt := (List.getElem?_eq_some_iff.mp hc).1
    have other {u : TaskRef} {d : Cell} (hu : t ≠ u) (hd : (w.cells.set t c')[u]? = some d) :
        w.cells[u]? = some d := by rwa [List.getElem?_set_ne hu] at hd
    have this {d : Cell} (hd : (w.cells.set t c')[t]? = some d) : c' = d := by
      simpa [hlt] using hd
    rcases Cell.poll_loaded hp with ⟨hl, rfl⟩ | ⟨hl, hl', hb, rfl⟩
    · refine h.of_cells rfl fun u d hd hloaded => ?_
      by_cases hu : t = u
      · subst hu
        exact ⟨c, hc, by rw [← hl, this hd, hloaded]⟩
      · exact ⟨d, other hu hd, hloaded⟩
    · intro n hn
      obtain ⟨m, hm, rfl⟩ := Option.map_eq_some_iff.mp (show w.budget.map (· - 1) = some n from hn)
      have hsub : ({ w with cells := w.cells.set t c', budget := w.budget.spend } :
          World).unreceived ⊆ w.unreceived.erase t := by
        intro u hu
        obtain ⟨d, hd, hloaded⟩ := mem_unreceived.mp hu
        have hne : t ≠ u := by
          rintro rfl
          rw [← this hd, hl'] at hloaded
          cases hloaded
        exact Finset.mem_erase.mpr ⟨hne.symm, mem_unreceived.mpr ⟨d, other hne hd, hloaded⟩⟩
      have hcard := Finset.card_le_card hsub
      rw [Finset.card_erase_of_mem (mem_unreceived.mpr ⟨c, hc, hl⟩)] at hcard
      exact hcard.trans (Nat.sub_le_sub_right (h m hm) 1)

theorem Steps.funded (hs : Steps env w w') (h : w.Funded) : w'.Funded :=
  hs.preserves (fun _ _ hs h => hs.funded h) h

theorem Funded.dropFrom {base : ℕ} (h : w.Funded) : (w.dropFrom base).Funded := by
  refine h.of_cells rfl fun t d hd hl => ?_
  rw [dropFrom_cells] at hd
  split at hd
  · exact ⟨d, hd, hl⟩
  · obtain ⟨c, -, rfl⟩ := Option.map_eq_some_iff.mp hd
    cases hl

theorem Funded.dropBefore {base : ℕ} (h : w.Funded) : (w.dropBefore base).Funded := by
  refine h.of_cells rfl fun t d hd hl => ?_
  rw [dropBefore_cells] at hd
  split at hd
  · obtain ⟨c, -, rfl⟩ := Option.map_eq_some_iff.mp hd
    cases hl
  · exact ⟨d, hd, hl⟩

theorem funded_of_room (hroom : ∀ n ∈ w.budget, w.unreceived.card + 1 ≤ n)
    (hb : w'.budget = w.budget) (hcells : ∀ u, t ≠ u → w'.cells[u]? = w.cells[u]?) :
    w'.Funded := by
  have hsub : w'.unreceived ⊆ insert t w.unreceived := by
    intro u hu
    obtain ⟨c, hc, hl⟩ := mem_unreceived.mp hu
    by_cases ht : t = u
    · exact Finset.mem_insert.mpr (.inl ht.symm)
    · exact Finset.mem_insert_of_mem (mem_unreceived.mpr ⟨c, hcells u ht ▸ hc, hl⟩)
  exact fun n hn => (Finset.card_le_card hsub).trans
    ((Finset.card_insert_le t w.unreceived).trans (hroom n (hb ▸ hn)))

theorem Funded.not_exhausted (h : w.Funded) (hc : w.cells[t]? = some c) (hl : c.loaded = true) :
    ¬w.budget.exhausted := fun hx =>
  Nat.not_lt.mpr (h 0 hx) (Finset.card_pos.mpr ⟨t, mem_unreceived.mpr ⟨c, hc, hl⟩⟩)

theorem Funded.rests (h : w.Funded) (b : Budget) : w.Rests { w with budget := b } := by
  refine ⟨le_rfl, fun {t c} _ hc hr => ⟨c, hc, ?_⟩⟩
  rw [Cell.ripe_iff] at hr ⊢
  refine ⟨hr.1, hr.2.imp_right ?_⟩
  rintro ⟨hcompleted, ⟨v, hv⟩, -⟩
  exact ⟨hcompleted, ⟨v, hv⟩, h.not_exhausted hc (by simp [Cell.loaded, hr.1, hcompleted, hv])⟩

end World

variable {env : Env} {ctx ctx' : OrchestrationExecutorContext}

namespace OrchestrationExecutorFuture

variable {self : OrchestrationExecutorFuture} {e : HistoryEvent} {history : List HistoryEvent}

def takesSender (executor : OrchestrationExecutorFuture) (ctx : OrchestrationExecutorContext) :
    EventKind → Bool
  | .resolve id _ _ _ => (ctx.pendingTasks.lookup id).isSome
  | .raise r => (ctx.pendingEvents.lookup (executor.env.toLowercase r.name)).isSome
  | _ => false

/-- What was handed over and is not received yet, and what the event hands over, find room. -/
def Affordable (executor : OrchestrationExecutorFuture) (ctx : OrchestrationExecutorContext)
    (e : HistoryEvent) : Prop :=
  ∀ n ∈ ctx.world.budget, ctx.world.unreceived.card + (executor.takesSender ctx e.kind).toNat ≤ n

instance (executor : OrchestrationExecutorFuture) (ctx : OrchestrationExecutorContext)
    (e : HistoryEvent) : Decidable (executor.Affordable ctx e) :=
  inferInstanceAs (Decidable (∀ n ∈ ctx.world.budget, _ ≤ n))

theorem Affordable.funded (h : self.Affordable ctx e) : ctx.world.Funded := fun n hn =>
  (Nat.le_add_right _ _).trans (h n hn)

theorem Affordable.delivery {ctx₁ : OrchestrationExecutorContext} (h : self.Affordable ctx e)
    (hdel : Delivery self.env ctx e.kind ctx₁) : ctx₁.world.Funded := by
  have hroom (htakes : self.takesSender ctx e.kind = true) :
      ∀ n ∈ ctx.world.budget, ctx.world.unreceived.card + 1 ≤ n := fun n hn => by
    simpa [htakes] using h n hn
  have sent {t : TaskRef} {v : Option String} {w : World} (hs : ctx.world.send t v = some w)
      (htakes : self.takesSender ctx e.kind = true) : w.Funded := by
    obtain ⟨c, hc, -, rfl⟩ := World.send_ok hs
    exact World.funded_of_room (hroom htakes) rfl fun u hu => List.getElem?_set_ne hu
  generalize e.kind = k at hdel hroom sent
  cases hdel with
  | send id v message polls t w hl hs => exact sent hs (by simp [takesSender, hl])
  | give r t waiters w hl hs => exact sent hs (by simp [takesSender, hl])
  | close id message polls t hl =>
    refine World.funded_of_room (hroom (by simp [takesSender, hl])) rfl fun u (hu : t ≠ u) => ?_
    simp [World.dropSender, hu]
  | _ => exact h.funded

/-- In a turn that can be afforded the program pays for what it receives. -/
theorem Turn.funded (ht : self.Turn ctx e.kind ctx') (h : self.Affordable ctx e) :
    ctx'.world.Funded := by
  have delivered {ctx₁ : OrchestrationExecutorContext}
      (hdel : Delivery self.env ctx e.kind ctx₁) : ctx₁.world.Funded := h.delivery hdel
  have hfunded := h.funded
  generalize e.kind = k at ht delivered
  cases ht with
  | rest hdel _ _ => exact delivered hdel
  | terminate => exact (executionTerminated_frame ctx).2 ▸ hfunded
  | suspend hdel _ _ hrun =>
    have hw := delivered hdel
    exact (run_steps hrun).funded hw
  | report _ hdel _ _ hrun =>
    have hw := delivered hdel
    exact ((run_steps hrun).funded hw).dropFrom
  | discard _ hrun =>
    have hw : World.Funded { ctx.world with notified := false } := hfunded
    exact ((run_steps hrun).funded hw).dropFrom
  | @begin s func st w _ hrun =>
    have hw : World.Funded
      { ctx.world with octx := .new self.instanceId s.input, notified := false } := hfunded
    exact ((run_steps hrun).funded hw).dropBefore
  | @forget s func r w _ hrun =>
    have hw : World.Funded
      { ctx.world with octx := .new self.instanceId s.input, notified := false } := hfunded
    exact ((run_steps hrun).funded hw).dropFrom
  | _ => exact hfunded

theorem funded_drain (env : Env) (hl : ctx.Linked) (hf : ctx.Fresh 0) (h : ctx.world.Funded) :
    ctx.drain.world.Funded := by
  refine h.of_cells drain_budget fun t c' hc' hloaded => ?_
  have hsame := congrArg (fun l => l[t]?) (@drain_dropped ctx)
  simp only [List.getElem?_map, hc', Option.map_some] at hsame
  obtain ⟨c, hc, hd⟩ := Option.map_eq_some_iff.mp hsame.symm
  have hlive : c'.dropped = false := by
    simp only [Cell.loaded, Bool.and_eq_true, Bool.not_eq_true'] at hloaded
    exact hloaded.1.1
  rw [drain_live env hl hf hc (hd.trans hlive)] at hc'
  cases hc'
  exact ⟨_, hc, hloaded⟩

theorem processEvent_funded (hr : ctx.Regular) (hf : ctx.Fresh 0) (h : self.Affordable ctx e)
    (he : self.processEvent ctx e = .ok ctx') : ctx'.drain.world.Funded :=
  funded_drain self.env (processEvent_linked hr.incomplete hr.drained hr.linked he)
    (processEvent_fresh hr hf he) ((processEvent_turn hr.incomplete he).funded h)

/-- While every event can be afforded, the budget pays for all that was handed over. -/
theorem replay_funded (h : self.replay history = .ok ctx)
    (hk : self.Throughout self.Affordable (.new self.env.budget) history) : ctx.world.Funded := by
  rcases List.eq_nil_or_concat' history with rfl | ⟨past, e, rfl⟩
  · cases h
    exact fun n _ => Nat.zero_le n
  · obtain ⟨ctx₁, h₁, -⟩ := processEvents_split h
    obtain ⟨ctx₂, he, rfl⟩ := replay_snoc h₁ h
    exact processEvent_funded (replay_regular h₁) (replay_fresh h₁) (hk.right h₁).1 he

end OrchestrationExecutorFuture

end DurableTask
