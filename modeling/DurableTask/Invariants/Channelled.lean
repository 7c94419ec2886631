import DurableTask.Invariants.Linked

/-! # Values come through the channel

Only a task for a signal that was buffered is resolved from the start. The task
of an action gets its value through its channel, and pays for it when it takes it.
-/

namespace DurableTask

open Interaction OrchestrationExecutorContext

def Cell.Channelled (c : Cell) : Prop :=
  c.task.completed = true → ∃ name, c.origin = .signal name

theorem Cell.poll_completed {c c' : Cell} {b b' : Budget} {r : Poll String}
    (h : c.poll b = .ok (r, c', b')) : c'.task.completed = c.task.completed := by
  obtain ⟨origin, ⟨completed, result, rx⟩, dropped, outcome⟩ := c
  cases dropped with
  | true => cases h
  | false =>
    cases completed with
    | true => cases result <;> cases h; rfl
    | false =>
      simp only [Cell.poll, CompletableTask.poll, Bool.false_eq_true, ↓reduceIte] at h
      by_cases hb : b.exhausted
      · cases rx <;> simp [Oneshot.poll, hb] at h <;> obtain ⟨-, rfl, rfl⟩ := h <;> rfl
      · rcases rx with _ | (_ | _) | _ | _ <;> simp [Oneshot.poll, hb] at h <;>
          obtain ⟨-, rfl, rfl⟩ := h <;> rfl

namespace World

variable {env : Env} {w w' : World}

def Channelled (w : World) : Prop :=
  ∀ (t : TaskRef) (c : Cell), w.cells[t]? = some c → c.Channelled

/-- Tasks keep their origin and are not resolved in place. -/
theorem Channelled.of_cells (h : w.Channelled)
    (hcells : ∀ (t : TaskRef) (c' : Cell), w'.cells[t]? = some c' → ∃ c : Cell,
      w.cells[t]? = some c ∧ c'.origin = c.origin ∧ c'.task.completed = c.task.completed) :
    w'.Channelled := fun t c' hc' => by
  obtain ⟨c, hc, ho, hcompleted⟩ := hcells t c' hc'
  intro htrue
  exact ho ▸ h t c hc (hcompleted ▸ htrue)

theorem Channelled.append {c : Cell} (h : w.Channelled) (hw : w'.cells = w.cells ++ [c])
    (hc : c.Channelled) : w'.Channelled := fun t d hd => by
  rw [hw, List.getElem?_append] at hd
  split at hd
  · exact h t d hd
  · exact List.mem_singleton.mp (List.mem_of_getElem? hd) ▸ hc

theorem Channelled.drop {t : TaskRef} (h : w.Channelled) : (w.dropTask t).Channelled := by
  refine h.of_cells fun u d hd => ?_
  rw [dropTask, List.getElem?_modify] at hd
  obtain ⟨c, hc, rfl⟩ := Option.map_eq_some_iff.mp hd
  exact ⟨c, hc, by split <;> rfl, by split <;> rfl⟩

theorem Channelled.dropSender {t : TaskRef} (h : w.Channelled) : (w.dropSender t).Channelled := by
  refine h.of_cells fun u d hd => ?_
  rw [World.dropSender, List.getElem?_modify] at hd
  obtain ⟨c, hc, rfl⟩ := Option.map_eq_some_iff.mp hd
  exact ⟨c, hc, by split <;> rfl, by split <;> rfl⟩

theorem Channelled.dropFrom {base : ℕ} (h : w.Channelled) : (w.dropFrom base).Channelled := by
  refine h.of_cells fun u d hd => ?_
  rw [dropFrom_cells] at hd
  split at hd
  · exact ⟨d, hd, rfl, rfl⟩
  · obtain ⟨c, hc, rfl⟩ := Option.map_eq_some_iff.mp hd
    exact ⟨c, hc, rfl, rfl⟩

theorem Channelled.dropBefore {base : ℕ} (h : w.Channelled) : (w.dropBefore base).Channelled := by
  refine h.of_cells fun u d hd => ?_
  rw [dropBefore_cells] at hd
  split at hd
  · obtain ⟨c, hc, rfl⟩ := Option.map_eq_some_iff.mp hd
    exact ⟨c, hc, rfl, rfl⟩
  · exact ⟨d, hd, rfl, rfl⟩

theorem Channelled.set {t : TaskRef} {c c' : Cell} (h : w.Channelled)
    (hw : w'.cells = w.cells.set t c') (hc : w.cells[t]? = some c) (ho : c'.origin = c.origin)
    (hcompleted : c'.task.completed = c.task.completed) : w'.Channelled := by
  refine h.of_cells fun u d hd => ?_
  rw [hw] at hd
  by_cases hu : t = u
  · subst hu
    have he : c' = d := by simpa [(List.getElem?_eq_some_iff.mp hc).1] using hd
    exact ⟨c, hc, he ▸ ho, he ▸ hcompleted⟩
  · exact ⟨d, by rwa [List.getElem?_set_ne hu] at hd, rfl, rfl⟩

theorem Step.channelled (hs : Step env w w') (h : w.Channelled) : w'.Channelled := by
  cases hs with
  | issue reads mk _ _ => exact h.append rfl fun hc => by cases hc
  | take name payload received _ => exact h.append rfl fun _ => ⟨_, rfl⟩
  | wait name _ => exact h.append rfl fun hc => by cases hc
  | drop t => exact h.drop
  | poll t c c' r b hc hp => exact h.set rfl hc (Cell.poll_frame hp).1 (Cell.poll_completed hp)

theorem Steps.channelled (hs : Steps env w w') (h : w.Channelled) : w'.Channelled :=
  hs.preserves (fun _ _ hs h => hs.channelled h) h

end World

variable {env : Env} {ctx ctx' : OrchestrationExecutorContext}

theorem Move.channelled (h : Move env ctx ctx') (hctx : ctx.world.Channelled) :
    ctx'.world.Channelled := by
  cases h with
  | step base f w _ hs => exact hs.channelled hctx
  | finish base f r _ => exact hctx.dropFrom
  | takeTask m rest _ =>
    unfold OrchestrationExecutorContext.takeTask
    cases ctx.pendingTasks.lookup m.1 with
    | none => exact hctx
    | some t => exact hctx.dropSender
  | takeAction m rest _ =>
    rw [takeAction_eq]
    exact hctx
  | _ => exact hctx

theorem Delivery.channelled {k : EventKind} (h : Delivery env ctx k ctx')
    (hctx : ctx.world.Channelled) : ctx'.world.Channelled := by
  have sent {t : TaskRef} {v : Option String} {w : World} (hs : ctx.world.send t v = some w) :
      w.Channelled := by
    obtain ⟨c, hc, -, rfl⟩ := World.send_ok hs
    exact hctx.set rfl hc rfl rfl
  cases h with
  | send id v message polls t w hl hs => exact sent hs
  | give r t waiters w hl hs => exact sent hs
  | close id message polls t hl => exact hctx.dropSender
  | _ => exact hctx

namespace OrchestrationExecutorFuture

variable {self : OrchestrationExecutorFuture} {history : List HistoryEvent}

theorem replay_channelled (h : self.replay history = .ok ctx) : ctx.world.Channelled := by
  refine processEvents_induct (P := fun _ ctx => ctx.world.Channelled) ?_ ?_ h
  · intro t c hc
    cases hc
  · intro past e ctx₁ ctx₂ hr ih he
    refine (drain_moves self.env ctx₂).preserves
      (P := fun ctx => ctx.world.Channelled) (fun _ _ hm h => hm.channelled h) ?_
    obtain ⟨s, -, ht⟩ | ⟨-, ctx₃, hd, hm⟩ := processEvent_cases (replay_isComplete hr) he
    · obtain rfl | ⟨func, w, -, hs, ⟨s, -, rfl⟩ | ⟨r, -, rfl⟩⟩ := ht.start_cases
      · exact ih
      · exact (hs.channelled ih).dropBefore
      · exact (hs.channelled ih).dropFrom
    · exact hm.preserves (P := fun ctx => ctx.world.Channelled)
        (fun _ _ hm h => hm.channelled h) (hd.channelled ih)

end OrchestrationExecutorFuture

end DurableTask
