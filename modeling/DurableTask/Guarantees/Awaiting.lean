import DurableTask.Guarantees.Numbering
import DurableTask.Guarantees.Results
import DurableTask.Invariants.Owned

/-! # Orchestrators that await what they create

A task that an orchestrator drops before it has resolved stays abandoned to the
end of the run. An orchestrator that returns in a poll in which it issues an
action abandons the new task, so one that abandons nothing keeps its ids apart
from those of the executor.
-/

namespace DurableTask

open Interaction OrchestrationExecutorContext

/-- The task at a place of the heap was abandoned. -/
def OrchestrationExecutorContext.AbandonedAt (ctx : OrchestrationExecutorContext) (t : TaskRef) :
    Prop :=
  ∃ c, ctx.world.cells[t]? = some c ∧ c.Abandoned

variable {env : Env} {ctx ctx' : OrchestrationExecutorContext} {t : ℕ}

theorem World.Steps.new_task {w w' : World} (h : World.Steps env w w')
    (hne : w'.octx.sequenceNumber ≠ w.octx.sequenceNumber) :
    ∃ (t : ℕ) (c : Cell) (a : OrchestratorAction), w.cells.length ≤ t ∧ w'.cells[t]? = some c ∧
      c.origin = .action a := by
  induction h with
  | refl => exact absurd rfl hne
  | @tail w₁ w₂ hs h₁ ih =>
    by_cases hne₁ : w₁.octx.sequenceNumber = w.octx.sequenceNumber
    · rw [← hne₁] at hne
      have hle : w.cells.length ≤ w₁.cells.length := World.Steps.length_le hs
      cases h₁ with
      | issue reads mk hid hc => exact ⟨w₁.cells.length, _, _, hle, by simp; rfl, rfl⟩
      | _ => exact absurd rfl hne
    · obtain ⟨t, c, a, ht, hc, ho⟩ := ih hne₁
      obtain ⟨c', hc', he⟩ := h₁.cells hc
      exact ⟨t, c', a, ht, hc', he.origin.trans ho⟩

theorem Delivery.abandoned {k : EventKind} (h : Delivery env ctx k ctx') (ha : ctx.AbandonedAt t) :
    ctx'.AbandonedAt t := by
  obtain ⟨c, hc, ha⟩ := ha
  have send {u : ℕ} {v : Option String} {w : World} (hs : ctx.world.send u v = some w) :
      ∃ c', w.cells[t]? = some c' ∧ c'.Abandoned := by
    obtain ⟨d, hd, hlive, rfl⟩ := World.send_ok hs
    have hu : u ≠ t := by
      rintro rfl
      rw [hc] at hd
      cases hd
      rw [ha.1] at hlive
      cases hlive
    exact ⟨c, by simp [List.getElem?_set_ne hu, hc], ha⟩
  cases h with
  | send id v message polls u w hl hs => exact send hs
  | give e u waiters w hl hs => exact send hs
  | close id message polls u hl =>
    by_cases hu : u = t
    · exact ⟨{ c with task.unblockRx := .closed }, by simp [World.dropSender, hu, hc], ha⟩
    · exact ⟨c, by simp [World.dropSender, hu, hc], ha⟩
  | _ => exact ⟨c, hc, ha⟩

theorem Moves.abandoned (h : Moves env ctx ctx') (ha : ctx.AbandonedAt t) : ctx'.AbandonedAt t := by
  refine h.preserves (P := fun ctx => ctx.AbandonedAt t) ?_ ha
  rintro ctx₁ ctx₂ hm ⟨c, hc, ha⟩
  obtain ⟨c', hc', -, hab, -⟩ := hm.cells hc
  exact ⟨c', hc', hab ha⟩

namespace OrchestrationExecutorFuture

variable {self : OrchestrationExecutorFuture} {e : HistoryEvent}
  {events history : List HistoryEvent} {k : EventKind}

/-- An orchestrator that returns in a poll in which it issues an action abandons the new task. -/
theorem Turn.abandons (h : self.Turn ctx k ctx') (hb : ctx.Based) (hi : self.issues ctx k = true)
    (hr : (self.returns ctx k).isSome) : ∃ t, ctx'.AbandonedAt t := by
  -- the new task waits at the end of the poll, and lies in the part that the program owns
  have dropped {a : Activation} {p : Progress a.1.State (OrchestratorResult String)} {w : World}
      {base : ℕ} (hlen : a.2.cells.length = ctx.world.cells.length)
      (hle : base ≤ ctx.world.cells.length) (ha : a.issues self.env = true)
      (hrun : a.run self.env = .ok (p, w)) :
      ∃ (t : ℕ) (c : Cell), (w.dropFrom base).cells[t]? = some c ∧ c.Abandoned := by
    have hne : w.octx.sequenceNumber ≠ a.2.octx.sequenceNumber := by
      simpa [Activation.issues, hrun] using ha
    obtain ⟨t, c, b, ht, hc, ho⟩ := World.Steps.new_task (run_steps hrun) hne
    have hw := (newborn_length a.2).steps (run_steps hrun) t c b ht hc ho
    refine ⟨t, c.drop, ?_, rfl, hw.2⟩
    rw [World.dropFrom_cells, if_neg (by omega), hc]
    rfl
  cases h with
  | rest hd ha hk => simp [issues, ha] at hi
  | tick timestamp currentTimeUtc => cases hi
  | terminate => cases hi
  | acknowledge id => cases hi
  | unknown e he => simp [issues, activation, he] at hi
  | suspend hd hfn ha hrun => simp [returns, ha, Activation.returns_suspended hrun] at hr
  | begin he hrun => simp [returns, activation, he, Activation.returns_suspended hrun] at hr
  | report hk hd hfn ha hrun =>
    simp only [issues, ha, Option.any_some] at hi
    exact dropped hd.length (hb _ _ (hd.orchestratorFn ▸ hfn)) hi hrun
  | discard hfn hrun =>
    simp only [issues, activation, program, hfn, Option.any_some] at hi
    exact dropped rfl (hb _ _ hfn) hi hrun
  | forget he hrun =>
    simp only [issues, activation, he, Option.map_some, Option.any_some] at hi
    exact dropped rfl (Nat.le_refl _) hi hrun

theorem processEvent_abandoned (hr : ctx.Regular) (he : self.processEvent ctx e = .ok ctx')
    (ha : ctx.AbandonedAt t) : ctx'.drain.AbandonedAt t := by
  apply Moves.abandoned (drain_moves self.env ctx')
  obtain ⟨s, -, ht⟩ | ⟨-, ctx₁, hdel, hm⟩ := processEvent_cases hr.incomplete he
  · obtain ⟨c, hc, ha⟩ := ha
    obtain ⟨c', hc', he'⟩ := ht.start_evolves hc
    exact ⟨c', hc', he'.abandoned ha⟩
  · exact Moves.abandoned hm (hdel.abandoned ha)

theorem processEvents_abandoned (hr : ctx.Regular) (he : self.processEvents ctx events = .ok ctx')
    (ha : ctx.AbandonedAt t) : ctx'.AbandonedAt t :=
  processEvents_induct (P := fun _ ctx => ctx.AbandonedAt t) ha
    (fun _ _ _ _ h₁ ha he => processEvent_abandoned (processEvents_regular hr h₁) he ha) he

theorem replay_completionStatus (h : self.replay history = .ok ctx)
    (hk : ∀ e ∈ history, e.kind ≠ .terminate) : ctx.completionStatus = .running := by
  revert hk
  refine processEvents_induct (P := fun history ctx => (∀ e ∈ history, e.kind ≠ .terminate) →
    ctx.completionStatus = .running) (fun _ => rfl) ?_ h
  intro past e ctx₁ ctx₂ hr ih he hk
  have hreg := replay_regular hr
  obtain ⟨n, l, lost, hb⟩ := processEvent_entries hreg.drained hreg.incomplete he
  rw [hb.completionStatus, if_neg (hk e (by simp)), ih fun e' he' => hk e' (by simp [he'])]

theorem replay_apart (h : self.replay history = .ok ctx)
    (hk : ∀ e ∈ history, e.kind ≠ .terminate) (ha : ∀ t, ¬ctx.AbandonedAt t) :
    self.Throughout self.Apart (.new self.env.budget) history := by
  refine .intro fun past e later ctx₁ hs h₁ hi => ⟨?_, fun hret => ?_⟩
  · rw [replay_completionStatus h₁ fun e' he' => hk e' (by simp [hs, he'])]
    simp
  · rw [hs, replay, processEvents_append_ok h₁] at h
    obtain ⟨ctx₂, he, h₂⟩ := processEvents_cons_split h
    have hr := replay_regular h₁
    obtain ⟨t, hab⟩ :=
      (processEvent_turn hr.incomplete he).abandons (replay_based h₁) hi hret
    exact absurd (processEvents_abandoned (processEvent_regular hr he) h₂
      (Moves.abandoned (drain_moves self.env ctx₂) hab)) (ha t)

end OrchestrationExecutorFuture

end DurableTask
