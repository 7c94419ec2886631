import DurableTask.Executor.Ledger

/-! # What stands of a run

An event may acknowledge the action under an id or enter another in its place.
What is pending after a run are the actions that no later event did this to.
-/

namespace DurableTask

open OrchestrationExecutorContext

namespace OrchestrationExecutorFuture

variable {self : OrchestrationExecutorFuture} {ctx ctx' : OrchestrationExecutorContext}
  {past history : List HistoryEvent} {e : HistoryEvent} {id : Int} {a : OrchestratorAction}

def entersUnder (executor : OrchestrationExecutorFuture) (id : Int)
    (ctx : OrchestrationExecutorContext) (e : HistoryEvent) : Option OrchestratorAction :=
  (executor.enters ctx e.kind).reverse.lookup id

/-- The event acknowledges the id or enters an action under it. -/
def Clears (executor : OrchestrationExecutorFuture) (id : Int) (ctx : OrchestrationExecutorContext)
    (e : HistoryEvent) : Prop :=
  e.kind = .acknowledge id ∨ (executor.entersUnder id ctx e).isSome

/-- Some event enters the action under the id, and no later event clears the id. -/
def Stands (executor : OrchestrationExecutorFuture) (history : List HistoryEvent) (id : Int)
    (a : OrchestratorAction) : Prop :=
  ∃ past e later ctx ctx₁, history = past ++ e :: later ∧ executor.replay past = .ok ctx ∧
    executor.replay (past ++ [e]) = .ok ctx₁ ∧ executor.entersUnder id ctx e = some a ∧
    executor.Throughout (fun ctx e => ¬executor.Clears id ctx e) ctx₁ later

theorem Entries.lookup_iff {n : Int} {l lost : List OrchestratorAction}
    (h : self.Entries ctx e.kind ctx' n l lost) : ctx'.pendingActions.lookup id = some a ↔
      self.entersUnder id ctx e = some a ∨
        ¬self.Clears id ctx e ∧ ctx.pendingActions.lookup id = some a := by
  have hlookup : ctx'.pendingActions.lookup id =
      (self.entersUnder id ctx e).or ((e.kind.acked ctx.pendingActions).lookup id) := by
    rw [h.pendingActions, lookup_insertAll_eq, ← h.sent]
    rfl
  rw [hlookup, Clears]
  cases self.entersUnder id ctx e with
  | some b => simp
  | none =>
    by_cases hk : e.kind = .acknowledge id
    · simp [hk, EventKind.acked, AList.lookup_erase]
    · simp [hk, EventKind.lookup_acked hk]

theorem stands_nil : ¬self.Stands [] id a := by
  rintro ⟨past, e, later, ctx, ctx₁, h, -⟩
  cases past <;> cases h

/-- What stands after one more event: what it enters last, or what stood and is not cleared. -/
theorem stands_snoc (h : self.replay past = .ok ctx) (he : self.processEvent ctx e = .ok ctx') :
    self.Stands (past ++ [e]) id a ↔ self.entersUnder id ctx e = some a ∨
      ¬self.Clears id ctx e ∧ self.Stands past id a := by
  constructor
  · rintro ⟨past', e', later, ctx₁, ctx₂, hs, h₁, h₂, hent, hthrough⟩
    rcases List.eq_nil_or_concat' later with rfl | ⟨later, e₁, rfl⟩
    · obtain ⟨rfl, hee⟩ := List.append_inj' hs rfl
      cases hee
      cases h.symm.trans h₁
      exact .inl hent
    · rw [← List.cons_append, ← List.append_assoc] at hs
      obtain ⟨rfl, hee⟩ := List.append_inj' hs rfl
      cases hee
      rw [List.append_cons, replay, processEvents_append_ok h₂] at h
      exact .inr ⟨(hthrough.right h).1, _, _, _, _, _, rfl, h₁, h₂, hent, hthrough.left⟩
  · rintro (hent | ⟨hclear, past', e', later, ctx₁, ctx₂, rfl, h₁, h₂, hent, hthrough⟩)
    · exact ⟨past, e, [], ctx, _, rfl, h, replay_append_ok h he, hent, trivial⟩
    · rw [List.append_cons, replay, processEvents_append_ok h₂] at h
      exact ⟨past', e', later ++ [e], ctx₁, ctx₂, by simp, h₁, h₂, hent,
        hthrough.snoc h hclear⟩

theorem replay_stands (h : self.replay history = .ok ctx) :
    ctx.pendingActions.lookup id = some a ↔ self.Stands history id a := by
  refine processEvents_induct (P := fun history ctx =>
    ctx.pendingActions.lookup id = some a ↔ self.Stands history id a) ?_ ?_ h
  · exact iff_of_false (fun hl => by cases hl) stands_nil
  · intro past e ctx₁ ctx₂ hr ih he
    obtain ⟨n, l, lost, hb⟩ := processEvent_entries (replay_drained hr) (replay_isComplete hr) he
    rw [hb.lookup_iff, stands_snoc hr he, ih]

end OrchestrationExecutorFuture

end DurableTask
