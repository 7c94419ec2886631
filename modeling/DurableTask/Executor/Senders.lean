import DurableTask.Executor.Ledger

/-! # The senders of a turn

Each task that a program creates leaves a sender for the executor. A turn that
does not end the program adds the senders of what the program issued, and takes
the one that a completion event names.
-/

namespace DurableTask

open Interaction OrchestrationExecutorContext

/-- The event is a completion event that names the task with this id. -/
def EventKind.Names (id : Int) : EventKind → Prop
  | .resolve id' _ _ _ => id' = id
  | _ => False

/-- Actions and senders are sent in pairs. -/
def World.Paired (w : World) : Prop :=
  w.octx.tasksTx.map Prod.fst = w.octx.actionsTx.map Prod.fst

section World

variable {env : Env} {w w' : World}

theorem World.Step.paired (h : World.Step env w w') (hp : w.Paired) : w'.Paired := by
  unfold World.Paired at hp ⊢
  cases h with
  | issue reads mk hid _ => simp [hp]
  | _ => exact hp

theorem World.Steps.paired (h : World.Steps env w w') (hp : w.Paired) : w'.Paired :=
  h.preserves (fun _ _ hs hp => hs.paired hp) hp

end World

namespace OrchestrationExecutorContext

variable {ctx : OrchestrationExecutorContext} {id : Int}

theorem mem_foldl_takeTask (l : List (Int × TaskRef)) :
    id ∈ (l.foldl takeTask ctx).pendingTasks ↔ id ∈ l.map Prod.fst ∨ id ∈ ctx.pendingTasks := by
  induction l generalizing ctx with
  | nil => simp
  | cons m l ih =>
    have hm : id ∈ (ctx.takeTask m).pendingTasks ↔ id = m.1 ∨ id ∈ ctx.pendingTasks :=
      AList.mem_insert _
    rw [List.foldl_cons, ih, hm, List.map_cons, List.mem_cons]
    tauto

theorem mem_drain_pendingTasks (hfn : ctx.orchestratorFn.isSome) :
    id ∈ ctx.drain.pendingTasks ↔
      id ∈ ctx.world.octx.tasksTx.map Prod.fst ∨ id ∈ ctx.pendingTasks := by
  have he (ctx : OrchestrationExecutorContext) :
      ctx.drainEvents.pendingTasks = ctx.pendingTasks := by
    obtain ⟨events, h⟩ := foldl_takeWaiter ctx.world.octx.eventsTx
      { ctx with world.octx.eventsTx := [] }
    rw [drainEvents, h]
  simp only [drain, if_pos hfn, he, drainTasks, drainActions, foldl_takeAction, mem_foldl_takeTask]

theorem mem_insertAll {l : List (Int × OrchestratorAction)}
    {actions : AList fun _ : Int => OrchestratorAction} :
    id ∈ insertAll l actions ↔ id ∈ l.map Prod.fst ∨ id ∈ actions := by
  induction l generalizing actions with
  | nil => simp
  | cons m l ih =>
    rw [insertAll_cons, ih, AList.mem_insert, List.map_cons, List.mem_cons]
    tauto

end OrchestrationExecutorContext

theorem EventKind.mem_acked {k : EventKind} {id : Int}
    {actions : AList fun _ : Int => OrchestratorAction} :
    id ∈ k.acked actions ↔ id ∈ actions ∧ k ≠ .acknowledge id := by
  cases k with
  | acknowledge id' =>
    simp only [acked, AList.mem_erase, ne_eq, EventKind.acknowledge.injEq]
    tauto
  | _ => simp [acked]

section Turn

variable {env : Env} {ctx ctx' ctx₁ : OrchestrationExecutorContext} {k : EventKind} {id : Int}

/-- A delivery takes the sender that a completion event names. -/
theorem Delivery.mem_pendingTasks (h : Delivery env ctx k ctx₁) :
    id ∈ ctx₁.pendingTasks ↔ id ∈ ctx.pendingTasks ∧ ¬k.Names id := by
  have erased {id' : Int} : id ∈ ctx.pendingTasks.erase id' ↔
      id ∈ ctx.pendingTasks ∧ ¬id' = id := by
    rw [AList.mem_erase, and_comm, ne_comm]
  cases h with
  | send id' v message polls t w hl hs => exact erased
  | close id' message polls t hl => exact erased
  | miss id' payload message polls hl =>
    have hmem := AList.lookup_eq_none.mp hl
    simp only [EventKind.Names]
    constructor
    · intro hid
      exact ⟨hid, fun he => hmem (he ▸ hid)⟩
    · exact And.left
  | _ => simp [EventKind.Names, bufferEvent]

/-- What an event that does not end the program makes of the map of senders. -/
structure Sent (ctx : OrchestrationExecutorContext) (k : EventKind)
    (ctx' : OrchestrationExecutorContext) (l : List OrchestratorAction) : Prop where
  issued : ctx'.world.issued = ctx.world.issued ++ l
  pendingTasks : ∀ id, id ∈ ctx'.pendingTasks ↔
    id ∈ l.map OrchestratorAction.id ∨ id ∈ ctx.pendingTasks ∧ ¬k.Names id

theorem Sent.of_rest (hd : ctx'.Drained) (hi : ctx'.world.issued = ctx.world.issued)
    (hp : ∀ id, id ∈ ctx'.pendingTasks ↔ id ∈ ctx.pendingTasks ∧ ¬k.Names id) :
    Sent ctx k ctx'.drain [] := by
  rw [drain_of_drained hd]
  constructor
  · rw [hi, List.append_nil]
  · intro id
    rw [hp]
    simp

theorem Sent.of_run {a : Activation} {p : Progress a.1.State (OrchestratorResult String)}
    {w : World} (hfn : ctx'.orchestratorFn.isSome) (hrun : a.run env = .ok (p, w))
    (ha : a.2.octx.actionsTx = []) (ht : a.2.octx.tasksTx = [])
    (hissued : a.2.issued = ctx.world.issued) (hissued' : ctx'.world.issued = w.issued)
    (hoctx : ctx'.world.octx = w.octx)
    (hp : ∀ id, id ∈ ctx'.pendingTasks ↔ id ∈ ctx.pendingTasks ∧ ¬k.Names id) :
    ∃ l, Sent ctx k ctx'.drain l := by
  obtain ⟨l, hl⟩ := Activation.run_issues hrun
  refine ⟨l, ?_, fun id => ?_⟩
  · rw [drain_issued, hissued', hl.issued, hissued]
  · have hpaired : w.Paired := (run_steps hrun).paired (by rw [World.Paired, ha, ht]; rfl)
    rw [World.Paired, hl.sent, ha, List.nil_append, List.map_map] at hpaired
    rw [mem_drain_pendingTasks hfn, hoctx, hpaired, hp]
    rfl

namespace OrchestrationExecutorFuture

variable {self : OrchestrationExecutorFuture}

theorem Turn.sent (hd : ctx.Drained) (hc : ctx.isComplete = false) (h : self.Turn ctx k ctx')
    (hret : self.returns ctx k = none) : ∃ l, Sent ctx k ctx'.drain l := by
  have same (id : Int) (ctx₁ : OrchestrationExecutorContext) (hk : ¬k.Names id)
      (hp : ctx₁.pendingTasks = ctx.pendingTasks) :
      id ∈ ctx₁.pendingTasks ↔ id ∈ ctx.pendingTasks ∧ ¬k.Names id := by
    rw [hp]
    exact (and_iff_left hk).symm
  cases h with
  | rest hdel ha hk =>
    exact ⟨[], .of_rest (hdel.drained hd) hdel.books.2.2.2.2.1 fun _ => hdel.mem_pendingTasks⟩
  | tick timestamp currentTimeUtc =>
    exact ⟨[], .of_rest (hd.of_octx rfl) rfl fun id => same id _ not_false rfl⟩
  | terminate =>
    rw [executionTerminated_eq hc]
    exact ⟨[], .of_rest (hd.of_octx rfl) rfl fun id => same id _ not_false rfl⟩
  | acknowledge id' =>
    exact ⟨[], .of_rest (hd.of_octx rfl) rfl fun id => same id _ not_false rfl⟩
  | unknown e hr => exact ⟨[], .of_rest hd rfl fun id => same id _ not_false rfl⟩
  | suspend hdel hfn ha hrun =>
    have hd₁ := hdel.drained hd
    exact Sent.of_run rfl hrun hd₁.actions hd₁.tasks hdel.books.2.2.2.2.1 rfl rfl
      fun _ => hdel.mem_pendingTasks
  | report hk hdel hfn ha hrun =>
    rw [returns, ha, Option.bind_some, Activation.returns_ready hrun] at hret
    cases hret
  | discard hfn hrun =>
    simp [returns, activation, program, hfn, Activation.returns_ready hrun] at hret
  | begin hr hrun =>
    exact Sent.of_run rfl hrun rfl rfl rfl World.issued_dropBefore rfl
      fun id => same id _ not_false rfl
  | forget hr hrun =>
    simp [returns, activation, hr, Activation.returns_ready hrun] at hret

end OrchestrationExecutorFuture

end Turn

end DurableTask
