import DurableTask.Executor.Drain

/-! # Queues of waiters and of events

A name is entered with its first waiter or event and removed with its last, so
no queue between two events is empty, and none is when the program takes from
it.
-/

namespace DurableTask

open Interaction Queues OrchestrationExecutorContext

/-- No queue of waiters and no queue of buffered events is empty. -/
structure OrchestrationExecutorContext.Queued (ctx : OrchestrationExecutorContext) : Prop where
  waiters : ctx.pendingEvents.Filled
  events : ctx.world.receivedEvents.Filled

variable {env : Env} {ctx ctx' : OrchestrationExecutorContext} {w w' : World}

theorem World.Step.filled (h : World.Step env w w') (hq : w.receivedEvents.Filled) :
    w'.receivedEvents.Filled := by
  cases h with
  | take name payload received hl => exact hq.pop
  | _ => exact hq

theorem World.Steps.filled (h : World.Steps env w w') (hq : w.receivedEvents.Filled) :
    w'.receivedEvents.Filled :=
  h.preserves (fun _ _ hs hq => hs.filled hq) hq

theorem Move.queued (hm : Move env ctx ctx') (h : ctx.Queued) : ctx'.Queued := by
  cases hm with
  | step base f w hfn hs => exact ⟨h.waiters, hs.filled h.events⟩
  | takeAction m rest hm =>
    rw [takeAction_eq]
    exact ⟨h.waiters, h.events⟩
  | takeTask m rest hm =>
    refine ⟨h.waiters, ?_⟩
    rw [takeTask_receivedEvents]
    exact h.events
  | takeWaiter m rest hm => exact ⟨h.waiters.push, h.events⟩
  | _ => exact ⟨h.waiters, h.events⟩

theorem Moves.queued (hm : Moves env ctx ctx') (h : ctx.Queued) : ctx'.Queued :=
  hm.preserves (fun _ _ hm h => hm.queued h) h

theorem Delivery.queued {k : EventKind} (hd : Delivery env ctx k ctx') (h : ctx.Queued) :
    ctx'.Queued := by
  cases hd with
  | send id v message polls t w hl hs =>
    obtain ⟨c, -, -, rfl⟩ := World.send_ok hs
    exact ⟨h.waiters, h.events⟩
  | give e t waiters w hl hs =>
    obtain ⟨c, -, -, rfl⟩ := World.send_ok hs
    exact ⟨h.waiters.pop, h.events⟩
  | buffer e hl => exact ⟨h.waiters, h.events.push⟩
  | _ => exact ⟨h.waiters, h.events⟩

namespace OrchestrationExecutorFuture

variable {self : OrchestrationExecutorFuture} {e : HistoryEvent} {history : List HistoryEvent}

theorem processEvent_queued (hc : ctx.isComplete = false) (h : ctx.Queued)
    (he : self.processEvent ctx e = .ok ctx') : ctx'.Queued := by
  obtain ⟨s, -, ht⟩ | ⟨-, ctx₁, hd, hm⟩ := processEvent_cases hc he
  · obtain rfl | ⟨func, w, -, hs, ⟨s, -, rfl⟩ | ⟨r, -, rfl⟩⟩ := ht.start_cases
    · exact h
    · exact ⟨h.waiters, hs.filled h.events⟩
    · exact ⟨h.waiters, hs.filled h.events⟩
  · exact hm.queued (hd.queued h)

/-- Between two events no queue is empty. -/
theorem replay_queued (h : self.replay history = .ok ctx) : ctx.Queued := by
  refine processEvents_induct (P := fun _ ctx => ctx.Queued) ?_ ?_ h
  · exact ⟨Keyed.filled_empty, Keyed.filled_empty⟩
  · intro past e ctx₁ ctx₂ hr hq he
    exact (drain_moves self.env ctx₂).queued (processEvent_queued (replay_isComplete hr) hq he)

end OrchestrationExecutorFuture

end DurableTask
