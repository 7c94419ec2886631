import DurableTask.Guarantees.Durability
import DurableTask.Interaction.Endless

/-! # Orchestrators that continue as new

`continue_as_new` is given the new input, and what it returns is never ready. So
an orchestrator that awaits it does not start over: it stays suspended for good,
and the executor reports no outcome for it.
-/

namespace DurableTask

open Interaction OrchestrationExecutorContext Text

/-- The orchestrator awaits `continue_as_new`, after anything and before anything. -/
def OrchestratorFunction.Restarts (func : OrchestratorFunction) : Prop :=
  ∃ (A B O : Type) (toJson : O → Except String String)
    (first : String → Option String → TaskFuture A) (newInput : A → B) (saveEvents : Bool)
    (later : A → Unit → TaskFuture (OrchestratorResult O)),
    func = .new toJson fun instanceId input => (first instanceId input).bind fun a =>
      (continueAsNew (newInput a) saveEvents).bind (later a)

theorem OrchestratorFunction.Restarts.endless {func : OrchestratorFunction} (h : func.Restarts)
    (instanceId : String) (input : Option String) :
    (func.call instanceId input).Endless (func.call instanceId input).state := by
  obtain ⟨A, B, O, toJson, first, newInput, saveEvents, later, rfl⟩ := h
  have hrest (a : A) : ((continueAsNew (newInput a) saveEvents).bind (later a)).Endless
      ((continueAsNew (newInput a) saveEvents).bind (later a)).state :=
    Future.endless_pending.bind
  exact (Future.endless_bind hrest (first instanceId input).state).map _

namespace OrchestrationExecutorFuture

variable {self : OrchestrationExecutorFuture} {ctx ctx' : OrchestrationExecutorContext}
  {k : EventKind} {history : List HistoryEvent}

/-- The orchestrators that the events start restart. -/
def Restarts (executor : OrchestrationExecutorFuture) (history : List HistoryEvent) : Prop :=
  ∀ e ∈ history, ∀ s func, e.kind = .start s →
    executor.registry.getOrchestrator s.name = some func → func.Restarts

/-- Nothing has returned, and what is suspended will not. -/
structure Stays (ctx : OrchestrationExecutorContext) : Prop where
  unreturned : ctx.world.returned = []
  program : ∀ base f, ctx.orchestratorFn = some (.suspended base f) → f.Endless f.state

theorem Stays.of_eq (h : Stays ctx) (hfn : ctx'.orchestratorFn = ctx.orchestratorFn)
    (hret : ctx'.world.returned = ctx.world.returned) : Stays ctx' :=
  ⟨hret.trans h.unreturned, fun base f hf => h.program base f (hfn ▸ hf)⟩

theorem Turn.stays (ht : self.Turn ctx k ctx') (h : Stays ctx)
    (hk : ∀ s func, k = .start s → self.registry.getOrchestrator s.name = some func →
      func.Restarts) : Stays ctx' := by
  -- a poll of an endless future suspends it in a state in which it is endless
  have suspended {f : TaskFuture (OrchestratorResult String)} {w w' : World}
      {p : Progress f.State (OrchestratorResult String)} (hf : f.Endless f.state)
      (hrun : Activation.run self.env (f, w) = .ok (p, w')) :
      p.Suspends f.Endless ∧ w'.returned = w.returned :=
    ⟨hf.poll.run hrun, (run_steps hrun).returned⟩
  cases ht with
  | rest hd => exact h.of_eq hd.orchestratorFn hd.books.2.2.2.2.2
  | tick timestamp => exact h.of_eq rfl rfl
  | terminate =>
    obtain ⟨hfn, hw⟩ := executionTerminated_frame ctx
    exact h.of_eq hfn (by rw [hw])
  | acknowledge id => exact h.of_eq rfl rfl
  | suspend hd hfn _ hrun =>
    have hstays := h.of_eq hd.orchestratorFn hd.books.2.2.2.2.2
    obtain ⟨hs, hret⟩ := suspended (hstays.program _ _ hfn) hrun
    refine ⟨hret.trans hstays.unreturned, fun base f hf => ?_⟩
    cases hf
    exact hs
  | report _ hd hfn _ hrun =>
    have hstays := h.of_eq hd.orchestratorFn hd.books.2.2.2.2.2
    exact (suspended (hstays.program _ _ hfn) hrun).1.elim
  | discard hfn hrun => exact (suspended (h.program _ _ hfn) hrun).1.elim
  | unknown => exact h
  | begin hreg hrun =>
    obtain ⟨hs, hret⟩ := suspended ((hk _ _ rfl hreg).endless _ _) hrun
    refine ⟨hret.trans h.unreturned, fun base f hf => ?_⟩
    cases hf
    exact hs
  | forget hreg hrun => exact (suspended ((hk _ _ rfl hreg).endless _ _) hrun).1.elim

theorem replay_stays (hrestarts : self.Restarts history) (h : self.replay history = .ok ctx) :
    Stays ctx := by
  revert hrestarts
  refine processEvents_induct (P := fun history ctx => self.Restarts history → Stays ctx) ?_ ?_ h
  · exact fun _ => ⟨rfl, fun base f hf => by cases hf⟩
  · intro past e ctx₁ ctx₂ hr ih he hrestarts
    have hturn := (processEvent_turn (replay_isComplete hr) he).stays
      (ih fun e he => hrestarts e (List.mem_append_left _ he)) fun s func =>
        hrestarts e (by simp) s func
    exact hturn.of_eq drain_orchestratorFn (drain_frame ctx₂).2.2

/--
An orchestrator that awaits `continue_as_new` is never reported, neither as continued as new nor
in any other way, whatever the history: only a termination completes it.
-/
theorem continueAsNew_stays {oldEvents newEvents : List HistoryEvent}
    {actions : List OrchestratorAction} (hrestarts : self.Restarts (oldEvents ++ newEvents))
    (h : self.execute oldEvents newEvents = .ok actions) : ∀ a ∈ actions, a.isComplete = true →
      (∃ e ∈ oldEvents ++ newEvents, e.kind = .terminate) ∧
        a = newCompleteOrchestrationAction a.id .terminated none [] none := by
  obtain ⟨ctx, hr, rfl⟩ := execute_ok h
  have hstays := replay_stays hrestarts hr
  intro a ha hc
  obtain ⟨id, hl⟩ := mem_getActions.mp ha
  rw [replay_keyed hr id a hl]
  rcases replay_pending hr id a hl with ⟨-, hi⟩ | ⟨r, hret, -⟩ | hterminated
  · rw [hi] at hc
    cases hc
  · rw [hstays.unreturned] at hret
    cases hret
  · exact hterminated

def eternal : OrchestratorFunction :=
  stringOrchestrator ((callActivity jsonString fromJsonString "" "check" "a").bind fun r =>
    (continueAsNew r true).bind fun _ => .ready (.ok (.output "done")))

theorem eternal_stays :
    (∃ e ∈ [executionStarted, taskScheduled 1] ++ [taskCompleted 1 (some "\"a\""),
      executionTerminatedEvent], e.kind = .terminate) ∧
    newCompleteOrchestrationAction 2 .terminated none [] none =
      newCompleteOrchestrationAction 2 .terminated none [] none := by
  have hrestarts : (executorOf eternal).Restarts ([executionStarted, taskScheduled 1] ++
      [taskCompleted 1 (some "\"a\""), executionTerminatedEvent]) := by
    intro e _ s func _ hreg
    rw [eq_of_registered hreg]
    exact ⟨_, _, _, jsonString, fun _ _ => callActivity jsonString fromJsonString "" "check" "a",
      fun r => r, true, fun _ _ => .ready (.ok (.output "done")), rfl⟩
  have h : (executorOf eternal).execute [executionStarted, taskScheduled 1]
      [taskCompleted 1 (some "\"a\""), executionTerminatedEvent] =
        .ok [newCompleteOrchestrationAction 2 .terminated none [] none] := by decide
  exact continueAsNew_stays hrestarts h _ (List.mem_singleton_self _) rfl

end OrchestrationExecutorFuture

end DurableTask
