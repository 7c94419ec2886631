import DurableTask.Invariants.Matched
import DurableTask.Runtime.Orchestrators

/-! # External events

The task of an `await_signal_event` resolves with the event of its own rank
among the events of its name. Nothing is lost between the queue of waiters and
the queue of events, unless the orchestrator itself abandons a waiter.
-/

namespace DurableTask

open Interaction Queues OrchestrationExecutorContext

def raised (env : Env) (name : String) (history : List HistoryEvent) : List String :=
  history.filterMap fun e => e.kind.raises env name

theorem raised_append (env : Env) (name : String) (past : List HistoryEvent) (e : HistoryEvent) :
    raised env name (past ++ [e]) = raised env name past ++ (e.kind.raises env name).toList := by
  rw [raised, List.filterMap_append, List.filterMap_cons, List.filterMap_nil]
  cases e.kind.raises env name <;> rfl

/-- The orchestrator has abandoned the task of a signal. -/
def Spoiled (ctx : OrchestrationExecutorContext) : Prop :=
  ∃ (t : ℕ) (c : Cell) (name : String),
    ctx.world.cells[t]? = some c ∧ c.origin = .signal name ∧ c.Abandoned

variable {env : Env} {ctx ctx' : OrchestrationExecutorContext} {offers : String → List String}

theorem Moves.spoiled (hm : Moves env ctx ctx') (h : Spoiled ctx) : Spoiled ctx' := by
  refine hm.preserves ?_ h
  rintro ctx₁ ctx₂ hm ⟨t, c, name, hc, ho, ha⟩
  obtain ⟨c', hc', ho', hab, -⟩ := hm.cells hc
  exact ⟨t, c', name, hc', ho'.trans ho, hab ha⟩

theorem Delivery.spoiled {k : EventKind} (hdel : Delivery env ctx k ctx') (h : Spoiled ctx) :
    Spoiled ctx' := by
  obtain ⟨t, c, name, hc, ho, ha⟩ := h
  -- nothing is sent to a task that was dropped
  have send {u : TaskRef} {v : Option String} {w : World} (hs : ctx.world.send u v = some w) :
      w.cells[t]? = some c := by
    obtain ⟨d, hd, hlive, rfl⟩ := World.send_ok hs
    have hu : u ≠ t := by
      rintro rfl
      rw [hc] at hd
      cases hd
      rw [ha.1] at hlive
      cases hlive
    simp [List.getElem?_set_ne hu, hc]
  cases hdel with
  | send id v message polls u w hl hs => exact ⟨t, c, name, send hs, ho, ha⟩
  | give e u rest w hl hs => exact ⟨t, c, name, send hs, ho, ha⟩
  | close id message polls u hl =>
    by_cases hu : u = t
    · exact ⟨t, { c with task.unblockRx := .closed }, name,
        by simp [World.dropSender, hu, hc], ho, ha⟩
    · exact ⟨t, c, name, by simp [World.dropSender, hu, hc], ho, ha⟩
  | _ => exact ⟨t, c, name, hc, ho, ha⟩

theorem OrchestrationExecutorContext.Unstarted.waiters (hu : ctx.Unstarted) (name : String) :
    ctx.waiters name = [] := by
  simp [OrchestrationExecutorContext.waiters, hu.pendingEvents, hu.octx, OrchestratorContext.new]

namespace OrchestrationExecutorFuture

variable {self : OrchestrationExecutorFuture} {history : List HistoryEvent}

theorem Turn.start_matched {e : ExecutionStartedEvent} (ht : self.Turn ctx (.start e) ctx')
    (hu : ctx.Unstarted) (hl : ctx.Linked) (h : Matched ctx offers) :
    Spoiled ctx' ∨ Matched ctx' offers := by
  have hd : ctx.Drained := by constructor <;> rw [hu.octx] <;> rfl
  obtain rfl | ⟨func, w, -, hsteps, hcases⟩ := ht.start_cases
  · exact .inr h
  have hfresh : Matched { ctx with
      world := { ctx.world with octx := .new self.instanceId e.input, notified := false } }
      offers := by
    refine h.mono (fun t c _ hc _ => ⟨c, hc, .refl c⟩) (fun _ => rfl) (fun name => ?_) rfl
    rw [hu.waiters]
    simp [waiters, hu.pendingEvents, OrchestratorContext.new]
  have hw := hfresh.steps hsteps
  rcases hcases with ⟨s, -, rfl⟩ | ⟨r, -, rfl⟩
  · exact .inr (hw.mono (fun _ _ _ hc _ => World.dropBefore_evolves hc)
      (fun _ => World.signals_of_origins (World.origins_eq World.dropBefore_length
        fun _ _ hc => (World.dropBefore_evolves hc).imp fun _ h => h.imp_right Cell.Evolves.origin))
      (fun _ => rfl) rfl)
  · have hlinked : ({ ctx with world := w } : OrchestrationExecutorContext).Linked :=
      linked_of_started hd hl hsteps
    by_cases hwait : ∃ name,
        ({ ctx with world := w } : OrchestrationExecutorContext).waiters name ≠ []
    · obtain ⟨name, hne⟩ := hwait
      obtain ⟨t, ht⟩ := List.exists_mem_of_ne_nil _ hne
      obtain ⟨c, hc, ho, hwt⟩ := hlinked.waiter ht
      refine .inl ⟨t, c.drop, name, ?_, ho, rfl, hwt.2⟩
      change (w.dropFrom ctx.world.cells.length).cells[t]? = some c.drop
      rw [World.dropFrom_cells, hu.cells, if_neg (by simp), show w.cells[t]? = some c from hc]
      rfl
    · refine .inr (hw.mono (fun _ _ _ hc _ => World.dropFrom_evolves hc)
        (fun _ => World.signals_of_origins (World.origins_eq World.dropFrom_length
          fun _ _ hc => (World.dropFrom_evolves hc).imp fun _ h => h.imp_right Cell.Evolves.origin))
        (fun name => ?_) rfl)
      rw [Classical.not_not.mp fun hne => hwait ⟨name, hne⟩]
      exact hu.waiters name

theorem replay_matched (h : self.replay history = .ok ctx)
    (hone : history.countP HistoryEvent.isStart ≤ 1)
    (hk : ∀ e ∈ history, ∀ r, e.kind = .raise r → r.input.isSome) :
    Spoiled ctx ∨ Matched ctx fun name => raised self.env name history := by
  revert hk
  refine replay_induct (P := fun history ctx =>
    (∀ e ∈ history, ∀ r, e.kind = .raise r → r.input.isSome) →
    Spoiled ctx ∨ Matched ctx fun name => raised self.env name history) hone ?_ ?_ h
  · refine fun _ => .inr ⟨fun name => ?_, fun name k t v hk => ?_⟩
    · exact .nil
    · simp [World.signals, new] at hk
  · intro past e ctx₁ ctx₂ hr ih hs he hk
    have hreg := replay_regular hr
    have hl := processEvent_linked hreg.incomplete hreg.drained hreg.linked he
    have hdrain := drain_moves self.env ctx₂
    suffices hm : Spoiled ctx₂ ∨ Matched ctx₂ fun name => raised self.env name (past ++ [e]) from
      hm.imp (Moves.spoiled hdrain) (Moves.matched hdrain hl)
    have ih := ih fun e he => hk e (List.mem_append_left _ he)
    simp only [raised_append]
    obtain ⟨s, hkind, ht⟩ | ⟨-, ctx₃, hdel, hmoves⟩ := processEvent_cases hreg.incomplete he
    · have hu : ctx₁.Unstarted := replay_unstarted (hs (HistoryEvent.isStart_iff.mpr ⟨s, hkind⟩)) hr
      have hm : Matched ctx₁ fun name => raised self.env name past := by
        apply ih.resolve_left
        rintro ⟨t, c, name, hc, -⟩
        rw [hu.cells] at hc
        cases hc
      rw [hkind]
      simpa [EventKind.raises] using ht.start_matched hu hreg.linked hm
    · exact ih.imp (fun hsp => Moves.spoiled hmoves (hdel.spoiled hsp)) fun hm =>
        Moves.matched hmoves (hdel.linked hreg.drained hreg.linked)
          (hdel.matched hreg.drained hreg.linked (hk e (by simp)) hm)

/--
In a run with one start in which every raised event has a payload and no waiter is abandoned, the
task of an `await_signal_event` resolves with the payload of its own rank under its name and is
pending if there is none; the payloads without a task are buffered in order.
-/
theorem replay_signals (h : self.replay history = .ok ctx)
    (hone : history.countP HistoryEvent.isStart ≤ 1)
    (hk : ∀ e ∈ history, ∀ r, e.kind = .raise r → r.input.isSome)
    (hkeep : ∀ c ∈ ctx.world.cells, ∀ name, c.origin = .signal name → ¬c.Abandoned)
    (name : String) :
    (∀ (k t : ℕ), (ctx.world.signals name)[k]? = some t →
      ∃ c, ctx.world.cells[t]? = some c ∧ c.origin = .signal name ∧
        match (raised self.env name history)[k]? with
        | some v => c.Resolves v
        | none => c.Pending) ∧
    ctx.world.receivedEvents.get name =
      ((raised self.env name history).drop (ctx.world.signals name).length).map some := by
  have hspoiled : ¬Spoiled ctx := by
    rintro ⟨t, c, name, hc, ho, ha⟩
    exact hkeep c (List.mem_of_getElem? hc) name ho ha
  have hm := (replay_matched h hone hk).resolve_left hspoiled
  have hq := hm.queues name
  refine ⟨fun k t ht => ?_, by rw [hq.stored_eq, List.map_drop]⟩
  obtain ⟨c, hc, ho⟩ := World.mem_signals.mp (List.mem_of_getElem? ht)
  have ha := hkeep c (List.mem_of_getElem? hc) name ho
  refine ⟨c, hc, ho, ?_⟩
  split
  · rename_i v hv
    obtain ⟨c', hc', hh⟩ := hm.paired name k t v ht hv
    rw [hc] at hc'
    cases hc'
    exact hh.resolves ha
  · rename_i hv
    have hwait := hq.mem_waiting ht (by rw [List.getElem?_map, hv]; rfl)
    have hw := ((replay_regular h).linked.waiter_at hwait hc).2
    exact Cell.Holds.pending hw ha

theorem externalEvents_matched : ∃ (ctx : OrchestrationExecutorContext) (c : Cell),
    (executorOf externalEvents).replay [executionStarted,
      eventRaisedEvent "test_signal" (some "\"a\""),
      eventRaisedEvent "test_signal" (some "\"b\"")] =
        .ok ctx ∧ ctx.world.cells[0]? = some c ∧ c.Resolves "\"a\"" ∧
      ctx.world.receivedEvents.get "test_signal" = [some "\"b\""] := by
  obtain ⟨ctx, h, hs⟩ := Except.exists_of_map
    (show ((executorOf externalEvents).replay [executionStarted,
      eventRaisedEvent "test_signal" (some "\"a\""),
      eventRaisedEvent "test_signal" (some "\"b\"")]).map
        (fun ctx => (ctx.world.signals "test_signal",
          ctx.world.cells.map fun c => decide c.Abandoned)) = .ok ([0], [false]) by decide)
  obtain ⟨hsignals, hkeep⟩ := Prod.mk.inj hs
  have hraised : raised (executorOf externalEvents).env "test_signal" [executionStarted,
      eventRaisedEvent "test_signal" (some "\"a\""),
      eventRaisedEvent "test_signal" (some "\"b\"")] =
        ["\"a\"", "\"b\""] := by decide
  have hm := replay_signals h (by decide)
    (fun e he r hr => by
      simp only [List.mem_cons, List.not_mem_nil, or_false] at he
      rcases he with rfl | rfl | rfl <;> cases hr <;> rfl)
    (fun c hc name _ ha => by
      have hm : decide c.Abandoned ∈ [false] := hkeep ▸ List.mem_map_of_mem hc
      simp [ha] at hm) "test_signal"
  rw [hsignals, hraised] at hm
  obtain ⟨c, hc, -, hres⟩ := hm.1 0 0 rfl
  exact ⟨ctx, c, h, hc, hres, hm.2⟩

end OrchestrationExecutorFuture

end DurableTask
