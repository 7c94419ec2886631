import DurableTask.Executor.Ledger
import DurableTask.Invariants.Owned
import DurableTask.Runtime.Orchestrators

/-! # Without a program

An orchestrator that is not registered is passed over: nothing is reported, and
the first completion that follows unwraps the error of a poll without a future.
So a history without a program is processed exactly if it has no such event.
-/

namespace DurableTask

open OrchestrationExecutorContext

def EventKind.pollsAlways : EventKind → Bool
  | .resolve _ _ _ polls => polls
  | _ => false

def OrchestratorAction.isFailure (a : OrchestratorAction) : Bool :=
  match a.orchestratorActionType with
  | some (.completeOrchestration action) => action.orchestrationStatus = .failed
  | _ => false

namespace OrchestrationExecutorFuture

variable {self : OrchestrationExecutorFuture} {ctx ctx' : OrchestrationExecutorContext}
  {past history : List HistoryEvent} {e : HistoryEvent}

theorem replay_storeless (h : self.replay history = .ok ctx) (hfn : ctx.orchestratorFn = none) :
    ctx.pendingTasks = ∅ ∧ ctx.pendingEvents = ∅ := by
  revert hfn
  refine processEvents_induct (P := fun _ ctx => ctx.orchestratorFn = none →
    ctx.pendingTasks = ∅ ∧ ctx.pendingEvents = ∅) (fun _ => ⟨rfl, rfl⟩) ?_ h
  intro past e ctx₁ ctx₂ hr ih he hfn
  rw [drain_orchestratorFn] at hfn
  rw [drain_of_none hfn]
  obtain ⟨s, -, ht⟩ | ⟨-, ctx₃, hdel, hm⟩ := processEvent_cases (replay_isComplete hr) he
  · obtain rfl | ⟨func, w, -, -, ⟨s, -, rfl⟩ | ⟨r, -, rfl⟩⟩ := ht.start_cases
    · exact ih hfn
    · cases hfn
    · exact ih hfn
  · generalize e.kind = k at hdel
    have hfn₃ := hm.none_of_none hfn
    obtain ⟨ht, hev⟩ := ih (hdel.orchestratorFn ▸ hfn₃)
    obtain ⟨-, -, ht', hev'⟩ := hm.of_none hfn₃ (hdel.drained (replay_drained hr))
    rw [ht', hev']
    cases hdel with
    | send id v message polls t w hl hs => rw [ht] at hl; cases hl
    | close id message polls t hl => rw [ht] at hl; cases hl
    | give e t waiters w hl hs => rw [hev] at hl; cases hl
    | _ => exact ⟨ht, hev⟩

theorem storeless_processed_iff (h : self.replay past = .ok ctx) (hfn : ctx.orchestratorFn = none)
    (e : HistoryEvent) : (∃ ctx', self.processEvent ctx e = .ok ctx') ↔
      e.kind.pollsAlways = false ∧
        ∀ a, self.activation ctx e.kind = some a → ∃ r, a.run self.env = .ok r := by
  obtain ⟨ht, hev⟩ := replay_storeless h hfn
  have hrun : ctx.running = false := by simp [running, hfn]
  cases hs : self.starts e.kind with
  | false =>
    rw [processEvent_ok_iff (replay_isComplete h) (replay_owned h) hrun hs]
    generalize e.kind = k at hs
    have hprog : ctx.program = none := by simp [program, hfn]
    cases k with
    | start s =>
      have hreg : self.registry.getOrchestrator s.name = none := by simpa [starts] using hs
      simp [polls, sends, EventKind.pollsAlways, activation, hreg]
    | complete => simp [polls, sends, EventKind.pollsAlways, activation, hfn, hprog]
    | resolve id payload message polls =>
      cases polls with
      | false => cases payload <;> simp [polls, sends, EventKind.pollsAlways, activation, ht]
      | true => simp [polls, EventKind.pollsAlways]
    | raise s => simp [polls, sends, EventKind.pollsAlways, activation, hev]
    | _ => simp [polls, sends, EventKind.pollsAlways, activation]
  | true =>
    rw [processEvent_eq]
    generalize e.kind = k at hs
    cases k with
    | start s =>
      obtain ⟨func, hreg⟩ := Option.isSome_iff_exists.mp hs
      simp only [processKind, start, hreg, EventKind.pollsAlways, activation, Option.map_some,
        Option.some.injEq, true_and, forall_eq']
      unfold BoxFuture.pollUnpin Activation.run
      dsimp only
      rcases Interaction.Prog.run (handle self.env) _ _ with p | ⟨_ | _, w⟩ <;> simp
    | _ => cases hs

theorem activation_of_storeless {k : EventKind} (hfn : ctx.orchestratorFn = none)
    (hs : self.starts k = false) : self.activation ctx k = none := by
  cases ha : self.activation ctx k with
  | none => rfl
  | some a =>
    cases hk : k.isStart with
    | true =>
      cases k with
      | start s =>
        obtain ⟨func, hreg, -⟩ := Option.map_eq_some_iff.mp ha
        simp [starts, hreg] at hs
      | _ => cases hk
    | false =>
      have hrun := running_of_activation ha hk
      simp [running, hfn] at hrun

theorem Turn.storeless {k : EventKind} (h : self.Turn ctx k ctx') (hfn : ctx.orchestratorFn = none)
    (hs : self.starts k = false) : ctx'.orchestratorFn = none := by
  have ha := activation_of_storeless hfn hs
  cases h with
  | rest hd _ _ => exact hd.orchestratorFn.trans hfn
  | tick timestamp currentTimeUtc => exact hfn
  | terminate => exact (executionTerminated_frame ctx).1.trans hfn
  | acknowledge id => exact hfn
  | unknown e hreg => exact hfn
  | suspend hd hfn₁ _ _ => rw [hd.orchestratorFn, hfn] at hfn₁; cases hfn₁
  | report _ hd hfn₁ _ _ => rw [hd.orchestratorFn, hfn] at hfn₁; cases hfn₁
  | discard hfn₁ _ => rw [hfn] at hfn₁; cases hfn₁
  | begin hreg _ => simp [starts, hreg] at hs
  | forget hreg _ => simp [starts, hreg] at hs

theorem replay_unstarting (hs : ∀ e ∈ history, self.starts e.kind = false)
    (h : self.replay history = .ok ctx) : ctx.orchestratorFn = none ∧
      ∀ id a, ctx.pendingActions.lookup id = some a → a.isFailure = false := by
  revert hs
  refine processEvents_induct (P := fun history ctx =>
    (∀ e ∈ history, self.starts e.kind = false) → ctx.orchestratorFn = none ∧
      ∀ id a, ctx.pendingActions.lookup id = some a → a.isFailure = false) ?_ ?_ h
  · exact fun _ => ⟨rfl, fun id a hl => (by cases hl)⟩
  · intro past e ctx₁ ctx₂ hr ih he hs
    obtain ⟨hfn, hpend⟩ := ih fun e' he' => hs e' (by simp [he'])
    have ht := processEvent_turn (replay_isComplete hr) he
    have ha := activation_of_storeless hfn (hs e (by simp))
    refine ⟨?_, fun id a hl => ?_⟩
    · rw [drain_orchestratorFn]
      exact ht.storeless hfn (hs e (by simp))
    · obtain ⟨n, l, lost, hb⟩ := ht.entries (replay_drained hr) (replay_isComplete hr)
      obtain ⟨rfl, rfl⟩ := hb.quiet (by simp [issues, ha])
      rcases hb.entered hl with hm | ⟨hm, -⟩ | hl
      · have hret : self.returns ctx₁ e.kind = none := by simp [returns, ha]
        generalize e.kind = k at hm hret
        cases k with
        | terminate => cases List.mem_singleton.mp hm; rfl
        | start s => cases hm
        | complete => cases hm
        | _ => simp [ownEntry, hret] at hm
      · cases hm
      · exact hpend id a hl

theorem replay_unstarting_iff (hs : ∀ e ∈ history, self.starts e.kind = false) :
    (∃ ctx, self.replay history = .ok ctx) ↔ ∀ e ∈ history, e.kind.pollsAlways = false := by
  have step (past : List HistoryEvent) (e : HistoryEvent) (later : List HistoryEvent)
      (ctx : OrchestrationExecutorContext) (hsplit : history = past ++ e :: later)
      (h : self.replay past = .ok ctx) :
      (∃ ctx', self.processEvent ctx e = .ok ctx') ↔ e.kind.pollsAlways = false := by
    have hpast : ∀ e' ∈ past, self.starts e'.kind = false :=
      fun e' he' => hs e' (by simp [hsplit, he'])
    have hfn := (replay_unstarting hpast h).1
    have ha := activation_of_storeless hfn (hs e (by simp [hsplit]))
    rw [storeless_processed_iff h hfn e, ha]
    simp
  constructor
  · rintro ⟨ctx, hr⟩ e he
    obtain ⟨past, later, hsplit⟩ := List.append_of_mem he
    rw [hsplit] at hr
    obtain ⟨ctx₁, h₁, h₂⟩ := processEvents_split hr
    obtain ⟨ctx₂, he₂, -⟩ := processEvents_cons_split h₂
    exact (step past e later ctx₁ hsplit h₁).mp ⟨ctx₂, he₂⟩
  · intro hk
    cases hr : self.replay history with
    | ok ctx => exact ⟨ctx, rfl⟩
    | error p =>
      obtain ⟨past, e, later, ctx₁, hsplit, h₁, he⟩ := processEvents_error_split hr
      obtain ⟨ctx₂, he₂⟩ := (step past e later ctx₁ hsplit h₁).mpr (hk e (by simp [hsplit]))
      rw [he] at he₂
      cases he₂

/--
If no event of a history starts a registered orchestrator, `execute` never returns a failure of
the orchestration, and it returns at all exactly if the history has none of the completions that
poll. In every state without a stored program an event is processed exactly if it is none of them
and the first poll of the program that it starts, if any, does not panic.
-/
theorem missing_orchestrator (executor : OrchestrationExecutorFuture) :
    (∀ oldEvents newEvents, (∀ e ∈ oldEvents ++ newEvents, executor.starts e.kind = false) →
      (¬∃ actions, executor.execute oldEvents newEvents = .ok actions ∧
        (actions.filter OrchestratorAction.isFailure).length = 1) ∧
      ((∃ actions, executor.execute oldEvents newEvents = .ok actions) ↔
        ∀ e ∈ oldEvents ++ newEvents, e.kind.pollsAlways = false)) ∧
    ∀ past ctx e, executor.replay past = .ok ctx → ctx.orchestratorFn = none →
      ((∃ ctx', executor.processEvent ctx e = .ok ctx') ↔ e.kind.pollsAlways = false ∧
        ∀ a, executor.activation ctx e.kind = some a → ∃ r, a.run executor.env = .ok r) := by
  refine ⟨fun oldEvents newEvents hs => ⟨?_, ?_⟩, fun past ctx e h hfn =>
    storeless_processed_iff h hfn e⟩
  · rintro ⟨actions, h, hlen⟩
    obtain ⟨ctx, hr, rfl⟩ := execute_ok h
    obtain ⟨a, ha⟩ := List.exists_mem_of_length_pos (Nat.lt_of_lt_of_eq Nat.one_pos hlen.symm)
    obtain ⟨hmem, hfail⟩ := List.mem_filter.mp ha
    obtain ⟨id, hl⟩ := mem_getActions.mp hmem
    rw [(replay_unstarting hs hr).2 id a hl] at hfail
    cases hfail
  · rw [← replay_unstarting_iff hs, execute_eq]
    constructor
    · rintro ⟨actions, h⟩
      obtain ⟨ctx, hr, -⟩ := Except.exists_of_map h
      exact ⟨ctx, hr⟩
    · rintro ⟨ctx, hr⟩
      exact ⟨ctx.getActions executor.env, by rw [hr]; rfl⟩

theorem missing_orchestrator_unreported :
    (executorOf testOrchestration).execute [] [historyEvent (.executionStarted ⟨"other", none⟩)] =
      .ok [] ∧
    (executorOf testOrchestration).execute [historyEvent (.executionStarted ⟨"other", none⟩),
      taskScheduled 1] [taskCompleted 1 (some "\"x\"")] = .error .polledWithoutFuture :=
  ⟨by decide, by decide⟩

end OrchestrationExecutorFuture

end DurableTask
