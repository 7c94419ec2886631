import DurableTask.Invariants.Channelled
import DurableTask.Invariants.Funded
import DurableTask.Runtime.Orchestrators

/-! # Completion events and the tasks they name

A completion event takes the sender of the task it names before it looks at its
payload. With a payload the task is ready at its next poll, as far as the budget
goes. Without one the sender is dropped: the next poll is pending, and the one
after it panics.
-/

namespace DurableTask

open Interaction OrchestrationExecutorContext

namespace Cell

variable {c : Cell} {b : Budget} {v : String}

theorem Ripe.given (hr : c.Ripe b) (hn : c.outcome = none) (hs : ∃ s, c.At s) :
    ∃ v, c.At (.given v) := by
  obtain ⟨v, c', b', hp⟩ := hr
  have hd := (poll_frame hp).2.1
  obtain ⟨s, hs⟩ := hs
  cases s with
  | waiting => rw [poll_waiting hd hs] at hp; cases hp
  | given v => exact ⟨v, hs⟩
  | done v => rw [hs.2] at hn; cases hn
  | lost =>
    rcases poll_lost (b := b) hd hs with ⟨h, -⟩ | ⟨c₁, b₁, h, -⟩ | h <;> rw [h] at hp <;> cases hp
  | void => rcases poll_void (b := b) hd hs with h | h <;> rw [h] at hp <;> cases hp

theorem ripe_of_given (hd : c.dropped = false) (h : c.At (.given v)) (hb : ¬b.exhausted) :
    c.Ripe b := by
  rcases poll_given (b := b) hd h with ⟨-, hb'⟩ | ⟨c₁, b₁, hp, -⟩
  · exact absurd hb' hb
  · exact ⟨v, c₁, b₁, hp⟩

theorem ripe_of_funded {w : World} {t : TaskRef} (hw : w.Funded) (hc : w.cells[t]? = some c)
    (hd : c.dropped = false) (h : c.At (.given v)) : c.Ripe w.budget := by
  rcases h.1 with htask | htask
  · exact ripe_of_given hd h (hw.not_exhausted hc (by simp [loaded, hd, htask]))
  · exact ripe_iff.mpr ⟨hd, .inl (by simp [htask])⟩

theorem Ripe.not_exhausted (hr : c.Ripe b) (hc : c.Channelled) {a : OrchestratorAction}
    (ho : c.origin = .action a) : ¬b.exhausted := by
  rcases (ripe_iff.mp hr).2 with ⟨hcompleted, -⟩ | ⟨-, -, hb⟩
  · obtain ⟨name, hn⟩ := hc hcompleted
    rw [ho] at hn
    cases hn
  · exact hb

end Cell

/-- A poll that comes to the task finds it ready, and panics elsewhere if it does. -/
structure Activation.Finds (env : Env) (t : TaskRef) (a : Activation) : Prop where
  ready : ∀ w c, (a.1.poll a.1.state).Reaches (handle env) a.2 (.poll t) w →
    w.cells[t]? = some c → c.dropped = false → c.outcome = none → c.Ripe w.budget
  panic : ∀ p, a.run env = .error p → ∃ o w, (a.1.poll a.1.state).Reaches (handle env) a.2 o w ∧
    handle env o w = .error p ∧
      ∀ c, o = .poll t → w.cells[t]? = some c → c.dropped = true ∨ c.outcome.isSome

theorem Activation.finds {env : Env} {t : TaskRef} {a : Activation} {c : Cell} {v : String}
    (hw : a.2.Funded) (hc : a.2.cells[t]? = some c) (hv : c.Holds (some v)) : a.Finds env t := by
  have ready (w : World) (c' : Cell)
      (hreach : (a.1.poll a.1.state).Reaches (handle env) a.2 (.poll t) w)
      (hc' : w.cells[t]? = some c') (hd : c'.dropped = false) (hn : c'.outcome = none) :
      c'.Ripe w.budget := by
    have hs : World.Steps env a.2 w := hreach.preserves (I := World.Steps env a.2)
      (fun o s r s' hs ho => hs.tail (handle_step env o s r s' ho)) .refl
    obtain ⟨c₁, hc₁, he⟩ := hs.cells hc
    rw [hc'] at hc₁
    cases hc₁
    rcases hv.evolves he with hgiven | hdone
    · exact Cell.ripe_of_funded (hs.funded hw) hc' hd hgiven
    · rw [hdone.2] at hn
      cases hn
  refine ⟨ready, fun p hp => ?_⟩
  obtain ⟨o, w, hreach, ho⟩ := Prog.run_error hp
  refine ⟨o, w, hreach, ho, ?_⟩
  rintro c' rfl hc'
  by_contra hgone
  rw [not_or, Bool.not_eq_true, Option.not_isSome_iff_eq_none] at hgone
  obtain ⟨v', c₂, b, hpoll⟩ := ready w c' hreach hc' hgone.1 hgone.2
  simp [handle, World.pollTask, hc', hpoll] at ho

namespace OrchestrationExecutorFuture

variable {self : OrchestrationExecutorFuture} {ctx ctx₁ : OrchestrationExecutorContext}
  {history : List HistoryEvent} {e : HistoryEvent}

theorem processEvent_resolve {id : Int} {payload : Option String} {message : String} {polls : Bool}
    (he : e.kind = .resolve id payload message polls) :
    self.processEvent ctx e = match ctx.resolveTask id payload message with
      | .error p => .error p
      | .ok ctx₁ => if polls then self.poll ctx₁ else .ok ctx₁ := by
  rw [processEvent_eq, he]
  cases polls with
  | true => rfl
  | false => simp only [processKind]; cases ctx.resolveTask id payload message <;> rfl

/-- An unresolved task that the running program has not dropped. -/
structure Awaited (ctx : OrchestrationExecutorContext) (id : Int) (t : TaskRef) (c : Cell) :
    Prop where
  running : ∃ base f, ctx.orchestratorFn = some (.suspended base f)
  cell : ctx.world.cells[t]? = some c
  origin : ∃ a, c.origin = .action a ∧ a.id = id
  live : c.dropped = false
  unresolved : c.outcome = none

theorem Awaited.lookup {id : Int} {t : TaskRef} {c : Cell} (ha : Awaited ctx id t c)
    (hr : ctx.Regular) (hw : c.At .waiting) : ctx.pendingTasks.lookup id = some t := by
  obtain ⟨a, ho, rfl⟩ := ha.origin
  exact hr.linked.lookup_of_waiting hr.drained ha.cell ho ha.live hw

theorem Awaited.lookup_none {id : Int} {t : TaskRef} {c : Cell} (ha : Awaited ctx id t c)
    (hr : ctx.Regular) (hf : ctx.Fresh 0) (hw : ¬c.At .waiting) :
    ctx.pendingTasks.lookup id = none := by
  obtain ⟨a, ho, rfl⟩ := ha.origin
  cases hl : ctx.pendingTasks.lookup a.id with
  | none => rfl
  | some t' =>
    rcases hf.parked ⟨Nat.zero_le t, c, ha.cell, ha.live, ho⟩ with hm | hp
    · rw [hr.drained.tasks] at hm
      cases hm
    · obtain ⟨a', -, -, hw'⟩ := hr.linked.task_at (.inl (hp t' hl ▸ hl)) ha.cell
      exact absurd hw' hw

/-- What a completion event does to the task that it names and that is awaited. -/
theorem Awaited.resolved {id : Int} {t : TaskRef} {c : Cell} (ha : Awaited ctx id t c)
    (hr : ctx.Regular) (hf : ctx.Fresh 0) (payload : Option String) (message : String) :
    ∃ ctx₁ c₁, ctx.resolveTask id payload message = .ok ctx₁ ∧ ctx₁.world.cells[t]? = some c₁ ∧
      c₁.dropped = false ∧ c₁.outcome = none ∧
      (c.At .waiting → ∀ v, payload = some v → c₁.At (.given v)) ∧
      (c.At .waiting → payload = none → c₁.At .lost) ∧ (¬c.At .waiting → c₁ = c) := by
  by_cases hw : c.At .waiting
  · have hl := ha.lookup hr hw
    have hlt := (List.getElem?_eq_some_iff.mp ha.cell).1
    cases payload with
    | none =>
      refine ⟨{ ctx with
          pendingTasks := ctx.pendingTasks.erase id
          world := ctx.world.dropSender t }, { c with task.unblockRx := .closed }, ?_, ?_, ha.live,
        ha.unresolved, ?_, fun _ _ => hw.close, fun h => absurd hw h⟩
      · simp only [resolveTask, hl]
      · simp [World.dropSender, ha.cell]
      · intro _ v hv
        cases hv
    | some v =>
      refine ⟨{ ctx with
          pendingTasks := ctx.pendingTasks.erase id
          world := { ctx.world with
            cells := ctx.world.cells.set t { c with task.unblockRx := .sent (some v) }
            notified := true } }, { c with task.unblockRx := .sent (some v) }, ?_, by simp [hlt],
        ha.live, ha.unresolved, fun _ v' hv => ?_, ?_, fun h => absurd hw h⟩
      · simp [resolveTask, hl, World.send, ha.cell, ha.live]
      · cases hv
        exact hw.send (some v)
      · intro _ hv
        cases hv
  · have hl := ha.lookup_none hr hf hw
    exact ⟨ctx, c, by simp only [resolveTask, hl], ha.cell, ha.live, ha.unresolved,
      fun h => absurd h hw, fun h => absurd h hw, fun _ => rfl⟩

/--
The completion event is handed over without a panic, and the task is ready at its next poll; and
while the budget has room for what is handed over, every poll of the orchestrator that comes to the
task finds it ready until it has yielded or is dropped, and panics elsewhere if it does.
-/
structure Unblocks (executor : OrchestrationExecutorFuture) (ctx : OrchestrationExecutorContext)
    (e : HistoryEvent) (id : Int) (payload : Option String) (message : String) (t : TaskRef) :
    Prop where
  handed : ∃ ctx₁ c₁, ctx.resolveTask id payload message = .ok ctx₁ ∧
    ctx₁.world.cells[t]? = some c₁ ∧ c₁.Ripe ctx₁.world.budget
  polled : ∀ more, executor.Throughout executor.Affordable ctx (e :: more) →
    executor.Throughout (fun ctx e => ∀ a, executor.activation ctx e.kind = some a →
      a.Finds executor.env t) ctx (e :: more)

theorem evolves_of_delivery {k : EventKind} {more : List HistoryEvent}
    {ctx₂ ctx₃ : OrchestrationExecutorContext} {t : TaskRef} {c₁ : Cell} (hr : ctx.Regular)
    (hdel : Delivery self.env ctx k ctx₁) (hm : Moves self.env ctx₁ ctx₃)
    (hr₃ : ctx₃.drain.Regular) (h₃ : self.processEvents ctx₃.drain more = .ok ctx₂)
    (hc₁ : ctx₁.world.cells[t]? = some c₁) (hw : ¬c₁.At .waiting) :
    ∃ c₂, ctx₂.world.cells[t]? = some c₂ ∧ c₁.Evolves c₂ := by
  have hl₁ := hdel.linked hr.drained hr.linked
  obtain ⟨c₃, hc₃, he₁₃⟩ := Moves.evolves (hm.trans (drain_moves self.env ctx₃)) hl₁ hc₁ hw
  obtain ⟨c₂, hc₂, he₂⟩ := processEvents_evolves hr₃ h₃ hc₃
    fun hw' => hw (he₁₃.waiting (hl₁.staged hc₁) hw')
  exact ⟨c₂, hc₂, he₁₃.trans he₂⟩

theorem replay_evolves {id : Int} {payload : Option String} {message : String} {polls : Bool}
    {more : List HistoryEvent} {ctx₂ : OrchestrationExecutorContext} {t : TaskRef} {c₁ : Cell}
    (h : self.replay history = .ok ctx) (he : e.kind = .resolve id payload message polls)
    (h₁ : ctx.resolveTask id payload message = .ok ctx₁)
    (h₂ : self.replay (history ++ e :: more) = .ok ctx₂) (hc₁ : ctx₁.world.cells[t]? = some c₁)
    (hw : ¬c₁.At .waiting) : ∃ c₂, ctx₂.world.cells[t]? = some c₂ ∧ c₁.Evolves c₂ := by
  have hr := replay_regular h
  have hdel := resolveTask_delivery self polls h₁
  have hc := hdel.isComplete.trans hr.incomplete
  rw [replay, processEvents_append_ok h] at h₂
  obtain ⟨ctx₃, he₃, h₃⟩ := processEvents_cons_split h₂
  have hr₃ := processEvent_regular hr he₃
  rw [processEvent_resolve he, h₁] at he₃
  have hm : Moves self.env ctx₁ ctx₃ := by
    cases polls with
    | true => exact poll_moves hc he₃
    | false => cases he₃; exact .refl
  exact evolves_of_delivery hr hdel hm hr₃ h₃ hc₁ hw

theorem Affordable.activation {a : Activation} (h : self.Affordable ctx e)
    (ha : self.activation ctx e.kind = some a) : a.2.Funded := by
  obtain ⟨s, func, -, rfl⟩ | ⟨ctx₁, hd, hp⟩ := activation_cases ha
  · exact h.funded
  · rw [program_world hp]
    exact h.delivery hd

theorem activation_cells {k : EventKind} {a : Activation} {t : TaskRef} {c : Cell}
    (hr : ctx.Regular) (ha : self.activation ctx k = some a) (hc : ctx.world.cells[t]? = some c)
    (hw : ¬c.At .waiting) : a.2.cells[t]? = some c := by
  obtain ⟨s, func, -, rfl⟩ | ⟨ctx₁, hd, hp⟩ := activation_cases ha
  · exact hc
  · rw [program_world hp]
    exact hd.evolves hr.drained hr.linked hc hw

theorem activation_resolve {id : Int} {payload : Option String} {message : String} {polls : Bool}
    {a : Activation} (he : e.kind = .resolve id payload message polls)
    (h₁ : ctx.resolveTask id payload message = .ok ctx₁)
    (ha : self.activation ctx e.kind = some a) : a.2 = { ctx₁.world with notified := false } := by
  rw [he] at ha
  cases polls with
  | true =>
    simp only [activation, h₁] at ha
    exact program_world ha
  | false => cases ha

theorem Unblocks.of_given {id : Int} {t : TaskRef} {c₁ : Cell} {payload : Option String}
    {message v : String} {polls : Bool} (h : self.replay history = .ok ctx)
    (he : e.kind = .resolve id payload message polls)
    (h₁ : ctx.resolveTask id payload message = .ok ctx₁) (hc₁ : ctx₁.world.cells[t]? = some c₁)
    (hd₁ : c₁.dropped = false) (hv : c₁.At (.given v)) (hb : ¬ctx₁.world.budget.exhausted) :
    self.Unblocks ctx e id payload message t where
  handed := ⟨ctx₁, c₁, h₁, hc₁, Cell.ripe_of_given hd₁ hv hb⟩
  polled more hk := by
    refine .intro fun past e' later ctx₂ hs h₂ a ha => ?_
    have hfunded := (throughout_iff.mp hk past e' later ctx₂ hs h₂).activation ha
    cases past with
    | nil =>
      cases hs
      cases h₂
      have hworld := activation_resolve he h₁ ha
      exact Activation.finds hfunded (hworld ▸ hc₁) (.inl hv)
    | cons e₁ past =>
      cases hs
      have hreplay : self.replay (history ++ e :: past) = .ok ctx₂ := by
        rw [replay, processEvents_append_ok h, h₂]
      have hnot : ¬c₁.At .waiting := fun hw => by cases hw.unique hv
      obtain ⟨c₂, hc₂, hev⟩ := replay_evolves h he h₁ hreplay hc₁ hnot
      have hholds : c₂.Holds (some v) := Cell.Holds.evolves (.inl hv) hev
      have hcells := activation_cells (replay_regular hreplay) ha hc₂ fun hw => by
        cases hholds.of_waiting hw
      exact Activation.finds hfunded hcells hholds

theorem Unblocks.given {id : Int} {t : TaskRef} {c : Cell} {payload : Option String}
    {message : String} (h : self.replay history = .ok ctx) (ha : Awaited ctx id t c)
    (hu : self.Unblocks ctx e id payload message t) : ¬ctx.world.budget.exhausted ∧
      (c.At .waiting ∧ payload.isSome ∨ ∃ v, c.At (.given v)) := by
  have hr := replay_regular h
  obtain ⟨ctx₁, c₁, h₁, hc₁, -, ho₁, -, hlost, hsame⟩ :=
    ha.resolved hr (replay_fresh h) payload message
  obtain ⟨⟨ctx₁', c₁', h₁', hc₁', hripe⟩, -⟩ := hu
  cases h₁.symm.trans h₁'
  cases hc₁.symm.trans hc₁'
  have hdel := resolveTask_delivery self true h₁
  obtain ⟨v, hv⟩ := hripe.given ho₁ ((hdel.linked hr.drained hr.linked).staged hc₁)
  obtain ⟨a, horigin, -⟩ := ha.origin
  have horigin₁ : c₁.origin = .action a := by
    have hsame := congrArg (fun l => l[t]?) hdel.origins
    simpa [hc₁, ha.cell, horigin] using hsame
  have hb := hripe.not_exhausted (hdel.channelled (replay_channelled h) t c₁ hc₁) horigin₁
  rw [hdel.budget] at hb
  refine ⟨hb, ?_⟩
  by_cases hw : c.At .waiting
  · cases payload with
    | none => cases (hlost hw rfl).unique hv
    | some v => exact .inl ⟨hw, rfl⟩
  · exact .inr ⟨v, hsame hw ▸ hv⟩

/--
A completion event unblocks the task it names exactly if the budget is not exhausted, and the task
waits and the event carries a payload, or the task already holds one.
-/
theorem completion_unblocks_iff {id : Int} {t : TaskRef} {c : Cell} {payload : Option String}
    {message : String} {polls : Bool} (h : self.replay history = .ok ctx)
    (ha : Awaited ctx id t c) (he : e.kind = .resolve id payload message polls) :
    self.Unblocks ctx e id payload message t ↔ ¬ctx.world.budget.exhausted ∧
      (c.At .waiting ∧ payload.isSome ∨ ∃ v, c.At (.given v)) := by
  refine ⟨Unblocks.given h ha, fun ⟨hb, hcond⟩ => ?_⟩
  obtain ⟨ctx₁, c₁, h₁, hc₁, hd₁, -, hgiven, -, hsame⟩ :=
    ha.resolved (replay_regular h) (replay_fresh h) payload message
  have hv : ∃ v, c₁.At (.given v) := by
    rcases hcond with ⟨hw, hp⟩ | ⟨v, hv⟩
    · obtain ⟨v, rfl⟩ := Option.isSome_iff_exists.mp hp
      exact ⟨v, hgiven hw v rfl⟩
    · have hw : ¬c.At .waiting := fun hw => by cases hw.unique hv
      exact ⟨v, hsame hw ▸ hv⟩
  obtain ⟨v, hv⟩ := hv
  rw [← (resolveTask_delivery self polls h₁).budget] at hb
  exact .of_given h he h₁ hc₁ hd₁ hv hb

theorem exists_awaited {cells : List Cell} {t : TaskRef} {a : OrchestratorAction}
    (h : (self.replay history).map (fun ctx => (ctx.running, ctx.world.cells)) = .ok (true, cells))
    (hc : cells[t]? = some (.new (.action a))) : ∃ (ctx : OrchestrationExecutorContext) (c : Cell),
      self.replay history = .ok ctx ∧ Awaited ctx a.id t c ∧ c.At .waiting := by
  obtain ⟨ctx, hr, ho⟩ := Except.exists_of_map h
  obtain ⟨hrun, rfl⟩ := Prod.mk.inj ho
  exact ⟨ctx, _, hr, ⟨running_iff.mp hrun, hc, ⟨a, rfl, rfl⟩, rfl, rfl⟩, Cell.at_new _⟩

theorem testOrchestration_awaits : ∃ (ctx : OrchestrationExecutorContext) (c : Cell),
    (executorOf testOrchestration).replay [executionStarted, taskScheduled 1] = .ok ctx ∧
      Awaited ctx 1 0 c ∧ c.At .waiting :=
  exists_awaited (a := newScheduleTaskAction 1 "test" (some "\"input\"")) (t := 0)
    (show _ = Except.ok (true,
      [.new (.action (newScheduleTaskAction 1 "test" (some "\"input\"")))]) by decide) rfl

/--
A completion without a result: the activity is never ready, and when the next event polls the
program again the executor panics.
-/
theorem completion_without_result :
    (∃ (ctx : OrchestrationExecutorContext) (c : Cell),
      (executorOf testOrchestration).replay [executionStarted, taskScheduled 1] = .ok ctx ∧
      Awaited ctx 1 0 c ∧ ¬Unblocks (executorOf testOrchestration) ctx (taskCompleted 1 none) 1
        none "failed to unblock activity" 0) ∧
    (executorOf testOrchestration).execute [executionStarted, taskScheduled 1]
      [taskCompleted 1 none] = .ok [] ∧
    (executorOf testOrchestration).execute [executionStarted, taskScheduled 1]
      [taskCompleted 1 none, taskCompleted 1 (some "\"hello\"")] = .error .calledAfterComplete := by
  refine ⟨?_, by decide, by decide⟩
  obtain ⟨ctx, c, h, ha, hw⟩ := testOrchestration_awaits
  refine ⟨ctx, c, h, ha, fun hu => ?_⟩
  rcases (hu.given h ha).2 with ⟨-, hp⟩ | ⟨v, hv⟩
  · cases hp
  · cases hw.unique hv

theorem completion_with_result : ∃ (ctx : OrchestrationExecutorContext) (c : Cell),
    (executorOf testOrchestration).replay [executionStarted, taskScheduled 1] = .ok ctx ∧
      c.At .waiting ∧ Unblocks (executorOf testOrchestration) ctx
        (taskCompleted 1 (some "\"hello\"")) 1 (some "\"hello\"")
        "failed to unblock activity" 0 := by
  obtain ⟨ctx, c, h, ha, hw⟩ := testOrchestration_awaits
  have hb : ctx.world.budget = some 128 := by
    obtain ⟨ctx', h', hb⟩ := Except.exists_of_map
      (show ((executorOf testOrchestration).replay [executionStarted, taskScheduled 1]).map
        (fun ctx => ctx.world.budget) = .ok (some 128) by decide)
    cases h.symm.trans h'
    exact hb
  refine ⟨ctx, c, h, hw, (completion_unblocks_iff h ha
    (e := taskCompleted 1 (some "\"hello\"")) rfl).mpr ⟨?_, .inl ⟨hw, rfl⟩⟩⟩
  simp [hb, Budget.exhausted]

end OrchestrationExecutorFuture

end DurableTask
