import DurableTask.Executor.Drain

/-! # Replays under different clocks

Every episode replays the history under a clock of its own, so a timer that is
created again has another time. Nothing else depends on the clock: two runs
over one history fail alike, or end in states that differ only in the times of
timers and in the books of the executor.
-/

namespace DurableTask

open Interaction Queues OrchestrationExecutorContext

/-- Environments that differ in their clocks and in the order of their hash maps at most. -/
structure Env.Alike (env env' : Env) : Prop where
  toLowercase : env'.toLowercase = env.toLowercase
  budget : env'.budget = env.budget

def OrchestratorAction.timeless (a : OrchestratorAction) : OrchestratorAction :=
  match a.orchestratorActionType with
  | some (.createTimer _) => ⟨a.id, some (.createTimer ⟨none⟩)⟩
  | _ => a

theorem newCreateTimerAction_timeless (id : Int) (fireAt : Timestamp) :
    (newCreateTimerAction id fireAt).timeless = ⟨id, some (.createTimer ⟨none⟩)⟩ := rfl

def Origin.timeless : Origin → Origin
  | .action a => .action a.timeless
  | .signal name => .signal name

def Cell.timeless (c : Cell) : Cell := { c with origin := c.origin.timeless }

/-- Worlds that differ in the times of timers at most, as far as a program can tell. -/
structure World.Alike (w w' : World) : Prop where
  sequenceNumber : w'.octx.sequenceNumber = w.octx.sequenceNumber
  tasksTx : w'.octx.tasksTx = w.octx.tasksTx
  eventsTx : w'.octx.eventsTx = w.octx.eventsTx
  receivedEvents : w'.receivedEvents = w.receivedEvents
  cells : w'.cells.map Cell.timeless = w.cells.map Cell.timeless
  budget : w'.budget = w.budget

theorem Cell.poll_timeless (c : Cell) (b : Budget) :
    c.timeless.poll b = (c.poll b).map fun p => (p.1, p.2.1.timeless, p.2.2) := by
  obtain ⟨origin, task, dropped, outcome⟩ := c
  cases dropped with
  | true => rfl
  | false =>
    simp only [Cell.poll, timeless, Bool.false_eq_true, ↓reduceIte]
    rcases task.poll b with p | ⟨_ | _, t, b'⟩ <;> rfl

theorem Cell.timeless_eq {c c' : Cell} : c'.timeless = c.timeless ↔
    c'.origin.timeless = c.origin.timeless ∧ c'.task = c.task ∧ c'.dropped = c.dropped ∧
      c'.outcome = c.outcome := by
  simp [timeless]

theorem Cell.timeless_drop (c : Cell) : c.drop.timeless = c.timeless.drop := rfl

namespace World.Alike

variable {env env' : Env} {w w' : World} {t : TaskRef}

theorem length (h : w.Alike w') : w'.cells.length = w.cells.length := by
  simpa using congrArg List.length h.cells

theorem get (h : w.Alike w') (t : TaskRef) :
    w'.cells[t]?.map Cell.timeless = w.cells[t]?.map Cell.timeless := by
  rw [← List.getElem?_map, ← List.getElem?_map, h.cells]

theorem append {c c' : Cell} (h : w.Alike w') (hc : c'.timeless = c.timeless) :
    (w'.cells ++ [c']).map Cell.timeless = (w.cells ++ [c]).map Cell.timeless := by
  simp [h.cells, hc]

theorem issue {mk mk' : Int → OrchestratorAction} (h : w.Alike w')
    (hmk : ∀ id, (mk' id).timeless = (mk id).timeless) : (w.issue mk).2.Alike (w'.issue mk').2 where
  sequenceNumber := by simp [h.sequenceNumber]
  tasksTx := by simp [h.tasksTx, h.sequenceNumber, h.length]
  eventsTx := h.eventsTx
  receivedEvents := h.receivedEvents
  cells := h.append (by simp [Cell.new, Cell.timeless, Origin.timeless, h.sequenceNumber, hmk])
  budget := h.budget

theorem awaitSignalEvent (henv : env.Alike env') (h : w.Alike w') (name : String) :
    Agree (SameValue World.Alike) (w.awaitSignalEvent env name)
      (w'.awaitSignalEvent env' name) := by
  unfold World.awaitSignalEvent
  rw [henv.toLowercase, h.receivedEvents]
  dsimp only
  cases w.receivedEvents.lookup (env.toLowercase name) with
  | none =>
    have hevents : (w'.sendEvent (env.toLowercase name) w'.cells.length).octx.eventsTx =
        (w.sendEvent (env.toLowercase name) w.cells.length).octx.eventsTx := by
      simp [World.sendEvent, h.eventsTx, h.length]
    exact .ok ⟨h.length.symm, h.sequenceNumber, h.tasksTx, hevents, h.receivedEvents,
      h.append rfl, h.budget⟩
  | some received =>
    rcases received with _ | ⟨_ | payload, received⟩
    · exact .error _
    · exact .error _
    · exact .ok ⟨h.length.symm, h.sequenceNumber, h.tasksTx, h.eventsTx, rfl, h.append rfl,
        h.budget⟩

theorem set {c c' : Cell} {b b' : Budget} (h : w.Alike w') (t : TaskRef)
    (hc : c'.timeless = c.timeless) (hb : b' = b) :
    { w with cells := w.cells.set t c, budget := b }.Alike
      { w' with cells := w'.cells.set t c', budget := b' } :=
  ⟨h.sequenceNumber, h.tasksTx, h.eventsTx, h.receivedEvents,
    by simp [List.map_set, h.cells, hc], hb⟩

theorem pollTask (h : w.Alike w') (t : TaskRef) :
    Agree (SameValue World.Alike) (w.pollTask t) (w'.pollTask t) := by
  have hget := h.get t
  unfold World.pollTask
  cases hc : w.cells[t]? with
  | none =>
    rw [hc, Option.map_none, Option.map_eq_none_iff] at hget
    rw [hget]
    exact .error _
  | some c =>
    rw [hc, Option.map_some] at hget
    obtain ⟨c', hc', hcc⟩ := Option.map_eq_some_iff.mp hget
    have hp := Cell.poll_timeless c' w.budget
    rw [hcc, Cell.poll_timeless] at hp
    rw [hc', h.budget]
    dsimp only
    generalize c.poll w.budget = x at hp ⊢
    generalize c'.poll w.budget = y at hp ⊢
    rcases x with p | ⟨r, c₁, b₁⟩ <;> rcases y with p' | ⟨r', c₁', b₁'⟩ <;>
      simp only [Except.map, Except.ok.injEq, Except.error.injEq, Prod.mk.injEq, reduceCtorEq] at hp
    · exact hp ▸ .error _
    · obtain ⟨rfl, hc₁, rfl⟩ := hp
      exact .ok ⟨rfl, h.set t hc₁.symm rfl⟩

/-- A change of one task that does not look at its origin. -/
theorem modify {f : Cell → Cell} (hf : ∀ c, (f c).timeless = f c.timeless) (h : w.Alike w')
    (t : TaskRef) :
    { w with cells := w.cells.modify t f }.Alike { w' with cells := w'.cells.modify t f } := by
  refine ⟨h.sequenceNumber, h.tasksTx, h.eventsTx, h.receivedEvents, ?_, h.budget⟩
  apply List.ext_getElem?
  intro u
  have hget := h.get u
  simp only [List.getElem?_map, List.getElem?_modify]
  by_cases hu : t = u
  · cases hc : w.cells[u]? <;> cases hc' : w'.cells[u]? <;> simp_all
  · simpa [hu] using hget

theorem dropSender (h : w.Alike w') (t : TaskRef) : (w.dropSender t).Alike (w'.dropSender t) := by
  have hf (c : Cell) : Cell.timeless { c with task.unblockRx := .closed } =
      { c.timeless with task.unblockRx := .closed } := rfl
  exact h.modify hf t

theorem handle (henv : env.Alike env') (o : Op) (h : w.Alike w') :
    Agree (SameValue World.Alike) (handle env o w) (DurableTask.handle env' o w') := by
  cases o with
  | createTimer millis =>
    have h' : { w with clockReads := w.clockReads + 1 }.Alike
        { w' with clockReads := w'.clockReads + 1 } :=
      ⟨h.sequenceNumber, h.tasksTx, h.eventsTx, h.receivedEvents, h.cells, h.budget⟩
    refine .ok ⟨h.length.symm, h'.issue fun id => ?_⟩
    rw [newCreateTimerAction_timeless, newCreateTimerAction_timeless]
  | scheduleActivity name input => exact .ok ⟨h.length.symm, h.issue fun _ => rfl⟩
  | scheduleSubOrchestrator name instanceId input =>
    exact .ok ⟨h.length.symm, h.issue fun _ => rfl⟩
  | awaitSignalEvent name => exact h.awaitSignalEvent henv name
  | poll t => exact h.pollTask t
  | drop t => exact .ok ⟨rfl, h.modify Cell.timeless_drop t⟩
  | panic message => exact .error _

theorem run {α : Type} (henv : env.Alike env') (m : OrchestratorProg α) (h : w.Alike w') :
    Agree (SameValue World.Alike) (m.run (DurableTask.handle env) w)
      (m.run (DurableTask.handle env') w') :=
  Prog.run_agree (fun o _ _ h => h.handle henv o) m h

theorem dropFrom (h : w.Alike w') (base : TaskRef) :
    (w.dropFrom base).Alike (w'.dropFrom base) := by
  refine ⟨h.sequenceNumber, h.tasksTx, h.eventsTx, h.receivedEvents, ?_, h.budget⟩
  apply List.ext_getElem?
  intro u
  have hget := h.get u
  simp only [List.getElem?_map, World.dropFrom_cells]
  split
  · exact hget
  · cases hc : w.cells[u]? <;> cases hc' : w'.cells[u]? <;> simp_all [Cell.timeless_drop]

theorem dropBefore (h : w.Alike w') (base : TaskRef) :
    (w.dropBefore base).Alike (w'.dropBefore base) := by
  refine ⟨h.sequenceNumber, h.tasksTx, h.eventsTx, h.receivedEvents, ?_, h.budget⟩
  apply List.ext_getElem?
  intro u
  have hget := h.get u
  simp only [List.getElem?_map, World.dropBefore_cells]
  split
  · cases hc : w.cells[u]? <;> cases hc' : w'.cells[u]? <;> simp_all [Cell.timeless_drop]
  · exact hget

/-- Both sends fail, or both succeed. -/
theorem send (h : w.Alike w') (t : TaskRef) (v : Option String) :
    (w.send t v = none ∧ w'.send t v = none) ∨
      ∃ w₁ w₁', w.send t v = some w₁ ∧ w'.send t v = some w₁' ∧ w₁.Alike w₁' := by
  have hget := h.get t
  unfold World.send
  cases hc : w.cells[t]? with
  | none =>
    rw [hc, Option.map_none, Option.map_eq_none_iff] at hget
    exact .inl ⟨rfl, by rw [hget]⟩
  | some c =>
    rw [hc, Option.map_some] at hget
    obtain ⟨c', hc', hcc⟩ := Option.map_eq_some_iff.mp hget
    obtain ⟨ho, ht, hd, hout⟩ := Cell.timeless_eq.mp hcc
    rw [hc']
    dsimp only
    cases hdc : c.dropped with
    | true => exact .inl ⟨by simp, by simp [hd, hdc]⟩
    | false =>
      refine .inr ⟨_, _, by simp; rfl, by simp [hd, hdc]; rfl, ?_⟩
      exact ⟨h.sequenceNumber, h.tasksTx, h.eventsTx, h.receivedEvents,
        by simp [List.map_set, h.cells, Cell.timeless, ht, ho, hout], h.budget⟩

end World.Alike

/-- What the results of a poll of the boxed future have in common. -/
def SamePoll (p q : Poll (OrchestratorResult String) × BoxFuture × World) : Prop :=
  p.1 = q.1 ∧ p.2.1 = q.2.1 ∧ p.2.2.Alike q.2.2

theorem pollUnpin_agree {env env' : Env} {w w' : World} (henv : env.Alike env') (fn : BoxFuture)
    (h : w.Alike w') : Agree SamePoll (fn.pollUnpin env w) (fn.pollUnpin env' w') := by
  cases fn with
  | finished => exact .error _
  | suspended base f =>
    have h' : { w with notified := false }.Alike { w' with notified := false } :=
      ⟨h.sequenceNumber, h.tasksTx, h.eventsTx, h.receivedEvents, h.cells, h.budget⟩
    have hrun := h'.run henv (f.poll f.state)
    simp only [BoxFuture.pollUnpin]
    generalize Prog.run (handle env) (f.poll f.state) { w with notified := false } = x at hrun ⊢
    generalize Prog.run (handle env') (f.poll f.state) { w' with notified := false } = y at hrun ⊢
    cases hrun with
    | error e => exact .error e
    | @ok p q hpq =>
      obtain ⟨r, w₁⟩ := p
      obtain ⟨r', w₁'⟩ := q
      obtain ⟨rfl, hw⟩ := hpq
      cases r with
      | suspended s => exact .ok ⟨rfl, rfl, hw⟩
      | ready r =>
        have hd := World.Alike.dropFrom hw base
        exact .ok ⟨rfl, rfl, hd.sequenceNumber, hd.tasksTx, hd.eventsTx, hd.receivedEvents,
          hd.cells, hd.budget⟩

namespace OrchestrationExecutorContext

/-- Contexts that differ in the times of timers and in the books at most. -/
structure Alike (ctx ctx' : OrchestrationExecutorContext) : Prop where
  isComplete : ctx'.isComplete = ctx.isComplete
  pendingTasks : ctx'.pendingTasks = ctx.pendingTasks
  pendingEvents : ctx'.pendingEvents = ctx.pendingEvents
  orchestratorFn : ctx'.orchestratorFn = ctx.orchestratorFn
  world : ctx.world.Alike ctx'.world

namespace Alike

variable {ctx ctx' : OrchestrationExecutorContext}

theorem resolveTask (h : Alike ctx ctx') (id : Int) (payload : Option String) (message : String) :
    Agree Alike (ctx.resolveTask id payload message) (ctx'.resolveTask id payload message) := by
  simp only [OrchestrationExecutorContext.resolveTask, h.pendingTasks]
  cases ctx.pendingTasks.lookup id with
  | none => exact .ok h
  | some t =>
    cases payload with
    | none =>
      exact .ok ⟨h.isComplete, rfl, h.pendingEvents, h.orchestratorFn, h.world.dropSender t⟩
    | some v =>
      dsimp only
      obtain ⟨hs, hs'⟩ | ⟨w, w', hs, hs', hw⟩ := h.world.send t (some v)
      · rw [hs, hs']
        exact .error _
      · rw [hs, hs']
        exact .ok ⟨h.isComplete, rfl, h.pendingEvents, h.orchestratorFn, hw⟩

theorem drainActions (h : Alike ctx ctx') : Alike ctx.drainActions ctx'.drainActions := by
  simp only [OrchestrationExecutorContext.drainActions, foldl_takeAction]
  exact ⟨h.isComplete, h.pendingTasks, h.pendingEvents, h.orchestratorFn, h.world.sequenceNumber,
    h.world.tasksTx, h.world.eventsTx, h.world.receivedEvents, h.world.cells, h.world.budget⟩

theorem takeTask (h : Alike ctx ctx') (m : Int × TaskRef) :
    Alike (ctx.takeTask m) (ctx'.takeTask m) := by
  simp only [OrchestrationExecutorContext.takeTask, h.pendingTasks]
  refine ⟨h.isComplete, rfl, h.pendingEvents, h.orchestratorFn, ?_⟩
  cases ctx.pendingTasks.lookup m.1 with
  | none => exact h.world
  | some t => exact h.world.dropSender t

theorem drainTasks (h : Alike ctx ctx') : Alike ctx.drainTasks ctx'.drainTasks := by
  have hfold (l : List (Int × TaskRef)) {ctx ctx' : OrchestrationExecutorContext}
      (h : Alike ctx ctx') : Alike (l.foldl OrchestrationExecutorContext.takeTask ctx)
        (l.foldl OrchestrationExecutorContext.takeTask ctx') := by
    induction l generalizing ctx ctx' with
    | nil => exact h
    | cons m l ih => exact ih (h.takeTask m)
  unfold OrchestrationExecutorContext.drainTasks
  rw [h.world.tasksTx]
  exact hfold _ ⟨h.isComplete, h.pendingTasks, h.pendingEvents, h.orchestratorFn,
    h.world.sequenceNumber, rfl, h.world.eventsTx, h.world.receivedEvents, h.world.cells,
    h.world.budget⟩

theorem drainEvents (h : Alike ctx ctx') : Alike ctx.drainEvents ctx'.drainEvents := by
  have hfold (l : List (String × TaskRef)) {ctx ctx' : OrchestrationExecutorContext}
      (h : Alike ctx ctx') : Alike (l.foldl takeWaiter ctx) (l.foldl takeWaiter ctx') := by
    induction l generalizing ctx ctx' with
    | nil => exact h
    | cons m l ih =>
      exact ih ⟨h.isComplete, h.pendingTasks, by simp only [takeWaiter, h.pendingEvents],
        h.orchestratorFn, h.world⟩
  unfold OrchestrationExecutorContext.drainEvents
  rw [h.world.eventsTx]
  exact hfold _ ⟨h.isComplete, h.pendingTasks, h.pendingEvents, h.orchestratorFn,
    h.world.sequenceNumber, h.world.tasksTx, rfl, h.world.receivedEvents, h.world.cells,
    h.world.budget⟩

theorem drain (h : Alike ctx ctx') : Alike ctx.drain ctx'.drain := by
  simp only [OrchestrationExecutorContext.drain, h.orchestratorFn]
  split
  · exact h.drainActions.drainTasks.drainEvents
  · exact h

end Alike

end OrchestrationExecutorContext

namespace OrchestrationExecutorFuture

variable {self : OrchestrationExecutorFuture} {env : Env}
  {ctx ctx' : OrchestrationExecutorContext}

def under (executor : OrchestrationExecutorFuture) (env : Env) : OrchestrationExecutorFuture :=
  { executor with env }

theorem poll_agree (henv : self.env.Alike env) (h : Alike ctx ctx') :
    Agree Alike (self.poll ctx) ((self.under env).poll ctx') := by
  unfold poll
  rw [h.isComplete, h.orchestratorFn]
  split
  · exact .ok h
  · cases ctx.orchestratorFn with
    | none => exact .error _
    | some fn =>
      have hp := pollUnpin_agree henv fn h.world
      simp only [under]
      generalize fn.pollUnpin self.env ctx.world = x at hp ⊢
      generalize fn.pollUnpin env ctx'.world = y at hp ⊢
      cases hp with
      | error e => exact .error e
      | @ok p q hpq =>
        obtain ⟨r, fn₁, w₁⟩ := p
        obtain ⟨r', fn₁', w₁'⟩ := q
        obtain ⟨hr, hfn, hw⟩ := hpq
        dsimp only at hr hfn hw
        subst hr hfn
        cases r with
        | ready r => exact .ok ⟨rfl, h.pendingTasks, h.pendingEvents, rfl, hw⟩
        | pending => exact .ok ⟨rfl, h.pendingTasks, h.pendingEvents, rfl, hw⟩

theorem start_agree (henv : self.env.Alike env) (h : Alike ctx ctx') (e : ExecutionStartedEvent) :
    Agree Alike (self.start ctx e) ((self.under env).start ctx' e) := by
  simp only [start, under]
  cases self.registry.getOrchestrator e.name with
  | none => exact .ok h
  | some func =>
    have hw : { ctx.world with octx := .new self.instanceId e.input }.Alike
        { ctx'.world with octx := .new self.instanceId e.input } :=
      ⟨rfl, rfl, rfl, h.world.receivedEvents, h.world.cells, h.world.budget⟩
    have hp := pollUnpin_agree henv (.suspended ctx.world.cells.length
      (func.call self.instanceId e.input)) hw
    rw [h.world.length]
    dsimp only
    generalize BoxFuture.pollUnpin self.env _ _ = x at hp ⊢
    generalize BoxFuture.pollUnpin env _ _ = y at hp ⊢
    cases hp with
    | error e => exact .error e
    | @ok p q hpq =>
      obtain ⟨r, fn₁, w₁⟩ := p
      obtain ⟨r', fn₁', w₁'⟩ := q
      obtain ⟨hr, hfn, hw₁⟩ := hpq
      dsimp only at hr hfn hw₁
      subst hr hfn
      cases r with
      | ready r =>
        exact .ok ⟨h.isComplete, h.pendingTasks, h.pendingEvents, h.orchestratorFn,
          h.world.sequenceNumber, h.world.tasksTx, h.world.eventsTx, hw₁.receivedEvents, hw₁.cells,
          hw₁.budget⟩
      | pending =>
        exact .ok ⟨h.isComplete, h.pendingTasks, h.pendingEvents, rfl, hw₁.dropBefore _⟩

theorem executionCompleted_agree (henv : self.env.Alike env) (h : Alike ctx ctx') :
    Agree Alike (self.executionCompleted ctx) ((self.under env).executionCompleted ctx') := by
  unfold executionCompleted
  rw [h.orchestratorFn]
  cases ctx.orchestratorFn with
  | none => exact .ok h
  | some fn =>
    have hp := pollUnpin_agree henv fn h.world
    simp only [under]
    generalize fn.pollUnpin self.env ctx.world = x at hp ⊢
    generalize fn.pollUnpin env ctx'.world = y at hp ⊢
    cases hp with
    | error e => exact .error e
    | ok hpq =>
      exact .ok ⟨h.isComplete, h.pendingTasks, h.pendingEvents, congrArg some hpq.2.1.symm, hpq.2.2⟩

theorem eventRaised_agree (henv : self.env.Alike env) (h : Alike ctx ctx') (e : EventRaisedEvent) :
    Agree Alike (self.eventRaised ctx e) ((self.under env).eventRaised ctx' e) := by
  have hname : (self.under env).env.toLowercase = self.env.toLowercase := henv.toLowercase
  unfold eventRaised
  rw [hname, h.pendingEvents]
  dsimp only
  cases ctx.pendingEvents.lookup (self.env.toLowercase e.name) with
  | none =>
    have hr : (ctx'.world.receivedEvents.push (self.env.toLowercase e.name) e.input) =
        ctx.world.receivedEvents.push (self.env.toLowercase e.name) e.input := by
      rw [h.world.receivedEvents]
    exact .ok ⟨h.isComplete, h.pendingTasks, h.pendingEvents, h.orchestratorFn,
      h.world.sequenceNumber, h.world.tasksTx, h.world.eventsTx, hr, h.world.cells, h.world.budget⟩
  | some waiters =>
    rcases waiters with _ | ⟨t, waiters⟩
    · exact .error _
    · dsimp only [List.head?_cons]
      obtain ⟨hs, hs'⟩ | ⟨w, w', hs, hs', hw⟩ := h.world.send t e.input
      · rw [hs, hs']
        exact .error _
      · rw [hs, hs']
        exact poll_agree henv ⟨h.isComplete, h.pendingTasks, rfl, h.orchestratorFn, hw⟩

theorem resolveAndPoll_agree (henv : self.env.Alike env) (h : Alike ctx ctx') (id : Int)
    (payload : Option String) (message : String) :
    Agree Alike (self.resolveAndPoll ctx id payload message)
      ((self.under env).resolveAndPoll ctx' id payload message) := by
  have hr := h.resolveTask id payload message
  unfold resolveAndPoll
  generalize ctx.resolveTask id payload message = x at hr ⊢
  generalize ctx'.resolveTask id payload message = y at hr ⊢
  cases hr with
  | error e => exact .error e
  | ok h₁ => exact poll_agree henv h₁

theorem executionTerminated_alike (h : Alike ctx ctx') :
    Alike ctx.executionTerminated ctx'.executionTerminated := by
  simp only [executionTerminated, setComplete, h.isComplete]
  split
  · exact ⟨h.isComplete, h.pendingTasks, h.pendingEvents, h.orchestratorFn, h.world⟩
  · exact ⟨rfl, h.pendingTasks, h.pendingEvents, h.orchestratorFn, h.world⟩

/-- One event keeps two executors under different clocks alike, or makes both fail. -/
theorem processEvent_agree (henv : self.env.Alike env) (h : Alike ctx ctx') (e : HistoryEvent) :
    Agree Alike (self.processEvent ctx e) ((self.under env).processEvent ctx' e) := by
  rw [processEvent_eq, processEvent_eq]
  cases e.kind with
  | skip => exact .ok h
  | tick timestamp =>
    exact .ok ⟨h.isComplete, h.pendingTasks, h.pendingEvents, h.orchestratorFn, h.world⟩
  | start e => exact start_agree henv h e
  | complete => exact executionCompleted_agree henv h
  | terminate => exact .ok (executionTerminated_alike h)
  | acknowledge id =>
    exact .ok ⟨h.isComplete, h.pendingTasks, h.pendingEvents, h.orchestratorFn, h.world⟩
  | resolve id payload message polls =>
    cases polls with
    | false => exact h.resolveTask id payload message
    | true => exact resolveAndPoll_agree henv h id payload message
  | raise e => exact eventRaised_agree henv h e

theorem processEvents_agree (henv : self.env.Alike env) (h : Alike ctx ctx')
    (events : List HistoryEvent) :
    Agree Alike (self.processEvents ctx events) ((self.under env).processEvents ctx' events) := by
  induction events generalizing ctx ctx' with
  | nil => exact .ok h
  | cons e events ih =>
    have he := processEvent_agree henv h e
    unfold processEvents
    generalize self.processEvent ctx e = x at he ⊢
    generalize (self.under env).processEvent ctx' e = y at he ⊢
    cases he with
    | error p => exact .error p
    | ok h₁ => exact ih h₁.drain

/-- Replays of one history under two clocks fail alike, or end in states that are alike. -/
theorem replay_agree (henv : self.env.Alike env) (history : List HistoryEvent) :
    Agree Alike (self.replay history) ((self.under env).replay history) := by
  have hnew : Alike (.new self.env.budget) (.new env.budget) :=
    ⟨rfl, rfl, rfl, rfl, rfl, rfl, rfl, rfl, rfl, henv.budget⟩
  exact processEvents_agree henv hnew history

end OrchestrationExecutorFuture

end DurableTask
