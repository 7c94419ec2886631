import DurableTask.Executor.Turns

/-! # Between two events

Draining empties the three channels, so a context between two events holds all
its senders and actions in the maps of the executor.
-/

namespace DurableTask

open Interaction Queues

theorem AList.lookup_of_erase {α : Type} (m : AList fun _ : Int => α) (id id' : Int) {v : α}
    (h : (m.erase id).lookup id' = some v) : m.lookup id' = some v := by
  by_cases hid : id' = id
  · subst hid
    simp at h
  · rwa [AList.lookup_erase_ne hid] at h

namespace OrchestrationExecutorContext

variable {env : Env} {ctx ctx' : OrchestrationExecutorContext}

/-- Nothing is on its way from the program to the executor. -/
structure Drained (ctx : OrchestrationExecutorContext) : Prop where
  actions : ctx.world.octx.actionsTx = []
  tasks : ctx.world.octx.tasksTx = []
  events : ctx.world.octx.eventsTx = []

def counterAfter (l : List (Int × OrchestratorAction)) (n : Int) : Int :=
  l.foldl (fun n m => if m.1 > 0 then m.1 else n) n

def insertAll (l : List (Int × OrchestratorAction))
    (actions : AList fun _ : Int => OrchestratorAction) : AList fun _ : Int => OrchestratorAction :=
  l.foldl (fun acc m => acc.insert m.1 m.2) actions

section Insertions

variable {l : List (Int × OrchestratorAction)} {m : Int × OrchestratorAction} {id : Int}
  {actions : AList fun _ : Int => OrchestratorAction}

@[simp] theorem insertAll_nil : insertAll [] actions = actions := rfl

@[simp] theorem insertAll_cons :
    insertAll (m :: l) actions = insertAll l (actions.insert m.1 m.2) := rfl

theorem lookup_insertAll_eq :
    (insertAll l actions).lookup id = (l.reverse.lookup id).or (actions.lookup id) := by
  induction l using List.reverseRecOn with
  | nil => rfl
  | append_singleton l m ih =>
    have happ : insertAll (l ++ [m]) actions = (insertAll l actions).insert m.1 m.2 := by
      simp [insertAll]
    rw [happ, List.reverse_append, List.reverse_singleton, List.singleton_append, List.lookup_cons]
    by_cases hid : id = m.1
    · subst hid
      rw [AList.lookup_insert, beq_self_eq_true]
      rfl
    · rw [AList.lookup_insert_ne hid, ih, beq_eq_false_iff_ne.mpr hid]

theorem lookup_insertAll_of_notMem (h : id ∉ l.map Prod.fst) :
    (insertAll l actions).lookup id = actions.lookup id := by
  induction l generalizing actions with
  | nil => rfl
  | cons m l ih =>
    rw [List.map_cons, List.mem_cons, not_or] at h
    rw [insertAll_cons, ih h.2, AList.lookup_insert_ne h.1]

theorem lookup_insertAll_of_mem (hn : (l.map Prod.fst).Nodup) (hm : m ∈ l) :
    (insertAll l actions).lookup m.1 = some m.2 := by
  induction l generalizing actions with
  | nil => cases hm
  | cons m' l ih =>
    rw [List.map_cons, List.nodup_cons] at hn
    rw [insertAll_cons]
    rcases List.mem_cons.mp hm with rfl | hm
    · rw [lookup_insertAll_of_notMem hn.1, AList.lookup_insert]
    · exact ih hn.2 hm

theorem lookup_insertAll {a : OrchestratorAction} (h : (insertAll l actions).lookup id = some a) :
    (id, a) ∈ l ∨ actions.lookup id = some a := by
  induction l generalizing actions with
  | nil => exact .inr h
  | cons m l ih =>
    rcases ih h with hm | hl
    · exact .inl (List.mem_cons_of_mem _ hm)
    · by_cases hid : id = m.1
      · subst hid
        rw [AList.lookup_insert] at hl
        cases hl
        exact .inl List.mem_cons_self
      · rw [AList.lookup_insert_ne hid] at hl
        exact .inr hl

end Insertions

theorem foldl_takeAction (l : List (Int × OrchestratorAction))
    (ctx : OrchestrationExecutorContext) :
    l.foldl takeAction ctx = { ctx with
      sequenceNumber := counterAfter l ctx.sequenceNumber
      pendingActions := insertAll l ctx.pendingActions
      inserted := ctx.inserted ++ l } := by
  induction l generalizing ctx with
  | nil => simp [counterAfter, insertAll]
  | cons m l ih =>
    rw [List.foldl_cons, ih]
    simp only [takeAction, insertAction, counterAfter, insertAll, List.foldl_cons]
    split <;> simp

@[simp] theorem takeTask_octx (m : Int × TaskRef) :
    (ctx.takeTask m).world.octx = ctx.world.octx := by
  unfold takeTask
  cases ctx.pendingTasks.lookup m.1 <;> rfl

@[simp] theorem takeTask_receivedEvents (m : Int × TaskRef) :
    (ctx.takeTask m).world.receivedEvents = ctx.world.receivedEvents := by
  unfold takeTask
  cases ctx.pendingTasks.lookup m.1 <;> rfl

@[simp] theorem takeTask_length (m : Int × TaskRef) :
    (ctx.takeTask m).world.cells.length = ctx.world.cells.length := by
  unfold takeTask
  cases ctx.pendingTasks.lookup m.1 <;> simp [World.dropSender]

theorem takeTask_cells (m : Int × TaskRef) (t : TaskRef) :
    (ctx.takeTask m).world.cells[t]? = if ctx.pendingTasks.lookup m.1 = some t then
      ctx.world.cells[t]?.map fun c => { c with task.unblockRx := .closed }
    else ctx.world.cells[t]? := by
  unfold takeTask
  cases hl : ctx.pendingTasks.lookup m.1 with
  | none => simp
  | some u => by_cases ht : u = t <;> simp [World.dropSender, ht]

theorem foldl_takeTask (l : List (Int × TaskRef)) (ctx : OrchestrationExecutorContext) :
    ∃ pendingTasks cells,
      l.foldl takeTask ctx = { ctx with pendingTasks, world.cells := cells } := by
  induction l generalizing ctx with
  | nil => exact ⟨_, _, rfl⟩
  | cons m l ih =>
    obtain ⟨tasks, cells, h⟩ := ih (ctx.takeTask m)
    refine ⟨tasks, cells, ?_⟩
    rw [List.foldl_cons, h]
    simp only [takeTask]
    cases ctx.pendingTasks.lookup m.1 <;> rfl

theorem foldl_takeWaiter (l : List (String × TaskRef)) (ctx : OrchestrationExecutorContext) :
    ∃ pendingEvents, l.foldl takeWaiter ctx = { ctx with pendingEvents } := by
  induction l generalizing ctx with
  | nil => exact ⟨_, rfl⟩
  | cons m l ih =>
    obtain ⟨events, h⟩ := ih (ctx.takeWaiter m)
    exact ⟨events, by rw [List.foldl_cons, h]; rfl⟩

theorem takeTask_map {α : Type} {f : Cell → α}
    (hf : ∀ c : Cell, f { c with task.unblockRx := .closed } = f c) (m : Int × TaskRef) :
    (ctx.takeTask m).world.cells.map f = ctx.world.cells.map f := by
  apply List.ext_getElem?
  intro t
  rw [List.getElem?_map, List.getElem?_map, takeTask_cells]
  split
  · cases ctx.world.cells[t]? <;> simp [hf]
  · rfl

/-- Draining leaves the tasks as they are but for their channels. -/
theorem drain_map {α : Type} {f : Cell → α}
    (hf : ∀ c : Cell, f { c with task.unblockRx := .closed } = f c) :
    ctx.drain.world.cells.map f = ctx.world.cells.map f := by
  have ha (ctx : OrchestrationExecutorContext) :
      ctx.drainActions.world.cells = ctx.world.cells := by
    rw [drainActions, foldl_takeAction]
  have ht (l : List (Int × TaskRef)) (ctx : OrchestrationExecutorContext) :
      (l.foldl takeTask ctx).world.cells.map f = ctx.world.cells.map f := by
    induction l generalizing ctx with
    | nil => rfl
    | cons m l ih => rw [List.foldl_cons, ih, takeTask_map hf]
  have he (ctx : OrchestrationExecutorContext) :
      ctx.drainEvents.world.cells = ctx.world.cells := by
    obtain ⟨events, h⟩ := foldl_takeWaiter ctx.world.octx.eventsTx
      { ctx with world.octx.eventsTx := [] }
    rw [drainEvents, h]
  unfold drain
  split
  · rw [he, drainTasks, ht, ha]
  · rfl

theorem drain_origins :
    ctx.drain.world.cells.map Cell.origin = ctx.world.cells.map Cell.origin :=
  drain_map fun _ => rfl

theorem drain_dropped :
    ctx.drain.world.cells.map Cell.dropped = ctx.world.cells.map Cell.dropped :=
  drain_map fun _ => rfl

/-- What draining does: the actions are inserted in the order in which they were sent. -/
theorem drain_eq (hfn : ctx.orchestratorFn.isSome) :
    ∃ pendingTasks pendingEvents cells, ctx.drain = { ctx with
      sequenceNumber := counterAfter ctx.world.octx.actionsTx ctx.sequenceNumber
      pendingActions := insertAll ctx.world.octx.actionsTx ctx.pendingActions
      inserted := ctx.inserted ++ ctx.world.octx.actionsTx
      pendingTasks, pendingEvents
      world := { ctx.world with
        cells
        octx := { ctx.world.octx with actionsTx := [], tasksTx := [], eventsTx := [] } } } := by
  simp only [drain, if_pos hfn, drainActions, foldl_takeAction]
  obtain ⟨tasks, cells, ht⟩ := foldl_takeTask ctx.world.octx.tasksTx { ctx with
    sequenceNumber := counterAfter ctx.world.octx.actionsTx ctx.sequenceNumber
    pendingActions := insertAll ctx.world.octx.actionsTx ctx.pendingActions
    inserted := ctx.inserted ++ ctx.world.octx.actionsTx
    world.octx := { ctx.world.octx with actionsTx := [], tasksTx := [] } }
  simp only [drainTasks, ht]
  obtain ⟨events, he⟩ := foldl_takeWaiter ctx.world.octx.eventsTx { ctx with
    sequenceNumber := counterAfter ctx.world.octx.actionsTx ctx.sequenceNumber
    pendingActions := insertAll ctx.world.octx.actionsTx ctx.pendingActions
    inserted := ctx.inserted ++ ctx.world.octx.actionsTx
    pendingTasks := tasks
    world := { ctx.world with
      cells, octx := { ctx.world.octx with actionsTx := [], tasksTx := [], eventsTx := [] } } }
  simp only [drainEvents, he]
  exact ⟨tasks, events, cells, rfl⟩

theorem drain_pendingActions (hfn : ctx.orchestratorFn.isSome) :
    ctx.drain.pendingActions = insertAll ctx.world.octx.actionsTx ctx.pendingActions := by
  obtain ⟨tasks, events, cells, h⟩ := drain_eq hfn
  rw [h]

theorem drain_of_none (hfn : ctx.orchestratorFn = none) : ctx.drain = ctx := by
  simp [drain, hfn]

@[simp] theorem drain_orchestratorFn : ctx.drain.orchestratorFn = ctx.orchestratorFn := by
  by_cases hfn : ctx.orchestratorFn.isSome
  · obtain ⟨tasks, events, cells, h⟩ := drain_eq hfn
    rw [h]
  · rw [drain_of_none (by simpa using hfn)]

@[simp] theorem drain_running : ctx.drain.running = ctx.running := by simp [running]

theorem drained_drain (hfn : ctx.orchestratorFn.isSome) : ctx.drain.Drained := by
  obtain ⟨tasks, events, cells, h⟩ := drain_eq hfn
  rw [h]
  exact ⟨rfl, rfl, rfl⟩

end OrchestrationExecutorContext

open OrchestrationExecutorContext

variable {env : Env} {ctx ctx' : OrchestrationExecutorContext}

/-- Without a program only the executor's own books change. -/
theorem Moves.of_none (hfn : ctx.orchestratorFn = none) (hd : ctx.Drained)
    (h : Moves env ctx ctx') :
    ctx'.orchestratorFn = none ∧ ctx'.world = ctx.world ∧ ctx'.pendingTasks = ctx.pendingTasks ∧
      ctx'.pendingEvents = ctx.pendingEvents := by
  induction h with
  | refl => exact ⟨hfn, rfl, rfl, rfl⟩
  | tail _ hm ih =>
    obtain ⟨hfn', hw, ht, he⟩ := ih
    cases hm with
    | note => exact ⟨hfn', hw, ht, he⟩
    | wake base f hf => rw [hfn'] at hf; cases hf
    | step base f w hf => rw [hfn'] at hf; cases hf
    | suspend base f f' hf => rw [hfn'] at hf; cases hf
    | finish base f r hf => rw [hfn'] at hf; cases hf
    | takeAction m rest hm => rw [hw, hd.actions] at hm; cases hm
    | takeTask m rest hm => rw [hw, hd.tasks] at hm; cases hm
    | takeWaiter m rest hm => rw [hw, hd.events] at hm; cases hm

theorem Moves.none_of_none (h : Moves env ctx ctx') (hfn : ctx'.orchestratorFn = none) :
    ctx.orchestratorFn = none := by
  induction h with
  | refl => exact hfn
  | tail _ hm ih =>
    apply ih
    cases hm with
    | takeAction m rest _ =>
      rw [takeAction_eq] at hfn
      exact hfn
    | suspend base f f' hf => cases hfn
    | finish base f r hf => cases hfn
    | _ => exact hfn

theorem World.send_ok {w w' : World} {t : TaskRef} {v : Option String}
    (h : w.send t v = some w') : ∃ c, w.cells[t]? = some c ∧ c.dropped = false ∧
      w' = { w with
        cells := w.cells.set t { c with task.unblockRx := .sent v }
        notified := true } := by
  unfold World.send at h
  split at h
  · cases h
  · rename_i c hc
    split at h
    · cases h
    · rename_i hd
      cases h
      exact ⟨c, hc, by simpa using hd, rfl⟩

theorem World.send_octx {w w' : World} {t : TaskRef} {v : Option String}
    (h : w.send t v = some w') : w'.octx = w.octx := by
  obtain ⟨c, -, -, rfl⟩ := World.send_ok h
  rfl

theorem Delivery.octx {k : EventKind} (h : Delivery env ctx k ctx') :
    ctx'.world.octx = ctx.world.octx := by
  cases h with
  | send id v message polls t w hl hs => exact World.send_octx hs
  | give e t waiters w hl hs => exact World.send_octx hs
  | _ => rfl

theorem Delivery.budget {k : EventKind} (h : Delivery env ctx k ctx') :
    ctx'.world.budget = ctx.world.budget := by
  have sent {t : TaskRef} {v : Option String} {w : World} (hs : ctx.world.send t v = some w) :
      w.budget = ctx.world.budget := by
    obtain ⟨c, -, -, rfl⟩ := World.send_ok hs
    rfl
  cases h with
  | send id v message polls t w hl hs => exact sent hs
  | give e t waiters w hl hs => exact sent hs
  | _ => rfl

/-- A delivery leaves the tasks where they are. -/
theorem Delivery.origins {k : EventKind} (h : Delivery env ctx k ctx') :
    ctx'.world.cells.map Cell.origin = ctx.world.cells.map Cell.origin := by
  have send {t : TaskRef} {v : Option String} {w : World} (hs : ctx.world.send t v = some w) :
      w.cells.map Cell.origin = ctx.world.cells.map Cell.origin := by
    obtain ⟨c, hc, -, rfl⟩ := World.send_ok hs
    apply World.origins_eq (by simp)
    intro u d hd
    by_cases hu : t = u
    · subst hu
      rw [hc] at hd
      cases hd
      exact ⟨{ c with task.unblockRx := .sent v },
        by simp [(List.getElem?_eq_some_iff.mp hc).1], rfl⟩
    · exact ⟨d, by simp [List.getElem?_set_ne hu, hd], rfl⟩
  cases h with
  | send id v message polls t w hl hs => exact send hs
  | give e t waiters w hl hs => exact send hs
  | close id message polls t hl =>
    apply World.origins_eq (by simp [World.dropSender])
    intro u d hd
    by_cases hu : t = u
    · exact ⟨{ d with task.unblockRx := .closed }, by simp [World.dropSender, hu, hd], rfl⟩
    · exact ⟨d, by simp [World.dropSender, hu, hd], rfl⟩
  | _ => rfl

theorem Delivery.length {k : EventKind} (h : Delivery env ctx k ctx') :
    ctx'.world.cells.length = ctx.world.cells.length := by
  simpa using congrArg List.length h.origins

theorem OrchestrationExecutorContext.Drained.of_octx (hd : ctx.Drained)
    (h : ctx'.world.octx = ctx.world.octx) : ctx'.Drained := by
  constructor <;> rw [h]
  exacts [hd.actions, hd.tasks, hd.events]

theorem Delivery.drained {k : EventKind} (h : Delivery env ctx k ctx') (hd : ctx.Drained) :
    ctx'.Drained := hd.of_octx h.octx

namespace OrchestrationExecutorFuture

variable {self : OrchestrationExecutorFuture}

theorem processEvent_drained {e : HistoryEvent} (hc : ctx.isComplete = false) (hd : ctx.Drained)
    (h : self.processEvent ctx e = .ok ctx') : ctx'.drain.Drained := by
  cases hfn : ctx'.orchestratorFn with
  | some fn => exact drained_drain (by simp [hfn])
  | none =>
    rw [drain_of_none hfn]
    obtain ⟨s, -, ht⟩ | ⟨-, ctx₁, hdel, hm⟩ := processEvent_cases hc h
    · obtain rfl | ⟨func, w, -, -, ⟨s, -, rfl⟩ | ⟨r, -, rfl⟩⟩ := ht.start_cases
      · exact hd
      · cases hfn
      · exact hd.of_octx rfl
    · have hfn₁ := hm.none_of_none hfn
      exact (hdel.drained hd).of_octx (by rw [(hm.of_none hfn₁ (hdel.drained hd)).2.1])

theorem replay_drained {history : List HistoryEvent} (h : self.replay history = .ok ctx) :
    ctx.Drained :=
  processEvents_induct (P := fun _ ctx => ctx.Drained) ⟨rfl, rfl, rfl⟩
    (fun _ _ _ _ hr hd he => processEvent_drained (replay_isComplete hr) hd he) h

end OrchestrationExecutorFuture

/-- No orchestrator was started: there is no program, no task and no sender. -/
structure OrchestrationExecutorContext.Unstarted (ctx : OrchestrationExecutorContext) : Prop where
  orchestratorFn : ctx.orchestratorFn = none
  cells : ctx.world.cells = []
  octx : ctx.world.octx = .new "" none
  returned : ctx.world.returned = []
  pendingTasks : ctx.pendingTasks = ∅
  pendingEvents : ctx.pendingEvents = ∅

theorem Delivery.unstarted {k : EventKind} (h : Delivery env ctx k ctx') (hu : ctx.Unstarted) :
    ctx'.Unstarted := by
  cases h with
  | send id v message polls t w hl hs => rw [hu.pendingTasks] at hl; cases hl
  | close id message polls t hl => rw [hu.pendingTasks] at hl; cases hl
  | give e t waiters w hl hs => rw [hu.pendingEvents] at hl; cases hl
  | buffer e hl => exact ⟨hu.1, hu.2, hu.3, hu.4, hu.5, hu.6⟩
  | _ => exact hu

namespace OrchestrationExecutorFuture

variable {self : OrchestrationExecutorFuture}

theorem processEvent_unstarted {e : HistoryEvent} (hc : ctx.isComplete = false)
    (hu : ctx.Unstarted) (he : e.isStart = false) (h : self.processEvent ctx e = .ok ctx') :
    ctx'.drain.Unstarted := by
  obtain ⟨ctx₁, hdel, hm⟩ := processEvent_moves hc he h
  have hu₁ := hdel.unstarted hu
  have hd : ctx₁.Drained := by
    constructor <;> rw [hu₁.octx] <;> rfl
  obtain ⟨hfn, hw, ht, hev⟩ := hm.of_none hu₁.orchestratorFn hd
  rw [drain_of_none hfn]
  exact ⟨hfn, hw ▸ hu₁.cells, hw ▸ hu₁.octx, hw ▸ hu₁.returned, ht.trans hu₁.pendingTasks,
    hev.trans hu₁.pendingEvents⟩

theorem replay_unstarted {history : List HistoryEvent}
    (hn : history.countP HistoryEvent.isStart = 0) (h : self.replay history = .ok ctx) :
    ctx.Unstarted := by
  revert hn
  refine processEvents_induct (P := fun history ctx =>
    history.countP HistoryEvent.isStart = 0 → ctx.Unstarted) ?_ ?_ h
  · exact fun _ => ⟨rfl, rfl, rfl, rfl, rfl, rfl⟩
  · intro past e ctx₁ ctx₂ hr ih he hn
    rw [List.countP_append, Nat.add_eq_zero_iff, List.countP_singleton] at hn
    exact processEvent_unstarted (replay_isComplete hr) (ih hn.1) (by simpa using hn.2) he

/-- In a history with one start, the start finds an executor that holds nothing. -/
theorem replay_induct {P : List HistoryEvent → OrchestrationExecutorContext → Prop}
    {history : List HistoryEvent} (hone : history.countP HistoryEvent.isStart ≤ 1)
    (nil : P [] (.new self.env.budget))
    (step : ∀ past e ctx₁ ctx₂, self.replay past = .ok ctx₁ → P past ctx₁ →
      (e.isStart → past.countP HistoryEvent.isStart = 0) →
      self.processEvent ctx₁ e = .ok ctx₂ → P (past ++ [e]) ctx₂.drain)
    (h : self.replay history = .ok ctx) : P history ctx := by
  revert hone
  refine processEvents_induct (P := fun history ctx =>
    history.countP HistoryEvent.isStart ≤ 1 → P history ctx) (fun _ => nil) ?_ h
  intro past e ctx₁ ctx₂ hr ih he hone
  rw [List.countP_append, List.countP_singleton] at hone
  refine step past e ctx₁ ctx₂ hr (ih (Nat.le_of_add_right_le hone)) (fun hs => ?_) he
  rw [if_pos hs] at hone
  omega

end OrchestrationExecutorFuture

end DurableTask
