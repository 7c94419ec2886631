import DurableTask.Guarantees.Blocking
import DurableTask.Guarantees.Maps

/-! # Fan-out and fan-in

An orchestrator that starts its activities together and joins them returns at
the last result, whichever that is, and with the results in the order of the
calls. Acknowledgements may come at any time.
-/

namespace DurableTask

open Interaction OrchestrationExecutorContext

/-- The task is live and has no result. -/
def World.Waits (w : World) (t : TaskRef) : Prop :=
  ∃ c, w.cells[t]? = some c ∧ c.dropped = false ∧ c.At .waiting

def World.fill (w : World) (t : TaskRef) (c : Cell) : World :=
  { w with cells := w.cells.set t c, notified := false }

def Cell.given (origin : Origin) (payload : String) : Cell :=
  ⟨origin, ⟨false, none, .sent (some payload)⟩, false, none⟩

def Cell.resolved (origin : Origin) (payload : String) : Cell :=
  ⟨origin, ⟨false, none, .taken⟩, false, some payload⟩

section World

variable {w : World} {t u : ℕ} {c : Cell} {origin : Origin} {payload : String}

theorem World.Waits.fill (h : w.Waits t) (hne : t ≠ u) : (w.fill u c).Waits t := by
  obtain ⟨d, hd, hwait⟩ := h
  exact ⟨d, (List.getElem?_set_ne hne.symm).trans hd, hwait⟩

theorem World.pollTask_fill (ht : t < w.cells.length) (hb : w.budget = none) :
    (w.fill t (.given origin payload)).pollTask t =
      .ok (.ready payload, w.fill t (.resolved origin payload)) := by
  have hc : (w.fill t (.given origin payload)).cells[t]? = some (.given origin payload) :=
    List.getElem?_set_self ht
  rw [World.pollTask_sent hc rfl rfl (by simp [World.fill, hb, Budget.exhausted])]
  simp [World.fill, Cell.given, Cell.resolved, hb, Budget.spend]

end World

namespace OrchestrationExecutorFuture

variable {R : Type} {toJson : List R → Except String String} {decode : Decoder R}
  {calls : List ActivityCall} {result : ℕ → String} {value : ℕ → R} {unacked left : List ℕ}
  {self : OrchestrationExecutorFuture} {ctx ctx' : OrchestrationExecutorContext}
  {past events : List HistoryEvent} {e : HistoryEvent} {j : ℕ}

/-- The `TaskScheduled` of a call. -/
def IsScheduled (calls : List ActivityCall) (j : ℕ) (e : HistoryEvent) : Prop :=
  ∃ call ∈ calls[j]?, e.eventId = j + 1 ∧
    e.eventType = some (.taskScheduled ⟨call.name, some call.payload⟩)

/-- The `TaskCompleted` of a call, with its result. -/
def IsCompleted (result : ℕ → String) (j : ℕ) (e : HistoryEvent) : Prop :=
  e.eventType = some (.taskCompleted ⟨j + 1, some (result j)⟩)

/-- The events acknowledge some calls and complete some calls, each in an order of its own. -/
inductive Arrives (calls : List ActivityCall) (result : ℕ → String) :
    List ℕ → List ℕ → List HistoryEvent → Prop where
  | nil : Arrives calls result [] [] []
  | scheduled {j : ℕ} {unacked left : List ℕ} {e : HistoryEvent} {events : List HistoryEvent}
      (he : IsScheduled calls j e) (h : Arrives calls result unacked left events) :
    Arrives calls result (j :: unacked) left (e :: events)
  | completed {j : ℕ} {unacked left : List ℕ} {e : HistoryEvent} {events : List HistoryEvent}
      (he : IsCompleted result j e) (h : Arrives calls result unacked left events) :
    Arrives calls result unacked (j :: left) (e :: events)

def slotOf (value : ℕ → R) (left : List ℕ) (j : ℕ) : Slot R :=
  if j ∈ left then .inl (some j) else .inr (.ok (value j))

/-- The orchestrator waits for the results of the calls in `left`. -/
structure Gathers (toJson : List R → Except String String) (decode : Decoder R)
    (calls : List ActivityCall) (value : ℕ → R) (unacked left : List ℕ)
    (ctx : OrchestrationExecutorContext) : Prop where
  regular : ctx.Regular
  sequenceNumber : ctx.sequenceNumber = calls.length
  budget : ctx.world.budget = none
  nodup : left.Nodup
  program : ∃ base instanceId input, ctx.orchestratorFn = some (.suspended base
    (((fanOut toJson decode calls).call instanceId input).resume
      (slots decode calls 0 (slotOf value left))))
  lt : ∀ j ∈ unacked ++ left, j < calls.length
  parked : ∀ j ∈ left, ctx.pendingTasks.lookup ((j : Int) + 1) = some j
  waits : ∀ j ∈ left, ctx.world.Waits j
  pendingActions : ∀ i a, ctx.pendingActions.lookup i = some a → ∃ j ∈ unacked, i = j + 1

/-- The orchestrator has returned, and what is pending besides its completion is in `unacked`. -/
structure Gathered (completion : OrchestratorAction) (unacked : List ℕ)
    (ctx : OrchestrationExecutorContext) : Prop where
  regular : ctx.Regular
  ne_completion : ∀ j ∈ unacked, (j : Int) + 1 ≠ completion.id
  completed : ctx.pendingActions.lookup completion.id = some completion
  pendingActions : ∀ i a, ctx.pendingActions.lookup i = some a →
    (∃ j ∈ unacked, i = j + 1) ∨ i = completion.id

theorem slotOf_rests {w : World} (h : j ∈ left → w.Waits j) : (slotOf value left j).Rests w := by
  unfold slotOf
  split
  · rename_i hj
    obtain ⟨c, hc, hlive, hw⟩ := h hj
    exact World.pollTask_waiting hc hlive hw
  · trivial

theorem slotOf_update (hn : (j :: left).Nodup) :
    Function.update (slotOf value (j :: left)) j (.inr (.ok (value j))) = slotOf value left := by
  ext i : 1
  by_cases hi : i = j
  · subst hi
    rw [Function.update_self, slotOf, if_neg (List.nodup_cons.mp hn).1]
  · simp [slotOf, hi]

theorem IsScheduled.kind (h : IsScheduled calls j e) : e.kind = .acknowledge (j + 1) := by
  obtain ⟨call, -, hid, htype⟩ := h
  rw [HistoryEvent.kind, htype, ← hid]

theorem IsScheduled.acknowledges (he : IsScheduled calls j e)
    (self : OrchestrationExecutorFuture) (h : ctx.Regular) :
    self.processEvent ctx e = .ok (ctx.acknowledge (j + 1)) ∧
      (ctx.acknowledge (j + 1)).drain = ctx.acknowledge (j + 1) ∧
      (ctx.acknowledge (j + 1)).Regular := by
  have hp : self.processEvent ctx e = .ok (ctx.acknowledge (j + 1)) :=
    processEvent_acknowledge he.kind
  have hd : (ctx.acknowledge (j + 1)).Drained := h.drained.of_octx rfl
  have hreg := processEvent_regular h hp
  rw [drain_of_drained hd] at hreg
  exact ⟨hp, drain_of_drained hd, hreg⟩

theorem IsCompleted.kind (h : IsCompleted result j e) :
    e.kind = .resolve (j + 1) (some (result j)) "failed to unblock activity" true := by
  rw [IsCompleted] at h
  rw [HistoryEvent.kind, h]

theorem lookup_acknowledge {id i : Int} {a : OrchestratorAction}
    (h : (ctx.acknowledge id).pendingActions.lookup i = some a) :
    i ≠ id ∧ ctx.pendingActions.lookup i = some a := by
  constructor
  · rintro rfl
    rw [acknowledge, AList.lookup_erase] at h
    cases h
  · exact AList.lookup_of_erase _ _ _ h

theorem lookup_insertAction_self (id : Int) (a : OrchestratorAction) :
    (ctx.insertAction id a).pendingActions.lookup id = some a := AList.lookup_insert _

theorem lookup_insertAction_ne {id i : Int} {a : OrchestratorAction} (h : i ≠ id) :
    (ctx.insertAction id a).pendingActions.lookup i = ctx.pendingActions.lookup i :=
  AList.lookup_insert_ne h

section Run

variable (self)

theorem Gathers.scheduled (h : Gathers toJson decode calls value (j :: unacked) left ctx)
    (he : IsScheduled calls j e) : ∃ ctx', self.processEvent ctx e = .ok ctx' ∧
      Gathers toJson decode calls value unacked left ctx'.drain := by
  obtain ⟨hp, hd, hreg⟩ := he.acknowledges self h.regular
  refine ⟨_, hp, ?_⟩
  rw [hd]
  refine ⟨hreg, h.sequenceNumber, h.budget, h.nodup, h.program, ?_, h.parked, h.waits, ?_⟩
  · intro i hi
    exact h.lt i (List.mem_cons_of_mem j hi)
  · intro i a hl
    obtain ⟨hne, hl⟩ := lookup_acknowledge hl
    obtain ⟨j', hj', hi⟩ := h.pendingActions i a hl
    rcases List.mem_cons.mp hj' with rfl | hj'
    · exact absurd hi hne
    · exact ⟨j', hj', hi⟩

def handOver (ctx : OrchestrationExecutorContext) (j : ℕ) (c : Cell) :
    OrchestrationExecutorContext :=
  { ctx with
    pendingTasks := ctx.pendingTasks.erase ((j : Int) + 1)
    world := { ctx.world.fill j c with notified := true } }

theorem Gathers.fills (h : Gathers toJson decode calls value unacked (j :: left) ctx)
    (hv : decode (result j) = .ok (value j)) (he : IsCompleted result j e) : ∃ origin,
      self.processEvent ctx e = self.poll (handOver ctx j (.given origin (result j))) ∧
      (Future.pollAll _ (slots decode calls 0 (slotOf value (j :: left)))).run (handle self.env)
          (ctx.world.fill j (.given origin (result j))) =
        .ok (slots decode calls 0 (slotOf value left),
          ctx.world.fill j (.resolved origin (result j))) := by
  obtain ⟨c, hc, hlive, hw⟩ := h.waits j List.mem_cons_self
  have hlt := (List.getElem?_eq_some_iff.mp hc).1
  obtain ⟨origin, task, dropped, outcome⟩ := c
  obtain ⟨rfl, rfl⟩ := hw
  cases hlive
  refine ⟨origin, ?_, ?_⟩
  · simp only [processEvent_eq, he.kind, processKind, resolveAndPoll, resolveTask,
      h.parked j List.mem_cons_self, World.send, hc]
    rfl
  · have hj : j < 0 + calls.length := by simpa using h.lt j (by simp)
    have hx : slotOf value (j :: left) j = .inl (some j) := if_pos List.mem_cons_self
    rw [← slotOf_update h.nodup]
    apply run_pollAll_ready (Nat.zero_le j) hj hx (World.pollTask_fill hlt h.budget) hv
    intro i _ _ hne
    constructor <;> exact slotOf_rests fun hi => (h.waits i hi).fill hne

/-- A completion event that is not the last leaves the orchestrator suspended. -/
theorem Gathers.completed (h : Gathers toJson decode calls value unacked (j :: left) ctx)
    (hne : left ≠ []) (hv : decode (result j) = .ok (value j)) (he : IsCompleted result j e) :
    ∃ ctx', self.processEvent ctx e = .ok ctx' ∧
      Gathers toJson decode calls value unacked left ctx'.drain := by
  obtain ⟨origin, hp, hrun⟩ := h.fills self hv he
  obtain ⟨base, instanceId, input, hfn⟩ := h.program
  have ne_of_mem (i : ℕ) (hi : i ∈ left) : i ≠ j := by
    rintro rfl
    exact (List.nodup_cons.mp h.nodup).1 hi
  obtain ⟨i, hi⟩ := List.exists_mem_of_ne_nil left hne
  have hlt : i < calls.length := h.lt i (by simp [hi])
  have hx : slotOf value left (0 + i) = .inl (some i) := by
    rw [Nat.zero_add, slotOf, if_pos hi]
  have hjoin := Future.run_joinAll_suspended hrun (holdsTask_slots hlt hx).values
  have hpoll := (run_fanOut toJson instanceId input _ _).trans
    ((congrArg (Except.map _) hjoin).trans rfl)
  have hok := hp.trans (poll_suspended h.regular.incomplete hfn hpoll)
  have hreg := processEvent_regular h.regular hok
  refine ⟨_, hok, ?_⟩
  rw [drain_of_drained] at hreg ⊢
  · refine ⟨hreg, h.sequenceNumber, h.budget, (List.nodup_cons.mp h.nodup).2,
      ⟨base, instanceId, input, rfl⟩, ?_, ?_, ?_, h.pendingActions⟩
    · intro i hi
      exact h.lt i (by grind)
    · intro i hi
      have hij : (i : Int) + 1 ≠ j + 1 := by
        have := ne_of_mem i hi
        omega
      exact (AList.lookup_erase_ne hij).trans (h.parked i (List.mem_cons_of_mem j hi))
    · intro i hi
      exact (h.waits i (List.mem_cons_of_mem j hi)).fill (ne_of_mem i hi)
  all_goals exact h.regular.drained.of_octx rfl

/-- The last completion event makes the orchestrator return. -/
theorem Gathers.last {json : String} (h : Gathers toJson decode calls value unacked [j] ctx)
    (hv : decode (result j) = .ok (value j)) (he : IsCompleted result j e)
    (hjson : toJson ((List.range calls.length).map value) = .ok json) :
    ∃ ctx', self.processEvent ctx e = .ok ctx' ∧
      Gathered (newCompleteOrchestrationAction (calls.length + 1) .completed (some json) [] none)
        unacked ctx'.drain := by
  obtain ⟨origin, hp, hrun⟩ := h.fills self hv he
  obtain ⟨base, instanceId, input, hfn⟩ := h.program
  have hvals : Future.values _ (slots decode calls 0 (slotOf value [])) =
      some ((List.range' 0 calls.length).map fun j => .ok (value j)) :=
    values_slots fun _ _ _ => rfl
  have hjoin := Future.run_joinAll_ready hrun hvals
  have hpoll := (run_fanOut toJson instanceId input _ _).trans
    ((congrArg (Except.map _) hjoin).trans rfl)
  have hok := hp.trans (poll_ready h.regular.incomplete hfn hpoll)
  have hnumber : (handOver ctx j (.given origin (result j))).sequenceNumber + 1 =
      calls.length + 1 := congrArg (· + 1) h.sequenceNumber
  have hresult := fanOutResult_ok hjson
  rw [List.map_map, List.range_eq_range'] at hresult
  have hcompletion : completionAction (calls.length + 1)
      (fanOutResult toJson ((List.range' 0 calls.length).map fun j => .ok (value j))) =
        newCompleteOrchestrationAction (calls.length + 1) .completed (some json) [] none :=
    congrArg _ hresult
  rw [hnumber, hcompletion] at hok
  have hreg := processEvent_regular h.regular hok
  refine ⟨_, hok, ?_⟩
  rw [drain_of_drained] at hreg ⊢
  · refine ⟨hreg, ?_, lookup_insertAction_self _ _, ?_⟩
    · intro i hi
      have hlt := h.lt i (List.mem_append_left _ hi)
      change (i : Int) + 1 ≠ calls.length + 1
      omega
    · intro i a hl
      by_cases hi : i = calls.length + 1
      · exact .inr hi
      · left
        exact h.pendingActions i a ((lookup_insertAction_ne hi).symm.trans hl)
  all_goals exact h.regular.drained.of_octx rfl

theorem Gathered.scheduled {completion : OrchestratorAction}
    (h : Gathered completion (j :: unacked) ctx) (he : IsScheduled calls j e) :
    ∃ ctx', self.processEvent ctx e = .ok ctx' ∧ Gathered completion unacked ctx'.drain := by
  obtain ⟨hp, hd, hreg⟩ := he.acknowledges self h.regular
  refine ⟨_, hp, ?_⟩
  rw [hd]
  refine ⟨hreg, fun i hi => h.ne_completion i (List.mem_cons_of_mem j hi), ?_, ?_⟩
  · exact (AList.lookup_erase_ne (h.ne_completion j List.mem_cons_self).symm).trans h.completed
  · intro i a hl
    obtain ⟨hne, hl⟩ := lookup_acknowledge hl
    rcases h.pendingActions i a hl with ⟨j', hj', hi⟩ | hi
    · rcases List.mem_cons.mp hj' with rfl | hj'
      · exact absurd hi hne
      · exact .inl ⟨j', hj', hi⟩
    · exact .inr hi

theorem Gathered.run {completion : OrchestratorAction} (h : Gathered completion unacked ctx)
    (ha : Arrives calls result unacked left events) (hleft : left = []) :
    ∃ ctx', self.processEvents ctx events = .ok ctx' ∧ Gathered completion [] ctx' := by
  induction ha generalizing ctx with
  | nil => exact ⟨ctx, rfl, h⟩
  | scheduled he _ ih =>
    obtain ⟨ctx₁, hp, h₁⟩ := h.scheduled self he
    obtain ⟨ctx', hrun, h'⟩ := ih h₁ hleft
    exact ⟨ctx', (processEvents_cons_ok hp).trans hrun, h'⟩
  | completed => cases hleft

theorem Gathers.run {json : String} (h : Gathers toJson decode calls value unacked left ctx)
    (ha : Arrives calls result unacked left events) (hleft : left ≠ [])
    (hv : ∀ j < calls.length, decode (result j) = .ok (value j))
    (hjson : toJson ((List.range calls.length).map value) = .ok json) :
    ∃ ctx', self.processEvents ctx events = .ok ctx' ∧
      Gathered (newCompleteOrchestrationAction (calls.length + 1) .completed (some json) [] none)
        [] ctx' := by
  induction ha generalizing ctx with
  | nil => exact absurd rfl hleft
  | scheduled he _ ih =>
    obtain ⟨ctx₁, hp, h₁⟩ := h.scheduled self he
    obtain ⟨ctx', hrun, h'⟩ := ih h₁ hleft
    exact ⟨ctx', (processEvents_cons_ok hp).trans hrun, h'⟩
  | @completed j unacked left e events he ha ih =>
    have hvj := hv j (h.lt j (by simp))
    by_cases hne : left = []
    · subst hne
      obtain ⟨ctx₁, hp, h₁⟩ := h.last self hvj he hjson
      obtain ⟨ctx', hrun, h'⟩ := h₁.run self ha rfl
      exact ⟨ctx', (processEvents_cons_ok hp).trans hrun, h'⟩
    · obtain ⟨ctx₁, hp, h₁⟩ := h.completed self hne hvj he
      obtain ⟨ctx', hrun, h'⟩ := ih h₁ hne
      exact ⟨ctx', (processEvents_cons_ok hp).trans hrun, h'⟩

end Run

theorem Gathered.execute {completion : OrchestratorAction} {oldEvents newEvents : List HistoryEvent}
    (h : Gathered completion [] ctx) (hr : self.replay (oldEvents ++ newEvents) = .ok ctx) :
    self.execute oldEvents newEvents = .ok [completion] := by
  rw [execute_eq, hr]
  have hperm : (ctx.getActions self.env).Perm [completion] := by
    rw [List.perm_ext_iff_of_nodup (getActions_nodup _ hr) (List.nodup_singleton _)]
    intro a
    rw [mem_getActions, List.mem_singleton]
    constructor
    · rintro ⟨id, hl⟩
      obtain ⟨j, hj, -⟩ | rfl := h.pendingActions id a hl
      · cases hj
      · rw [h.completed] at hl
        cases hl
        rfl
    · rintro rfl
      exact ⟨_, h.completed⟩
  exact congrArg Except.ok (List.perm_singleton.mp hperm)

theorem length_callActions {n : Int} : (callActions n calls).length = calls.length := by
  induction calls generalizing n with
  | nil => rfl
  | cons call calls ih => rw [callActions, List.length_cons, ih, List.length_cons]

theorem issued_scheduleAll {w : World} : (scheduleAll calls w).issued =
    w.issued ++ callActions w.octx.sequenceNumber calls := by
  rw [World.issued, scheduleAll_cells, List.filterMap_append, List.filterMap_map]
  congr 1
  exact List.filterMap_some

theorem processEvent_started {name : String} {input : Option String}
    (hreg : self.registry.getOrchestrator name = some (fanOut toJson decode calls))
    (he : e.eventType = some (.executionStarted ⟨name, input⟩)) (hne : calls ≠ []) :
    ∃ ctx, self.processEvent (new self.env.budget) e = .ok ctx ∧
      ctx.orchestratorFn = some (.suspended 0 (((fanOut toJson decode calls).call self.instanceId
        input).resume (slots decode calls 0 fun j => .inl (some j)))) ∧
      ctx.world = scheduleAll calls { (new self.env.budget).world with
        octx := .new self.instanceId input } := by
  have hrun := run_fanOut_first toJson decode self.env hne self.instanceId input
    { (new self.env.budget).world with
      octx := .new self.instanceId input, notified := false }
  have hslots : (slots decode calls 0 fun j => .inl (some (0 + j))) =
      slots decode calls 0 fun j => .inl (some j) := by
    simp only [Nat.zero_add]
  refine ⟨{ new self.env.budget with
    orchestratorFn := some (.suspended 0 (((fanOut toJson decode calls).call self.instanceId
      input).resume (slots decode calls 0 fun j => .inl (some j))))
    world := scheduleAll calls { (new self.env.budget).world with
      octx := .new self.instanceId input } }, ?_, rfl, rfl⟩
  simp only [processEvent, he, start, hreg, BoxFuture.pollUnpin, hrun, ← hslots]
  rfl

section Started

variable (hp : self.processEvent (new self.env.budget) e = .ok ctx)
  (hworld : ctx.world = scheduleAll calls { (new self.env.budget).world with
    octx := .new self.instanceId input })

include hp hworld

theorem started_waits {j : ℕ} (hj : j < calls.length) :
    ctx.drain.pendingTasks.lookup ((j : Int) + 1) = some j ∧ ctx.drain.world.Waits j := by
  have hnew : self.replay [] = .ok (new self.env.budget) := rfl
  have hregular := replay_regular (processEvents_cons_ok hp : self.replay [e] = .ok ctx.drain)
  have horigin : (ctx.world.cells.map Cell.origin)[j]? =
      some (.action (calls[j].action (0 + j + 1))) := by
    rw [hworld]
    exact (congrArg _ (Nat.zero_add j).symm).trans (scheduleAll_origin hj)
  obtain ⟨c, hc, ho, hu⟩ := tracked_of_origin hnew hp (Nat.zero_le j) horigin
  have hlive : c.dropped = false := by
    have hmem := List.mem_map_of_mem (f := Cell.dropped) (List.mem_of_getElem? hc)
    rw [drain_dropped, hworld, scheduleAll_cells] at hmem
    obtain ⟨d, hd, hdropped⟩ := List.mem_map.mp hmem
    obtain ⟨a, -, rfl⟩ := List.mem_map.mp hd
    exact hdropped.symm
  have hw : c.At .waiting := hu.resolve_left fun ha => by simp [ha.1] at hlive
  have hl := hregular.linked.lookup_of_waiting hregular.drained hc ho hlive hw
  have hid : (calls[j].action (0 + j + 1)).id = (j : Int) + 1 := by
    change (0 : Int) + j + 1 = j + 1
    omega
  rw [hid] at hl
  exact ⟨hl, c, hc, hlive, hw⟩

theorem started_mirrors (hsome : ctx.orchestratorFn.isSome)
    (hkind : e.kind ≠ .terminate) : self.Mirrors [e] ctx.drain ∧
      ctx.drain.world.issued.length = calls.length := by
  have hr : self.replay [e] = .ok ctx.drain := processEvents_cons_ok hp
  obtain ⟨tasks, events, cells, hdrain⟩ := drain_eq hsome
  have hreturned : ctx.drain.world.returned = [] := by
    rw [hdrain, hworld]
    exact scheduleAll_frame.2
  refine ⟨(replay_mirrors hr List.countP_le_length (by simpa using hkind) hreturned).1, ?_⟩
  rw [drain_issued, hworld, issued_scheduleAll, List.length_append, length_callActions]
  exact Nat.zero_add _

end Started

/-- `ExecutionStarted` makes the orchestrator wait for all its activities. -/
theorem replay_gathers (value : ℕ → R) {name : String} {input : Option String}
    (hreg : self.registry.getOrchestrator name = some (fanOut toJson decode calls))
    (he : e.eventType = some (.executionStarted ⟨name, input⟩)) (hb : self.env.budget = none)
    (hne : calls ≠ []) (hn : left.Nodup) (hu : ∀ j, j ∈ unacked ↔ j < calls.length)
    (hl : ∀ j, j ∈ left ↔ j < calls.length) :
    ∃ ctx, self.replay [e] = .ok ctx ∧ Gathers toJson decode calls value unacked left ctx := by
  obtain ⟨ctx, hp, hfn, hworld⟩ := processEvent_started hreg he hne
  have hr : self.replay [e] = .ok ctx.drain := processEvents_cons_ok hp
  have hsome : ctx.orchestratorFn.isSome := by
    rw [hfn]
    rfl
  obtain ⟨hm, hissued⟩ := started_mirrors hp hworld hsome (by simp [HistoryEvent.kind, he])
  have hbudget : ctx.drain.world.budget = none := by
    obtain ⟨tasks, events, cells, hdrain⟩ := drain_eq hsome
    rw [hdrain, hworld]
    exact scheduleAll_frame.1.trans hb
  refine ⟨_, hr, replay_regular hr, ?_, hbudget, hn, ⟨0, self.instanceId, input, ?_⟩, ?_, ?_, ?_,
    ?_⟩
  · rw [hm.sequenceNumber, hissued]
  · rw [drain_orchestratorFn, hfn]
    congr 3
    apply slots_congr
    intro j _ hj
    rw [slotOf, if_pos ((hl j).mpr (by omega))]
  · intro j hj
    rcases List.mem_append.mp hj with hj | hj
    · exact (hu j).mp hj
    · exact (hl j).mp hj
  · intro j hj
    exact (started_waits hp hworld ((hl j).mp hj)).1
  · intro j hj
    exact (started_waits hp hworld ((hl j).mp hj)).2
  · intro i a ha
    obtain ⟨-, k, rfl, hk⟩ := hm.lookup_pendingActions i a ha
    have hlt := (List.getElem?_eq_some_iff.mp hk).1
    exact ⟨k, (hu k).mpr (hissued ▸ hlt), rfl⟩

end OrchestrationExecutorFuture

end DurableTask
