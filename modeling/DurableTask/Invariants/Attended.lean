import DurableTask.Executor.Ledger
import DurableTask.Invariants.Fresh
import DurableTask.Invariants.Owned
import DurableTask.Invariants.Queued
import DurableTask.Invariants.Resting
import DurableTask.Runtime.Serving

/-! # Programs that are attended to

In a faithful history every payload is an answer that the service may give to
the request it is delivered for. A program that meets a specification then goes
on to meet it, however the events are ordered and wherever they are cut: in
every state of the run it owns what it waits for, and what it has returned is
as specified.
-/

namespace DurableTask

open Interaction Queues OrchestrationExecutorContext

/-- The payload of the event is an answer to what it is delivered for. -/
def Faithful (env : Env) (service : Service) (ctx : OrchestrationExecutorContext) :
    EventKind → Prop
  | .resolve id payload _ _ => ∀ a ∈ ctx.world.issued, a.id = id →
    ∃ v ∈ payload, ∀ q ∈ a.request?, service q v
  | .raise r => ∃ v ∈ r.input, service (.signal (env.toLowercase r.name)) v
  | _ => True

instance (env : Env) (service : Service) [∀ q v, Decidable (service q v)]
    (ctx : OrchestrationExecutorContext) : (k : EventKind) →
      Decidable (Faithful env service ctx k)
  | .resolve id payload _ _ => inferInstanceAs (Decidable (∀ a ∈ ctx.world.issued, a.id = id →
    ∃ v ∈ payload, ∀ q ∈ a.request?, service q v))
  | .raise r =>
    inferInstanceAs (Decidable (∃ v ∈ r.input, service (.signal (env.toLowercase r.name)) v))
  | .skip | .tick _ | .start _ | .complete | .terminate | .acknowledge _ =>
    inferInstanceAs (Decidable True)

theorem Faithful.mono {env : Env} {service service' : Service} {k : EventKind}
    {ctx : OrchestrationExecutorContext} (h : Faithful env service ctx k)
    (hs : ∀ q v, service q v → service' q v) : Faithful env service' ctx k := by
  cases k with
  | resolve id payload message polls =>
    intro a ha hid
    obtain ⟨v, hv, hq⟩ := h a ha hid
    exact ⟨v, hv, fun q hm => hs q v (hq q hm)⟩
  | raise r => exact h.imp fun v hv => hv.imp_right (hs _ v)
  | _ => trivial

variable {env : Env} {service : Service} {F : Panic → Prop}
  {Q : Spec Spending (OrchestratorResult String)}
  {ctx ctx' : OrchestrationExecutorContext} {w w' : World}

theorem running_congr (h : ctx'.orchestratorFn = ctx.orchestratorFn) :
    ctx'.running = ctx.running := by
  rw [running, running, h]

theorem mem_issued {t : TaskRef} {c : Cell} {a : OrchestratorAction} (hc : w.cells[t]? = some c)
    (ho : c.origin = .action a) : a ∈ w.issued :=
  List.mem_filterMap.mpr ⟨c, List.mem_of_getElem? hc, by rw [ho]; rfl⟩

theorem asks_of_label (h : w'.cells.map Cell.label = w.cells.map Cell.label)
    (ha : ∀ c ∈ w.cells, c.origin.request?.isSome) : ∀ c ∈ w'.cells, c.origin.request?.isSome := by
  intro c' hc'
  obtain ⟨c, hc, hl⟩ := List.mem_map.mp (h ▸ List.mem_map_of_mem (f := Cell.label) hc')
  have ho : c.origin = c'.origin := congrArg Prod.fst hl
  exact ho ▸ ha c hc

theorem World.Serving.asks (hw : w.Serving service) :
    ∀ c ∈ w.cells, c.origin.request?.isSome := by
  intro c hc
  obtain ⟨t, ht⟩ := List.mem_iff_getElem?.mp hc
  exact (hw.tasks ht).asks

theorem cost_of_label (h : w'.cells.map Cell.label = w.cells.map Cell.label) :
    w'.cost = w.cost := by
  have hpair := congrArg (List.map fun l => (l.1, l.2.2)) h
  rw [List.map_map, List.map_map] at hpair
  exact World.cost_congr hpair

/-- The tasks that have not yielded are among these. -/
def World.OpenWithin (w : World) (T : Set TaskRef) : Prop :=
  ∀ (t : TaskRef) (c : Cell), w.cells[t]? = some c → c.outcome = none → t ∈ T

/--
The suspended program goes on to meet its specification from what it has asked for, and unless it
was notified, all tasks of its own that have not yielded hold it up.
-/
structure Attended (env : Env) (service : Service) (F : Panic → Prop)
    (Q : Spec Spending (OrchestratorResult String))
    (f : TaskFuture (OrchestratorResult String)) (w : World) : Prop where
  serving : w.Serving service
  unreturned : w.returned = []
  unready : Q w.cost none
  goes : ∃ T, f.Goes (regime env service F) Q f.state T w.cost w ∧ w.OpenWithin T ∧
    (w.notified = false → ∀ t ∈ T, w.Blocked t)

/-- What holds of the executor between two events of a faithful history. -/
structure OrchestrationExecutorContext.Served (env : Env) (service : Service)
    (F : Panic → Prop) (Q : Spec Spending (OrchestratorResult String))
    (ctx : OrchestrationExecutorContext) : Prop where
  buffered : ctx.world.Buffered service
  asks : ∀ c ∈ ctx.world.cells, c.origin.request?.isSome
  program : ∀ base f, ctx.orchestratorFn = some (.suspended base f) →
    Attended env service F Q f ctx.world
  returned : ctx.world.returned = [] ∨
    ∃ r, ctx.world.returned = [r] ∧ Q ctx.world.cost (some r)
  idle : ctx.running = false → ctx.world.returned = [] → ctx.world.cells = []

/-- What others change is no concern of the program, as long as its tasks are served. -/
theorem Attended.mono {f : TaskFuture (OrchestratorResult String)}
    (h : Attended env service F Q f w) (hw : w'.Serving service)
    (hlabel : w'.cells.map Cell.label = w.cells.map Cell.label)
    (hreturned : w'.returned = w.returned)
    (hblocked : w'.notified = false → w.notified = false ∧ ∀ t, w.Blocked t → w'.Blocked t) :
    Attended env service F Q f w' := by
  obtain ⟨-, hret, hQ, T, hg, hopen, hT⟩ := h
  have hlabel_at (t : TaskRef) : w'.cells[t]?.map Cell.label = w.cells[t]?.map Cell.label := by
    have ht := congrArg (·[t]?) hlabel
    simp only [List.getElem?_map] at ht
    exact ht
  have hcost := cost_of_label hlabel
  refine ⟨hw, hreturned.trans hret, hcost ▸ hQ, T, ?_, fun t c' hc' hn => ?_, fun hn t ht => ?_⟩
  · rw [hcost]
    exact hg.stable (fun t _ => hlabel_at t) hw
  · have ht := hlabel_at t
    rw [hc', Option.map_some] at ht
    obtain ⟨c, hc, hl⟩ := Option.map_eq_some_iff.mp ht.symm
    have ho : c.outcome = c'.outcome := congrArg (fun l => l.2.2) hl
    exact hopen t c hc (ho.trans hn)
  · exact (hblocked hn).2 t (hT (hblocked hn).1 t ht)

/-- After a poll, the program is attended to again, or it has returned as specified. -/
def AttendedAfter (env : Env) (service : Service) (F : Panic → Prop)
    (Q : Spec Spending (OrchestratorResult String))
    (f : TaskFuture (OrchestratorResult String)) (w : World) :
    Progress f.State (OrchestratorResult String) → Prop
  | .suspended st => Attended env service F Q (f.resume st) w
  | .ready r => Q w.cost (some r)

theorem goes_fails {f : TaskFuture (OrchestratorResult String)} {st : f.State} {T : Set TaskRef}
    {m : Spending} {p : Panic} (hg : f.Goes (regime env service F) Q st T m w)
    (hw : w.Serving service) (hrun : (f.poll st).run (handle env) w = .error p) : F p := by
  have hpoll := hg.poll hw
  rw [hrun] at hpoll
  cases hpoll with
  | error he => exact he

/-- The program is polled in a world where it goes on to meet its specification. -/
theorem polled_attended {f : TaskFuture (OrchestratorResult String)} {st : f.State}
    {T : Set TaskRef} {p : Progress f.State (OrchestratorResult String)}
    (hg : f.Goes (regime env service F) Q st T w.cost w) (hopen : w.OpenWithin T)
    (hw : w.Serving service) (hret : w.returned = [])
    (hrun : (f.poll st).run (handle env) w = .ok (p, w')) :
    w'.Serving service ∧ w'.returned = [] ∧ AttendedAfter env service F Q f w' p := by
  have hpoll := hg.poll hw
  rw [hrun] at hpoll
  have hsteps := run_steps hrun
  cases hpoll with
  | ok T' m' hk _ hd hc hp =>
    have hcost : w.cost + m' = w'.cost := hc.symm
    rw [hcost] at hp
    refine ⟨hk.good, hsteps.returned.trans hret, ?_⟩
    cases p with
    | suspended st' =>
      obtain ⟨⟨I, hI, hi⟩, hQ, hstuck⟩ := hp
      refine ⟨hk.good, hsteps.returned.trans hret, hQ, T',
        ⟨I, ⟨hI.owns, hI.stable, hI.poll⟩, hi⟩, fun t c hc hn => ?_, fun _ => hstuck⟩
      -- a task that the program has left was done, and the others were not its own
      have hown (hold : t ∈ (regime env service F).things w) : t ∈ T := by
        by_contra hT
        exact hT (hopen t c ((hk.same t hold hT).1.symm.trans hc) hn)
      by_contra hT'
      obtain ⟨c', hc', hsome⟩ := hd t (List.getElem?_eq_some_iff.mp hc).1 hown hT'
      cases hc.symm.trans hc'
      rw [hn] at hsome
      cases hsome
    | ready r => exact hp.2

theorem Attended.awake {f : TaskFuture (OrchestratorResult String)}
    (h : Attended env service F Q f w) :
    ({ w with notified := false } : World).Serving service ∧
      ∃ T, f.Goes (regime env service F) Q f.state T w.cost { w with notified := false } ∧
        ({ w with notified := false } : World).OpenWithin T := by
  obtain ⟨hw, -, -, T, hg, hopen, -⟩ := h
  have hw₀ : ({ w with notified := false } : World).Serving service :=
    ⟨⟨hw.filled, hw.events⟩, hw.tasks⟩
  have hsame : ∀ t ∈ T, (regime env service F).Next t w { w with notified := false } :=
    fun _ _ => rfl
  exact ⟨hw₀, T, hg.stable hsame hw₀, hopen⟩

theorem Attended.poll {f : TaskFuture (OrchestratorResult String)}
    {p : Progress f.State (OrchestratorResult String)} (h : Attended env service F Q f w)
    (hrun : (f.poll f.state).run (handle env) { w with notified := false } = .ok (p, w')) :
    w'.Serving service ∧ w'.returned = [] ∧ AttendedAfter env service F Q f w' p := by
  obtain ⟨hw, T, hg, hopen⟩ := h.awake
  exact polled_attended hg hopen hw h.unreturned hrun

theorem label_set {t : TaskRef} {c c' : Cell} (hc : w.cells[t]? = some c)
    (hl : c'.label = c.label) :
    (w.cells.set t c').map Cell.label = w.cells.map Cell.label := by
  apply List.ext_getElem?
  intro u
  by_cases hu : t = u
  · subst hu
    rw [List.getElem?_map, List.getElem?_map, hc,
      List.getElem?_set_self (List.getElem?_eq_some_iff.mp hc).1, Option.map_some, hl]
    rfl
  · simp [List.getElem?_set_ne hu]

theorem Cell.At.served_send {c : Cell} {v : String} (hw : c.At .waiting) (h : c.Served service)
    (hs : ∀ q ∈ c.origin.request?, service q v) :
    ({ c with task.unblockRx := .sent (some v) } : Cell).Served service := by
  refine ⟨h.live, h.asks, some v, .inl (hw.send (some v)), fun v' hv' q hq => ?_⟩
  cases hv'
  exact hs q hq

theorem OrchestrationExecutorContext.Served.send (h : ctx.Served env service F Q) {t : TaskRef}
    {c : Cell} {v : String} (hc : ctx.world.cells[t]? = some c) (hw : c.At .waiting)
    (hs : ∀ q ∈ c.origin.request?, service q v)
    {pendingTasks : AList fun _ : Int => TaskRef} {pendingEvents : Keyed String TaskRef} :
    ({ ctx with
      pendingTasks, pendingEvents
      world := { ctx.world with
        cells := ctx.world.cells.set t { c with task.unblockRx := .sent (some v) }
        notified := true } } : OrchestrationExecutorContext).Served env service F Q := by
  have hlabel : (ctx.world.cells.set t { c with task.unblockRx := .sent (some v) }).map
      Cell.label = ctx.world.cells.map Cell.label := label_set hc rfl
  refine ⟨⟨h.buffered.filled, h.buffered.events⟩, asks_of_label hlabel h.asks,
    fun base f hf => ?_, ?_, ?_⟩
  · have ha := h.program base f hf
    refine ha.mono (ha.serving.set (hw.served_send (ha.serving.tasks hc) hs) rfl
      ⟨h.buffered.filled, h.buffered.events⟩) hlabel rfl fun hn => ?_
    cases hn
  · rw [cost_of_label hlabel]
    exact h.returned
  · exact fun hr hret => List.map_eq_nil_iff.mp (hlabel.trans (by rw [h.idle hr hret]; rfl))

theorem OrchestrationExecutorContext.Served.buffer (h : ctx.Served env service F Q)
    {name v : String} (hs : service (.signal name) v) :
    (ctx.bufferEvent name (some v)).Served env service F Q := by
  have hb : (ctx.bufferEvent name (some v)).world.Buffered service := by
    refine ⟨h.buffered.filled.push, fun name' x hx => ?_⟩
    by_cases hn : name' = name
    · subst hn
      rw [bufferEvent, Keyed.get_push, List.mem_append, List.mem_singleton] at hx
      rcases hx with hx | rfl
      · exact h.buffered.events _ x hx
      · exact ⟨v, rfl, hs⟩
    · rw [bufferEvent, Keyed.get_push_ne hn] at hx
      exact h.buffered.events name' x hx
  refine ⟨hb, h.asks, fun base f hf => ?_, h.returned, h.idle⟩
  have ha := h.program base f hf
  exact ha.mono ⟨hb, ha.serving.tasks⟩ rfl rfl fun hn => ⟨hn, fun _ ht => ht⟩

theorem Delivery.served {k : EventKind} (hdel : Delivery env ctx k ctx') (hr : ctx.Regular)
    (hk : Faithful env service ctx k) (h : ctx.Served env service F Q) :
    ctx'.Served env service F Q := by
  cases hdel with
  | send id v message polls t w hl hs =>
    obtain ⟨c, hc, -, rfl⟩ := World.send_ok hs
    obtain ⟨a, ho, ha, hw⟩ := hr.linked.task_at (.inl hl) hc
    obtain ⟨v', hv', hs⟩ := hk a (mem_issued hc ho) ha
    cases hv'
    exact h.send hc hw fun q hq => hs q (by rwa [ho] at hq)
  | close id message polls t hl =>
    obtain ⟨c, a, hc, ho, ha, -⟩ := hr.linked.task (.inl hl)
    obtain ⟨v, hv, -⟩ := hk a (mem_issued hc ho) ha
    cases hv
  | give e t waiters w hl hs =>
    obtain ⟨c, hc, -, rfl⟩ := World.send_ok hs
    obtain ⟨ho, hw⟩ := hr.linked.waiter_at (mem_waiters_of_lookup hr.drained hl) hc
    obtain ⟨v, hv, hs⟩ := hk
    rw [hv]
    refine h.send hc hw fun q hq => ?_
    rw [ho] at hq
    cases hq
    exact hs
  | buffer e hl =>
    obtain ⟨v, hv, hs⟩ := hk
    rw [hv]
    exact h.buffer hs
  | _ => exact h

namespace OrchestrationExecutorFuture

variable {self : OrchestrationExecutorFuture} {e : HistoryEvent} {history : List HistoryEvent}

/-- The orchestrators that the events of the history start meet the specification. -/
def Meets (self : OrchestrationExecutorFuture) (service : Service) (F : Panic → Prop)
    (Q : Spec Spending (OrchestratorResult String))
    (history : List HistoryEvent) : Prop :=
  ∀ e ∈ history, ∀ s func, e.kind = .start s →
    self.registry.getOrchestrator s.name = some func →
      (func.call self.instanceId s.input).Meets (regime self.env service F) Q

theorem cost_finish {base : TaskRef} {r : OrchestratorResult String} :
    (w.finish base r).cost = w.cost := by
  apply World.cost_congr
  have hdrop : (fun c : Cell => (c.origin, c.outcome)) ∘ Cell.drop =
      fun c => (c.origin, c.outcome) := rfl
  rw [World.finish, World.dropFrom, List.map_append, List.map_map, hdrop, ← List.map_append,
    List.take_append_drop]

/-- What a program that returned leaves. -/
theorem served_finish (base : TaskRef) {r : OrchestratorResult String} (hw : w.Serving service)
    (hret : w.returned = []) (hQ : Q w.cost (some r))
    (hfn : ∀ base f, ctx'.orchestratorFn ≠ some (.suspended base f))
    (hbuf : ctx'.world.receivedEvents = w.receivedEvents)
    (hcells : ctx'.world.cells = (w.finish base r).cells)
    (hr : ctx'.world.returned = w.returned ++ [r]) : ctx'.Served self.env service F Q where
  buffered := by
    constructor <;> rw [hbuf]
    exacts [hw.filled, hw.events]
  asks c hc := by
    rw [hcells, World.finish] at hc
    obtain ⟨t, ht⟩ := List.mem_iff_getElem?.mp hc
    obtain ⟨c', hc', he⟩ := World.dropFrom_source ht
    rw [he.origin]
    exact hw.asks c' (List.mem_of_getElem? hc')
  program base f hf := absurd hf (hfn base f)
  returned := by
    have hfinish : (w.finish base r).cost = w.cost := cost_finish
    have hcost : ctx'.world.cost = w.cost := (World.cost_congr (by rw [hcells])).trans hfinish
    rw [hr, hret, hcost]
    exact .inr ⟨r, rfl, hQ⟩
  idle _ hr' := by
    rw [hr, hret] at hr'
    cases hr'

theorem first_goes {s : ExecutionStartedEvent} {func : OrchestratorFunction}
    (hu : ctx.Unstarted) (hb : ctx.world.Buffered service)
    (hmeets : (func.call self.instanceId s.input).Meets (regime self.env service F) Q) :
    let w := { ctx.world with octx := .new self.instanceId s.input, notified := false }
    w.Serving service ∧ (func.call self.instanceId s.input).Goes (regime self.env service F) Q
      (func.call self.instanceId s.input).state ∅ w.cost w := by
  intro w
  have hcells : w.cells = [] := hu.cells
  have hw : w.Serving service := by
    refine ⟨⟨hb.filled, hb.events⟩, fun hc => ?_⟩
    rw [hcells] at hc
    cases hc
  have hcost : w.cost = 0 := by
    simp [World.cost, World.requests, World.answered, hcells]
  rw [hcost]
  exact ⟨hw, hmeets w hw⟩

theorem first_poll {s : ExecutionStartedEvent} {func : OrchestratorFunction}
    {p : Progress (func.call self.instanceId s.input).State (OrchestratorResult String)}
    (hu : ctx.Unstarted) (hb : ctx.world.Buffered service)
    (hmeets : (func.call self.instanceId s.input).Meets (regime self.env service F) Q)
    (hrun : Activation.run self.env (func.call self.instanceId s.input,
      { ctx.world with octx := .new self.instanceId s.input, notified := false }) = .ok (p, w)) :
    w.Serving service ∧ w.returned = [] ∧
      AttendedAfter self.env service F Q (func.call self.instanceId s.input) w p := by
  obtain ⟨hw, hg⟩ := first_goes hu hb hmeets
  refine polled_attended hg (fun t c (hc : ctx.world.cells[t]? = some c) _ => ?_) hw hu.returned
    hrun
  rw [hu.cells] at hc
  cases hc

theorem Turn.served {k : EventKind} (ht : self.Turn ctx k ctx') (hr : ctx.Regular)
    (hk : Faithful self.env service ctx k) (hu : k.isStart → ctx.Unstarted)
    (hmeets : ∀ s func, k = .start s → self.registry.getOrchestrator s.name = some func →
      (func.call self.instanceId s.input).Meets (regime self.env service F) Q)
    (h : ctx.Served self.env service F Q) : ctx'.Served self.env service F Q := by
  cases ht with
  | rest hd => exact hd.served hr hk h
  | tick timestamp => exact ⟨h.buffered, h.asks, h.program, h.returned, h.idle⟩
  | terminate =>
    obtain ⟨hfn, hw⟩ := executionTerminated_frame ctx
    have hrun : ctx.executionTerminated.running = ctx.running := running_congr hfn
    constructor <;> rw [hw]
    exacts [h.buffered, h.asks, fun base f hf => h.program base f (hfn ▸ hf), h.returned,
      hrun ▸ h.idle]
  | acknowledge id => exact ⟨h.buffered, h.asks, h.program, h.returned, h.idle⟩
  | suspend hd hfn _ hrun =>
    obtain ⟨hw, hret, ha⟩ := ((hd.served hr hk h).program _ _ hfn).poll hrun
    refine ⟨hw.toBuffered, hw.asks, fun base f hf => ?_, .inl hret, fun hstop => ?_⟩
    · cases hf
      exact ha
    · cases hstop
  | report _ hd hfn _ hrun =>
    obtain ⟨hw, hret, hQ⟩ := ((hd.served hr hk h).program _ _ hfn).poll hrun
    exact served_finish _ hw hret hQ (fun base f hf => by cases hf) rfl rfl rfl
  | discard hfn hrun =>
    obtain ⟨hw, hret, hQ⟩ := (h.program _ _ hfn).poll hrun
    exact served_finish _ hw hret hQ (fun base f hf => by cases hf) rfl rfl rfl
  | unknown => exact h
  | @begin e func s w hreg hrun =>
    have hstart := hu rfl
    obtain ⟨hw, hret, ha⟩ := first_poll hstart h.buffered (hmeets e func rfl hreg) hrun
    have hcells : w.dropBefore ctx.world.cells.length = w := by
      simp [World.dropBefore, hstart.cells]
    refine ⟨?_, ?_, fun base f hf => ?_, .inl ?_, fun hstop => ?_⟩
    · rw [hcells]
      exact hw.toBuffered
    · rw [hcells]
      exact hw.asks
    · cases hf
      rw [hcells]
      exact ha
    · rw [hcells]
      exact hret
    · cases hstop
  | @forget e func r w hreg hrun =>
    have hstart := hu rfl
    obtain ⟨hw, hret, hQ⟩ := first_poll hstart h.buffered (hmeets e func rfl hreg) hrun
    refine served_finish ctx.world.cells.length hw hret hQ (fun base f hf => ?_) rfl rfl rfl
    rw [hstart.orchestratorFn] at hf
    cases hf

end OrchestrationExecutorFuture

theorem drain_frame (ctx : OrchestrationExecutorContext) :
    ctx.drain.world.receivedEvents = ctx.world.receivedEvents ∧
      ctx.drain.world.notified = ctx.world.notified ∧
      ctx.drain.world.returned = ctx.world.returned := by
  by_cases hfn : ctx.orchestratorFn.isSome
  · obtain ⟨tasks, events, cells, h⟩ := drain_eq hfn
    rw [h]
    exact ⟨rfl, rfl, rfl⟩
  · rw [drain_of_none (by simpa using hfn)]
    exact ⟨rfl, rfl, rfl⟩

theorem drain_label :
    ctx.drain.world.cells.map Cell.label = ctx.world.cells.map Cell.label :=
  drain_map fun _ => rfl

theorem drain_serving (env : Env) (hl : ctx.Linked) (hf : ctx.Fresh 0)
    (h : ctx.world.Serving service) : ctx.drain.world.Serving service := by
  obtain ⟨hevents, -, -⟩ := drain_frame ctx
  refine ⟨⟨?_, ?_⟩, fun {t c} hc => ?_⟩
  · rw [hevents]
    exact h.filled
  · rw [hevents]
    exact h.events
  · have hlen : ctx.drain.world.cells.length = ctx.world.cells.length := drain_length
    have hlt := (List.getElem?_eq_some_iff.mp hc).1
    have hc₀ := List.getElem?_eq_getElem (hlen ▸ hlt : t < ctx.world.cells.length)
    have hserved := h.tasks hc₀
    rw [drain_live env hl hf hc₀ hserved.live] at hc
    cases hc
    exact hserved

theorem OrchestrationExecutorContext.Served.drain (hl : ctx.Linked) (hf : ctx.Fresh 0)
    (h : ctx.Served env service F Q) : ctx.drain.Served env service F Q := by
  obtain ⟨hevents, hnotified, hreturned⟩ := drain_frame ctx
  constructor
  · constructor <;> rw [hevents]
    exacts [h.buffered.filled, h.buffered.events]
  · exact asks_of_label drain_label h.asks
  · intro base f hfn
    have ha := h.program base f (drain_orchestratorFn ▸ hfn)
    refine ha.mono (drain_serving env hl hf ha.serving) drain_label hreturned fun hn => ?_
    exact ⟨hnotified ▸ hn, fun t ht => drain_blocked env hl hf ht⟩
  · rw [cost_of_label drain_label, hreturned]
    exact h.returned
  · rw [hreturned, drain_running]
    exact fun hr hret => List.map_eq_nil_iff.mp (drain_label.trans (by rw [h.idle hr hret]; rfl))

namespace OrchestrationExecutorFuture

variable {self : OrchestrationExecutorFuture} {e : HistoryEvent} {history : List HistoryEvent}

/-- Every payload of the history is an answer to what it is delivered for. -/
def Faithful (self : OrchestrationExecutorFuture) (service : Service)
    (history : List HistoryEvent) : Prop :=
  self.Throughout (fun ctx e => DurableTask.Faithful self.env service ctx e.kind)
    (.new self.env.budget) history

instance (self : OrchestrationExecutorFuture) (service : Service)
    [∀ q v, Decidable (service q v)] (history : List HistoryEvent) :
    Decidable (self.Faithful service history) :=
  inferInstanceAs (Decidable (self.Throughout (fun ctx e =>
    DurableTask.Faithful self.env service ctx e.kind) (.new self.env.budget) history))

theorem Faithful.mono {service' : Service} (h : self.Faithful service history)
    (hs : ∀ q v, service q v → service' q v) : self.Faithful service' history :=
  Throughout.intro fun past e later ctx hsplit hr =>
    (throughout_iff.mp h past e later ctx hsplit hr).mono hs

/-- In every state of a run over a faithful history the program is attended to. -/
theorem replay_served (hone : history.countP HistoryEvent.isStart ≤ 1)
    (hmeets : self.Meets service F Q history) (hfaithful : self.Faithful service history)
    (h : self.replay history = .ok ctx) : ctx.Served self.env service F Q := by
  revert hmeets hfaithful
  refine replay_induct (P := fun history ctx => self.Meets service F Q history →
    self.Faithful service history → ctx.Served self.env service F Q) hone ?_ ?_ h
  · refine fun _ _ => ⟨⟨Keyed.filled_empty, fun name x hx => ?_⟩, fun c hc => ?_,
      fun base f hf => ?_, .inl rfl, fun _ _ => rfl⟩
    · cases hx
    · cases hc
    · cases hf
  · intro past e ctx₁ ctx₂ hr ih hs he hmeets hfaithful
    have hreg := replay_regular hr
    have hserved := ih (fun e he => hmeets e (List.mem_append_left _ he)) hfaithful.left
    have hk : DurableTask.Faithful self.env service ctx₁ e.kind :=
      throughout_iff.mp hfaithful past e [] ctx₁ rfl hr
    have hu (hstart : e.kind.isStart) : ctx₁.Unstarted := replay_unstarted (hs hstart) hr
    have hturn := (processEvent_turn hreg.incomplete he).served hreg hk hu
      (fun s func => hmeets e (by simp) s func) hserved
    exact hturn.drain (processEvent_linked hreg.incomplete hreg.drained hreg.linked he)
      (processEvent_fresh hreg (replay_fresh hr) he)

end OrchestrationExecutorFuture

end DurableTask
