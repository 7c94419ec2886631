import DurableTask.Interaction.Meets
import DurableTask.Runtime.Flows
import DurableTask.Runtime.Patient

/-! # Flows meet their direct executions

While tasks hold only answers that the service may give, and none is dropped or
has lost its sender, every poll of a flow goes on towards one of its direct
executions. It fails only where the program itself panics, and if it is
suspended then all that it still waits for is blocked.
-/

namespace DurableTask

open Interaction Queues

/-- The task of a request waits, or holds an answer that the service may give. -/
structure Cell.Served (service : Service) (c : Cell) : Prop where
  live : c.dropped = false
  asks : c.origin.request?.isSome
  holds : ∃ o, c.Holds o ∧ ∀ v ∈ o, ∀ q ∈ c.origin.request?, service q v

/-- The buffered events carry answers to their signals. -/
structure World.Buffered (service : Service) (w : World) : Prop where
  filled : w.receivedEvents.Filled
  events : ∀ name, ∀ x ∈ w.receivedEvents.get name, ∃ v, x = some v ∧ service (.signal name) v

/-- All tasks are served, and so are those to come that find their event buffered. -/
structure World.Serving (service : Service) (w : World) : Prop extends w.Buffered service where
  tasks : ∀ {t : TaskRef} {c : Cell}, w.cells[t]? = some c → c.Served service

/-- The requests that were made, and those of them that were answered. -/
abbrev Spending := Multiset TaskRequest × Multiset TaskRequest

variable {service : Service} {env : Env} {F : Panic → Prop} {w w' : World} {t : TaskRef}
  {c c' : Cell}

namespace Cell

theorem served_new {o : Origin} (h : o.request?.isSome) : (Cell.new o).Served service :=
  ⟨rfl, h, none, Cell.at_new o, by simp⟩

theorem Served.evolves (h : c.Served service) (he : c.Evolves c') (hd : c'.dropped = false) :
    c'.Served service := by
  obtain ⟨-, ha, o, ho, hs⟩ := h
  exact ⟨hd, he.origin ▸ ha, o, ho.evolves he, fun v hv q hq => hs v hv q (he.origin ▸ hq)⟩

theorem Served.cases (h : c.Served service) (hn : c.outcome = none) :
    c.At .waiting ∨ ∃ v, c.At (.given v) ∧ ∀ q ∈ c.origin.request?, service q v := by
  obtain ⟨-, -, o, ho, hs⟩ := h
  cases o with
  | none => exact .inl ho
  | some v =>
    rcases ho with hg | hd
    · exact .inr ⟨v, hg, hs v rfl⟩
    · rw [hd.2] at hn
      cases hn

def label (c : Cell) : Origin × Bool × Option String := (c.origin, c.dropped, c.outcome)

end Cell

namespace World

theorem requests_eq : w.requests = (w.cells.map Cell.origin).filterMap Origin.request? := by
  rw [List.filterMap_map]
  rfl

def answered (w : World) : List TaskRequest :=
  (w.cells.filter fun c => c.outcome.isSome).filterMap (·.origin.request?)

def waiting (w : World) : List TaskRequest :=
  (w.cells.filter fun c => c.outcome.isNone).filterMap (·.origin.request?)

def cost (w : World) : Spending := (w.requests, w.answered)

theorem requests_split (w : World) :
    (w.requests : Multiset TaskRequest) = w.answered + w.waiting := by
  rw [requests, answered, waiting, Multiset.coe_add, Multiset.coe_eq_coe, ← List.filterMap_append]
  refine List.Perm.filterMap _ ?_
  simpa using (List.filter_append_perm (fun c : Cell => c.outcome.isSome) w.cells).symm

theorem requests_append (h : w'.cells = w.cells ++ [c]) :
    w'.requests = w.requests ++ c.origin.request?.toList := by
  rw [requests, h, List.filterMap_append]
  cases hq : c.origin.request? <;> simp [requests, hq]

theorem cost_append {q : TaskRequest} (h : w'.cells = w.cells ++ [c])
    (hq : c.origin.request? = some q) (hn : c.outcome = none) :
    w'.cost = w.cost + ({q}, 0) := by
  refine Prod.ext ?_ ?_
  · change ((w'.requests : List TaskRequest) : Multiset TaskRequest) = w.requests + {q}
    rw [requests_append h, hq, ← Multiset.coe_add]
    rfl
  · change ((w'.answered : List TaskRequest) : Multiset TaskRequest) = w.answered + 0
    simp [answered, h, hn]

theorem requests_of_origins (h : w'.cells.map Cell.origin = w.cells.map Cell.origin) :
    w'.requests = w.requests := by
  rw [requests_eq, requests_eq, h]

theorem cost_congr (h : w'.cells.map (fun c => (c.origin, c.outcome)) =
    w.cells.map fun c => (c.origin, c.outcome)) : w'.cost = w.cost := by
  have horigin : w'.cells.map Cell.origin = w.cells.map Cell.origin := by
    have hfst := congrArg (List.map Prod.fst) h
    rwa [List.map_map, List.map_map] at hfst
  have hanswered : w'.answered = w.answered := by
    have hfilter := congrArg (fun l => (l.filter fun x => x.2.isSome).filterMap (·.1.request?)) h
    simp only [List.filter_map, List.filterMap_map] at hfilter
    exact hfilter
  rw [cost, cost, requests_of_origins horigin, hanswered]

theorem cost_set {b : Budget} {q : TaskRequest} (hc : w.cells[t]? = some c)
    (hq : c.origin.request? = some q) (hn : c.outcome = none) (ho : c'.origin = c.origin)
    (hy : c'.outcome.isSome) :
    ({ w with cells := w.cells.set t c', budget := b } : World).cost = w.cost + (0, {q}) := by
  obtain ⟨hlt, he⟩ := List.getElem?_eq_some_iff.mp hc
  have hcells : w.cells = w.cells.take t ++ c :: w.cells.drop (t + 1) := by
    rw [← he, List.cons_getElem_drop_succ, List.take_append_drop]
  have hset : w.cells.set t c' = w.cells.take t ++ c' :: w.cells.drop (t + 1) :=
    List.set_eq_take_append_cons_drop.trans (if_pos hlt)
  generalize w.cells.take t = before at hcells hset
  generalize w.cells.drop (t + 1) = after at hcells hset
  refine Prod.ext ?_ ?_
  · change (((w.cells.set t c').filterMap (·.origin.request?) : List TaskRequest) :
      Multiset TaskRequest) = w.requests + 0
    rw [add_zero, requests, hset, hcells]
    simp [List.filterMap_cons, ho]
  · change ((((w.cells.set t c').filter fun c => c.outcome.isSome).filterMap (·.origin.request?) :
      List TaskRequest) : Multiset TaskRequest) = w.answered + {q}
    rw [answered, hset, hcells, ← Multiset.coe_singleton, Multiset.coe_add, Multiset.coe_eq_coe]
    simpa [hn, hy, ho, hq] using List.perm_middle.trans
      (List.perm_append_singleton q _).symm

theorem yielded_of_waiting (ha : ∀ c ∈ w.cells, c.origin.request?.isSome) (hw : w.waiting = [])
    {c : Cell} (hc : c ∈ w.cells) : c.outcome.isSome := by
  by_contra hn
  obtain ⟨q, hq⟩ := Option.isSome_iff_exists.mp (ha c hc)
  have hm : q ∈ w.waiting :=
    List.mem_filterMap.mpr ⟨c, List.mem_filter.mpr ⟨hc, by simpa using hn⟩, hq⟩
  rw [hw] at hm
  cases hm

theorem Serving.requests_length (hw : w.Serving service) :
    w.requests.length = w.cells.length := by
  rw [requests, List.length_filterMap_eq_countP, List.countP_eq_length]
  intro c hc
  obtain ⟨t, ht⟩ := List.mem_iff_getElem?.mp hc
  exact (hw.tasks ht).asks

theorem Serving.append (hw : w.Serving service) (hc : c.Served service)
    (hcells : w'.cells = w.cells ++ [c]) (hb : w'.Buffered service) : w'.Serving service where
  toBuffered := hb
  tasks hc' := by
    rw [hcells, List.getElem?_append] at hc'
    split at hc'
    · exact hw.tasks hc'
    · rw [List.mem_singleton.mp (List.mem_of_getElem? hc')]
      exact hc

theorem Serving.set (hw : w.Serving service) (hc : c.Served service)
    (hcells : w'.cells = w.cells.set t c) (hb : w'.Buffered service) : w'.Serving service where
  toBuffered := hb
  tasks {u d} hd := by
    rw [hcells] at hd
    by_cases hu : t = u
    · subst hu
      rw [List.getElem?_set_self (by simpa using (List.getElem?_eq_some_iff.mp hd).1)] at hd
      cases hd
      exact hc
    · rw [List.getElem?_set_ne hu] at hd
      exact hw.tasks hd

end World

def regime (env : Env) (service : Service) (F : Panic → Prop) :
    Regime (handle env) TaskRef Spending where
  things w := fun t => t < w.cells.length
  Good := World.Serving service
  Fails := F
  Same t w w' := w'.cells[t]? = w.cells[t]? ∧ (w.budget.exhausted → w'.budget.exhausted)
  Next t w w' := w'.cells[t]?.map Cell.label = w.cells[t]?.map Cell.label
  Stuck := World.Blocked
  Done t w := ∃ c, w.cells[t]? = some c ∧ c.outcome.isSome
  cost := World.cost
  same_refl t w := ⟨rfl, id⟩
  same_trans h h' := ⟨h'.1.trans h.1, h'.2 ∘ h.2⟩
  next_of_same h := congrArg _ h.1
  stuck_of_same h hs := by
    obtain ⟨c, hc, hp⟩ := h
    exact ⟨c, hs.1.trans hc, Cell.poll_pending_of_budget hp hs.2⟩
  done_of_same h hs := h.imp fun _ hc => hc.imp_left hs.1.trans

/-- The task of a request was created and has not yielded. -/
structure Asked (q : TaskRequest) (t : TaskRef) (T : Set TaskRef) (m : Spending) (w : World) :
    Prop where
  owned : T = {t}
  spent : m = ({q}, 0)
  cell : ∃ c, w.cells[t]? = some c ∧ c.origin.request? = some q ∧ c.outcome = none

def callSpec {α : Type} (request : Option TaskRequest) (result? : String → Option α)
    (service : Service) : Spec Spending α := fun m r =>
  ∃ q, request = some q ∧ (m = ({q}, 0) ∧ r = none ∨
    m = ({q}, {q}) ∧ ∃ payload a, service q payload ∧ result? payload = some a ∧ r = some a)

def decoded {R : Type} (decode : Decoder R) (payload : String) : Option (Except String R) :=
  (decode payload).toOption.map .ok

/-- An answer that cannot be decoded is a failure that is provided for. -/
def Undecoded {α : Type} (F : Panic → Prop) (request : Option TaskRequest)
    (result? : String → Option α) (service : Service) : Prop :=
  ∀ q payload, request = some q → service q payload → result? payload = none →
    F (.program "output deserialization failed")

/-- A call before its first poll, and after it. -/
def CallGoes (request : Option TaskRequest) :
    Option TaskRef → Set TaskRef → Spending → World → Prop
  | none, T, m, _ => T = ∅ ∧ m = 0
  | some t, T, m, w => ∃ q, request = some q ∧ Asked q t T m w

section Calls

variable {q : TaskRequest} {T : Set TaskRef} {m : Spending} {R : Type}
  {decode : Decoder R} {request : Option TaskRequest}

theorem outcome_created (hcells : w'.cells = w.cells ++ [c]) (hb : w'.budget = w.budget)
    (hw' : w'.Serving service) (hq : c.origin.request? = some q) (hn : c.outcome = none) :
    (regime env service F).Outcome ∅ 0 w (Asked q) (.ok (w.cells.length, w')) := by
  have hkeeps : (regime env service F).Keeps ∅ w w' := by
    refine ⟨hw', fun t ht => ?_, fun t ht _ => ⟨?_, fun he => hb ▸ he⟩⟩
    · have hlen : w'.cells.length = w.cells.length + 1 := by simp [hcells]
      exact Nat.lt_of_lt_of_eq (Nat.lt_succ_of_lt ht) hlen.symm
    · rw [hcells, List.getElem?_append_left ht]
  refine .ok {w.cells.length} ({q}, 0) hkeeps (fun t ht => .inr ?_)
    (fun t (ht : t < w'.cells.length) hold hne => ?_) (World.cost_append hcells hq hn)
    ⟨rfl, zero_add _, c, ?_, hq, hn⟩
  · rw [Set.mem_singleton_iff.mp ht]
    exact Nat.lt_irrefl _
  · rw [hcells, List.length_append, List.length_singleton] at ht
    exact (hold (Nat.lt_of_le_of_ne (Nat.le_of_lt_succ ht) hne)).elim
  · simp [hcells]

theorem keeps_set {b : Budget} (env : Env) (F : Panic → Prop) (hw : w.Serving service)
    (hc' : c'.Served service) (hb : w.budget.exhausted → b.exhausted) :
    (regime env service F).Keeps {t} w { w with cells := w.cells.set t c', budget := b } := by
  refine ⟨hw.set hc' rfl ⟨hw.filled, hw.events⟩, fun u hu => ?_, fun u hu hne => ⟨?_, hb⟩⟩
  · exact Nat.lt_of_lt_of_eq hu (by simp)
  · exact List.getElem?_set_ne fun he => hne he.symm

theorem outcome_decodeOutput {payload : String} {s : World} (hF : Undecoded F request
    (decoded decode) service) (hs : s.Serving service) (hr : request = some q)
    (hp : service q payload) :
    (regime env service F).Outcome ∅ ({q}, {q}) s
      ((regime env service F).Polled (callSpec request (decoded decode) service) (CallGoes request))
      (((decodeOutput decode payload).bind fun r => .pure (.ready r)).run (handle env) s) := by
  unfold decodeOutput
  cases hv : decode payload with
  | error e => exact .error (hF q payload hr hp (by simp [decoded, hv, Except.toOption]))
  | ok v =>
    have hdecoded : decoded decode payload = some (.ok v) := by simp [decoded, hv, Except.toOption]
    exact .pure hs ⟨rfl, q, hr, .inr ⟨rfl, payload, _, hp, hdecoded, rfl⟩⟩

/-- A poll of the task of a call. -/
theorem outcome_awaitTask (hF : Undecoded F request (decoded decode) service)
    (hw : w.Serving service) (ha : Asked q t T m w) (hr : request = some q) :
    (regime env service F).Outcome T m w
      ((regime env service F).Polled (callSpec request (decoded decode) service) (CallGoes request))
      ((awaitTask decode t).run (handle env) w) := by
  obtain ⟨rfl, rfl, c, hc, hq, hn⟩ := ha
  have hserved := hw.tasks hc
  have pending (hp : c.poll w.budget = .ok (.pending, c, w.budget)) :
      (regime env service F).Outcome {t} ({q}, 0) w
        ((regime env service F).Polled (callSpec request (decoded decode) service)
          (CallGoes request)) ((awaitTask decode t).run (handle env) w) := by
    have hblocked : w.Blocked t := ⟨c, hc, hp⟩
    rw [awaitTask_pending hblocked.pollTask]
    refine .pure hw ⟨⟨q, hr, rfl, rfl, c, hc, hq, hn⟩, ⟨q, hr, .inl ⟨rfl, rfl⟩⟩, fun u hu => ?_⟩
    rw [Set.mem_singleton_iff.mp hu]
    exact hblocked
  rcases hserved.cases hn with hwait | ⟨v, hgiven, hs⟩
  · exact pending (Cell.poll_waiting hserved.live hwait)
  rcases Cell.poll_given (b := w.budget) hserved.live hgiven with
    ⟨hp, -⟩ | ⟨c', b, hp, hdone, ho, hd⟩
  · exact pending hp
  have hpoll : handle env (.poll t) w =
      .ok (.ready v, { w with cells := w.cells.set t c', budget := b }) := by
    simp only [handle, World.pollTask, hc, hp]
    rfl
  have hkeeps := keeps_set (t := t) env F hw (hserved.evolves (Cell.poll_evolves hp) hd)
    (Cell.not_ripe_of_poll hp).2
  unfold awaitTask
  rw [Prog.run_step_ok hpoll]
  have hcost := World.cost_set (b := b) hc hq hn ho (Option.isSome_of_eq_some hdone.2)
  refine .after ∅ (0, {q}) hkeeps (fun t ht => ht.elim) (fun u hu hold _ => ?_) hcost ?_
  · have hlt := (List.getElem?_eq_some_iff.mp hc).1
    have hu' : u < w.cells.length := Nat.lt_of_lt_of_eq hu (by simp)
    obtain rfl : u = t := hold hu'
    exact ⟨c', by simp [hlt], Option.isSome_of_eq_some hdone.2⟩
  · have hspent : (({q}, 0) + (0, {q}) : Spending) = ({q}, {q}) := by simp
    rw [hspent]
    exact outcome_decodeOutput hF hkeeps.good hr (hs q hq)

theorem taskCall_meets {create : OrchestratorProg TaskRef}
    (hF : Undecoded F request (decoded decode) service)
    (hcreate : ∀ w, w.Serving service → (regime env service F).Outcome ∅ 0 w
      (fun t T m w => ∃ q, request = some q ∧ Asked q t T m w) (create.run (handle env) w)) :
    (taskCall create decode).Meets (regime env service F)
      (callSpec request (decoded decode) service) := by
  intro w _
  refine ⟨CallGoes request, ⟨?_, ?_, ?_⟩, rfl, rfl⟩
  · rintro (_ | t) T m w hi t' ht'
    · rw [hi.1] at ht'
      exact ht'.elim
    · obtain ⟨q, -, rfl, -, c, hc, -⟩ := hi
      rw [Set.mem_singleton_iff.mp ht']
      exact (List.getElem?_eq_some_iff.mp hc).1
  · rintro (_ | t) T m w w' hi hn _
    · exact hi
    · obtain ⟨q, hr, rfl, rfl, c, hc, hq, ho⟩ := hi
      have hlabel : w'.cells[t]?.map Cell.label = w.cells[t]?.map Cell.label := hn t rfl
      rw [hc, Option.map_some] at hlabel
      obtain ⟨c', hc', he⟩ := Option.map_eq_some_iff.mp hlabel
      simp only [Cell.label, Prod.mk.injEq] at he
      exact ⟨q, hr, rfl, rfl, c', hc', he.1 ▸ hq, he.2.2 ▸ ho⟩
  · rintro (_ | t) T m w hi hw
    · obtain ⟨rfl, rfl⟩ := hi
      refine (hcreate w hw).bind fun t T m w hw ha => ?_
      obtain ⟨q, hr, ha⟩ := ha
      exact outcome_awaitTask hF hw ha hr
    · obtain ⟨q, hr, ha⟩ := hi
      exact outcome_awaitTask hF hw ha hr

theorem outcome_issue (mk : Int → OrchestratorAction) (hw : w.Serving service)
    (hq : ∀ id, (mk id).request? = some q) :
    (regime env service F).Outcome ∅ 0 w (Asked q) (.ok (w.issue mk)) := by
  have hrequest : (Origin.action (mk (w.octx.sequenceNumber + 1))).request? = some q := hq _
  refine outcome_created (c := .new (.action (mk (w.octx.sequenceNumber + 1)))) rfl rfl ?_
    hrequest rfl
  exact hw.append (Cell.served_new (by rw [hrequest]; rfl)) rfl ⟨hw.filled, hw.events⟩

theorem awaitSignalEvent_wait {name : String}
    (hl : w.receivedEvents.lookup (env.toLowercase name) = none) :
    w.awaitSignalEvent env name = .ok (w.cells.length,
      { w with
        octx := { w.octx with
          eventsTx := w.octx.eventsTx ++ [(env.toLowercase name, w.cells.length)] }
        cells := w.cells ++ [.new (.signal (env.toLowercase name))] }) := by
  simp only [World.awaitSignalEvent, hl]
  rfl

theorem awaitSignalEvent_take {name v : String} {received : List (Option String)}
    (hl : w.receivedEvents.lookup (env.toLowercase name) = some (some v :: received)) :
    w.awaitSignalEvent env name = .ok (w.cells.length,
      { w with
        receivedEvents := w.receivedEvents.pop (env.toLowercase name) (some v :: received)
        cells := w.cells ++
          [⟨.signal (env.toLowercase name), ⟨true, some v, .closed⟩, false, none⟩] }) := by
  simp only [World.awaitSignalEvent, hl]
  rfl

/-- Waiting for a signal creates a task that waits, or holds a buffered event. -/
theorem outcome_awaitSignalEvent (hw : w.Serving service) (name : String) :
    (regime env service F).Outcome ∅ 0 w (Asked (.signal (env.toLowercase name)))
      (w.awaitSignalEvent env name) := by
  cases hl : w.receivedEvents.lookup (env.toLowercase name) with
  | none =>
    rw [awaitSignalEvent_wait hl]
    refine outcome_created (c := .new (.signal (env.toLowercase name))) rfl rfl ?_ rfl rfl
    exact hw.append (Cell.served_new rfl) rfl ⟨hw.filled, hw.events⟩
  | some received =>
    cases received with
    | nil => exact absurd hl (hw.filled _)
    | cons x received =>
      have hq : w.receivedEvents.get (env.toLowercase name) = x :: received :=
        Keyed.get_of_lookup hl
      obtain ⟨v, rfl, hs⟩ := hw.events (env.toLowercase name) x (by simp [hq])
      rw [awaitSignalEvent_take hl]
      refine outcome_created
        (c := ⟨.signal (env.toLowercase name), ⟨true, some v, .closed⟩, false, none⟩)
        rfl rfl ?_ rfl rfl
      refine hw.append ⟨rfl, rfl, some v, .inl ⟨.inr rfl, rfl⟩, ?_⟩ rfl ⟨hw.filled.pop, ?_⟩
      · intro v' hv' q hq
        cases hv'
        cases hq
        exact hs
      · intro name' y hy
        by_cases hn : name' = env.toLowercase name
        · subst hn
          rw [Keyed.get_pop, List.tail_cons] at hy
          exact hw.events _ y (by simp [hq, hy])
        · rw [Keyed.get_pop_ne hn] at hy
          exact hw.events name' y hy

theorem outcome_encodeInput {A : Type} {encode : Encoder A} {input : A}
    {create : String → OrchestratorProg TaskRef} {f : String → TaskRequest}
    (hF : (encode input).toOption.map f = none → F (.program "input serialization failed"))
    (hcreate : ∀ s, (regime env service F).Outcome ∅ 0 w (Asked (f s))
      ((create s).run (handle env) w)) :
    (regime env service F).Outcome ∅ 0 w
      (fun t T m w => ∃ q, (encode input).toOption.map f = some q ∧ Asked q t T m w)
      ((encodeInput encode input create).run (handle env) w) := by
  unfold encodeInput
  cases he : encode input with
  | error e => exact .error (hF (by rw [he]; rfl))
  | ok s => exact (hcreate s).mono fun t T m w _ ha => ⟨f s, rfl, ha⟩

/-- A call meets its specification. -/
theorem ApiCall.meets {α : Type} (call : ApiCall α)
    (hF : ∀ p, (Flow.call call).Panics env.toLowercase service p → F p) :
    call.future.Meets (regime env service F)
      (callSpec (call.request? env.toLowercase) call.result? service) := by
  have hdecode : Undecoded F (call.request? env.toLowercase) call.result? service :=
    fun q payload hq hs ha => hF _ (.undecoded hq hs ha)
  have hencode (hq : call.request? env.toLowercase = none) :
      F (.program "input serialization failed") := hF _ (.unencoded hq)
  cases call with
  | activity encode decode typeName activityType input =>
    refine taskCall_meets hdecode fun w hw => outcome_encodeInput hencode fun s => ?_
    exact outcome_issue (fun id => newScheduleTaskAction id
      (if activityType = "" then typeName else activityType) (some s)) hw fun _ => rfl
  | subOrchestrator encode decode typeName orchestratorType instanceId input =>
    refine taskCall_meets hdecode fun w hw => outcome_encodeInput hencode fun s => ?_
    exact outcome_issue (fun id => newCreateSubOrchestrationAction id
      (if orchestratorType = "" then typeName else orchestratorType) instanceId (some s)) hw
      fun _ => rfl
  | signal decode name =>
    refine taskCall_meets hdecode fun w hw => ?_
    have hrun : (Prog.step (.awaitSignalEvent name) .pure : OrchestratorProg TaskRef).run
        (handle env) w = w.awaitSignalEvent env name := Prog.run_step_pure _ _
    rw [hrun]
    exact (outcome_awaitSignalEvent hw name).mono fun t T m w _ ha => ⟨_, rfl, ha⟩
  | timer fireAfterMillis =>
    have htask : (taskCall (.step (.createTimer fireAfterMillis) .pure) .ok :
        TaskFuture (Except String String)).Meets (regime env service F)
          (callSpec (some .timer) (decoded .ok) service) := by
      have hnone : Undecoded F (some .timer) (decoded (.ok : Decoder String)) service :=
        fun q payload _ _ ha => by cases ha
      refine taskCall_meets hnone fun w hw => ?_
      have hcells : (w.createTimer env fireAfterMillis).2.cells = w.cells ++ [_] := rfl
      have hserving := hw.append (Cell.served_new rfl) hcells ⟨hw.filled, hw.events⟩
      refine (outcome_created (q := .timer) hcells rfl hserving rfl rfl).mono ?_
      exact fun t T m w _ ha => ⟨_, rfl, ha⟩
    refine htask.map fun m r hr => ?_
    obtain ⟨q, hq, ⟨hm, rfl⟩ | ⟨hm, payload, a, hs, ha, rfl⟩⟩ := hr
    · exact ⟨q, hq, .inl ⟨hm, rfl⟩⟩
    · cases ha
      exact ⟨q, hq, .inr ⟨hm, payload, payload, hs, rfl, rfl⟩⟩

end Calls

namespace Flow

/-- A direct execution that halts: the requests that are made, and those that were answered. -/
def Settles {α : Type} (f : Flow α) (toLowercase : String → String) (service : Service) :
    Spec Spending α := fun m r => ∃ u, m.1 = m.2 + u ∧ f.Halts toLowercase service m.2 u r

theorem Settles.halts {α : Type} {f : Flow α} {r : Option α}
    (h : f.Settles env.toLowercase service w.cost r) :
    f.Halts env.toLowercase service w.answered w.waiting r := by
  obtain ⟨u, hu, hhalts⟩ := h
  have hsplit : (w.requests : Multiset TaskRequest) = w.answered + u := hu
  rw [w.requests_split] at hsplit
  exact add_left_cancel hsplit ▸ hhalts

theorem Settles.runs {α : Type} {f : Flow α} {r : Option α}
    (h : f.Settles env.toLowercase service w.cost r) :
    f.Runs env.toLowercase service w.requests r :=
  w.requests_split ▸ h.halts.runs

theorem map_sum_ofFn {M N : Type*} [AddMonoid M] [AddMonoid N] (φ : M →+ N) {n : ℕ}
    (ms : Fin n → M) : φ (List.ofFn ms).sum = (List.ofFn fun i => φ (ms i)).sum := by
  rw [map_list_sum, List.map_ofFn]
  rfl

theorem settles_joinAll {α : Type} {n : ℕ} {fs : Fin n → Flow α}
    {m : Multiset TaskRequest × Multiset TaskRequest} {r : Option (List α)}
    (h : Future.allSpec (List.ofFn fun i => (fs i).Settles env.toLowercase service) m r) :
    (Flow.joinAll n fs).Settles env.toLowercase service m r := by
  obtain ⟨ms, rs, rfl, rfl, hall⟩ := Future.allSpec_ofFn h
  choose u hm hhalts using hall
  have hfst : (List.ofFn ms).sum.1 = (List.ofFn fun i => (ms i).1).sum :=
    map_sum_ofFn (AddMonoidHom.fst _ _) ms
  have hsnd : (List.ofFn ms).sum.2 = (List.ofFn fun i => (ms i).2).sum :=
    map_sum_ofFn (AddMonoidHom.snd _ _) ms
  refine ⟨(List.ofFn u).sum, ?_, ?_⟩
  · rw [hfst, hsnd]
    simp only [List.sum_ofFn, ← Finset.sum_add_distrib, hm]
  · rw [hsnd]
    exact .joinAll _ u rs hhalts

/-- A flow meets its direct executions, and panics only where they do. -/
theorem meets {α : Type} (f : Flow α) (hF : ∀ p, f.Panics env.toLowercase service p → F p) :
    f.future.Meets (regime env service F) (f.Settles env.toLowercase service) := by
  induction f with
  | done a => exact .ready ⟨0, rfl, .done a⟩
  | call c =>
    refine (c.meets hF).mono fun m r hr => ?_
    obtain ⟨q, hq, ⟨rfl, rfl⟩ | ⟨rfl, payload, a, hs, ha, rfl⟩⟩ := hr
    · exact ⟨{q}, (zero_add _).symm, .ask hq⟩
    · exact ⟨0, (add_zero _).symm, .answer hq hs ha⟩
  | map g f ih =>
    exact (ih fun p hp => hF p hp.map).map fun m r hr => hr.imp fun u hu => hu.imp_right .map
  | andThen f k ihf ihk =>
    refine (ihf fun p hp => hF p hp.first).bind
      (fun m hm => hm.imp fun u hu => hu.imp_right .first) fun m a hm => ?_
    obtain ⟨u, hm, hf⟩ := hm
    obtain rfl : u = 0 := hf.isSome_iff.mp rfl
    refine (ihk a fun p hp => hF p (.second hf.runs hp)).mono fun m' r hr => ?_
    obtain ⟨u, hm', hk⟩ := hr
    refine ⟨u, ?_, hf.second hk⟩
    rw [Prod.fst_add, Prod.snd_add, hm, hm', add_zero, add_assoc]
  | join f g ihf ihg =>
    refine (ihf fun p hp => hF p hp.left).join (ihg fun p hp => hF p hp.right)
      fun {m₁ m₂ r₁ r₂} hf hg => ?_
    obtain ⟨u₁, hm₁, hf⟩ := hf
    obtain ⟨u₂, hm₂, hg⟩ := hg
    refine ⟨u₁ + u₂, ?_, hf.join hg⟩
    rw [Prod.fst_add, Prod.snd_add, hm₁, hm₂, add_add_add_comm]
  | joinAll n fs ih =>
    have hfuture : (Flow.joinAll n fs).future = .joinAll ((List.ofFn fun i =>
        ((fs i).future, (fs i).Settles env.toLowercase service)).map Prod.fst) := by
      rw [List.map_ofFn]
      rfl
    rw [hfuture]
    refine .joinAll (fun p hp => ?_) fun m r hr => ?_
    · obtain ⟨i, rfl⟩ := (List.mem_ofFn).mp hp
      exact ih i fun p hp => hF p (.joinAll i hp)
    · rw [List.map_ofFn] at hr
      exact settles_joinAll hr

end Flow

end DurableTask
