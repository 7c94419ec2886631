import DurableTask.Invariants.Linked
import DurableTask.Queues.Rendezvous

/-! # Signals and raised events

For each name the tasks that wait for its signal are requests and the raised
events are offers. Waiters are queued by the executor and events by the context,
yet both queues are those of one first-in first-out rendezvous.
-/

namespace DurableTask

open Interaction Queues OrchestrationExecutorContext

namespace World

variable {w w' : World} {name : String} {t : ℕ}

def signals (w : World) (name : String) : List TaskRef :=
  (w.cells.map Cell.origin).zipIdx.filterMap fun p =>
    if p.1 = .signal name then some p.2 else none

theorem signals_of_origins (h : w'.cells.map Cell.origin = w.cells.map Cell.origin) :
    w'.signals name = w.signals name := by
  rw [signals, signals, h]

theorem signals_append {c : Cell} (h : w'.cells = w.cells ++ [c]) :
    w'.signals name =
      w.signals name ++ if c.origin = .signal name then [w.cells.length] else [] := by
  rw [signals, signals, h, List.map_append, List.zipIdx_append, List.filterMap_append]
  split <;> simp [*]

theorem signals_length :
    (w.signals name).length = (w.cells.map Cell.origin).countP (· = .signal name) := by
  rw [signals]
  generalize w.cells.map Cell.origin = origins
  calc (origins.zipIdx.filterMap fun p => if p.1 = .signal name then some p.2 else none).length
      = origins.zipIdx.countP ((· = .signal name) ∘ Prod.fst) := by
        rw [List.length_filterMap_eq_countP]
        exact List.countP_congr fun p _ => by simp
    _ = origins.countP (· = .signal name) := by
        rw [← List.countP_map, List.zipIdx_map_fst]

theorem mem_signals : t ∈ w.signals name ↔ ∃ c, w.cells[t]? = some c ∧ c.origin = .signal name := by
  simp only [signals, List.mem_filterMap, Option.ite_none_right_eq_some, Option.some.injEq,
    Prod.exists, List.mem_zipIdx_iff_getElem?, List.getElem?_map, Option.map_eq_some_iff]
  constructor
  · rintro ⟨o, i, ⟨c, hc, rfl⟩, ho, rfl⟩
    exact ⟨c, hc, ho⟩
  · rintro ⟨c, hc, ho⟩
    exact ⟨c.origin, t, ⟨c, hc, rfl⟩, ho, rfl⟩

end World

/-- Requests and offers of each name are paired in order, and each pair has exchanged its value. -/
structure Matched (ctx : OrchestrationExecutorContext) (offers : String → List String) : Prop where
  queues : ∀ name, Rendezvous (ctx.world.signals name) ((offers name).map some) (ctx.waiters name)
    (ctx.world.receivedEvents.get name)
  paired : ∀ (name : String) (k t : ℕ) (v : String), (ctx.world.signals name)[k]? = some t →
    (offers name)[k]? = some v → ∃ c, ctx.world.cells[t]? = some c ∧ c.Holds (some v)

variable {env : Env} {ctx ctx' : OrchestrationExecutorContext} {offers : String → List String}

theorem Matched.mono (h : Matched ctx offers)
    (hcells : ∀ (t : ℕ) (c : Cell) (name : String), ctx.world.cells[t]? = some c →
      c.origin = .signal name → ∃ c', ctx'.world.cells[t]? = some c' ∧ c.Evolves c')
    (hs : ∀ name, ctx'.world.signals name = ctx.world.signals name)
    (hw : ∀ name, ctx'.waiters name = ctx.waiters name)
    (hr : ctx'.world.receivedEvents = ctx.world.receivedEvents) : Matched ctx' offers where
  queues name := by
    rw [hs, hw, hr]
    exact h.queues name
  paired name k t v hk hv := by
    rw [hs] at hk
    obtain ⟨c, hc, hh⟩ := h.paired name k t v hk hv
    obtain ⟨c', hc', ho⟩ := World.mem_signals.mp (List.mem_of_getElem? hk)
    rw [hc] at hc'
    cases hc'
    obtain ⟨c', hc', he⟩ := hcells t c name hc ho
    exact ⟨c', hc', hh.evolves he⟩

theorem Matched.paired_append (h : Matched ctx offers) {w : World} {d : Cell}
    (hcells : w.cells = ctx.world.cells ++ [d]) {name : String} {k t : ℕ} {v : String}
    (hk : (ctx.world.signals name)[k]? = some t) (hv : (offers name)[k]? = some v) :
    ∃ c, w.cells[t]? = some c ∧ c.Holds (some v) := by
  obtain ⟨c, hc, hh⟩ := h.paired name k t v hk hv
  refine ⟨c, ?_, hh⟩
  rw [hcells, List.getElem?_append_left (List.getElem?_eq_some_iff.mp hc).1, hc]

/-- The program takes a buffered event: a request that finds an offer. -/
theorem Matched.take (h : Matched ctx offers) {name payload : String}
    {received : List (Option String)}
    (hl : ctx.world.receivedEvents.lookup name = some (some payload :: received)) :
    Matched { ctx with world := { ctx.world with
      receivedEvents := ctx.world.receivedEvents.pop name (some payload :: received)
      cells := ctx.world.cells ++ [⟨.signal name, ⟨true, some payload, .closed⟩, false, none⟩] } }
      offers := by
  set w : World := { ctx.world with
    receivedEvents := ctx.world.receivedEvents.pop name (some payload :: received)
    cells := ctx.world.cells ++ [⟨.signal name, ⟨true, some payload, .closed⟩, false, none⟩] }
  have hsignals (name' : String) : w.signals name' = ctx.world.signals name' ++
      if Origin.signal name = .signal name' then [ctx.world.cells.length] else [] :=
    World.signals_append (w := ctx.world)
      (c := ⟨.signal name, ⟨true, some payload, .closed⟩, false, none⟩) rfl
  have hq := h.queues name
  rw [Keyed.get_of_lookup hl] at hq
  obtain ⟨htake, -, hoffer⟩ := hq.request_take (a := ctx.world.cells.length)
  constructor
  · intro name'
    change Rendezvous (w.signals name') _ (ctx.waiters name')
      ((ctx.world.receivedEvents.pop name (some payload :: received)).get name')
    by_cases hn : name' = name
    · subst hn
      rw [hsignals, if_pos rfl, Keyed.get_pop]
      exact htake
    · rw [hsignals, if_neg (fun he => hn (Origin.signal.inj he).symm), List.append_nil,
        Keyed.get_pop_ne hn]
      exact h.queues name'
  · intro name' k t v hk hv
    change (w.signals name')[k]? = some t at hk
    rw [hsignals] at hk
    by_cases hold : k < (ctx.world.signals name').length
    · rw [List.getElem?_append_left hold] at hk
      exact h.paired_append (w := w) rfl hk hv
    · rw [List.getElem?_append_right (Nat.le_of_not_lt hold)] at hk
      split at hk
      · rename_i hn
        cases hn
        obtain ⟨hlt, rfl⟩ := List.getElem?_eq_some_iff.mp hk
        simp only [List.length_singleton] at hlt
        rw [show (ctx.world.signals name).length = k by omega, List.getElem?_map, hv] at hoffer
        cases hoffer
        exact ⟨⟨.signal name, ⟨true, some payload, .closed⟩, false, none⟩, by simp [w],
          .inl ⟨.inr rfl, rfl⟩⟩
      · cases hk

/-- The program waits for a signal: a request that finds no offer. -/
theorem Matched.wait (h : Matched ctx offers) {name : String}
    (hl : ctx.world.receivedEvents.lookup name = none) :
    Matched { ctx with world := { ctx.world with
      octx := { ctx.world.octx with
        eventsTx := ctx.world.octx.eventsTx ++ [(name, ctx.world.cells.length)] }
      cells := ctx.world.cells ++ [.new (.signal name)] } } offers := by
  set w : World := { ctx.world with
    octx := { ctx.world.octx with
      eventsTx := ctx.world.octx.eventsTx ++ [(name, ctx.world.cells.length)] }
    cells := ctx.world.cells ++ [.new (.signal name)] }
  have hsignals (name' : String) : w.signals name' = ctx.world.signals name' ++
      if Origin.signal name = .signal name' then [ctx.world.cells.length] else [] :=
    World.signals_append (w := ctx.world) (c := .new (.signal name)) rfl
  have hq := h.queues name
  rw [Keyed.get_of_lookup_none hl] at hq
  constructor
  · intro name'
    change Rendezvous (w.signals name') _ _ (ctx.world.receivedEvents.get name')
    rw [waiters_wait w name name' ctx.world.cells.length rfl, hsignals]
    by_cases hn : name' = name
    · subst hn
      rw [if_pos rfl, if_pos rfl, Keyed.get_of_lookup_none hl]
      exact hq.request_wait
    · rw [if_neg (fun he => hn (Origin.signal.inj he).symm), if_neg (Ne.symm hn), List.append_nil,
        List.append_nil]
      exact h.queues name'
  · intro name' k t v hk hv
    change (w.signals name')[k]? = some t at hk
    rw [hsignals] at hk
    by_cases hold : k < (ctx.world.signals name').length
    · rw [List.getElem?_append_left hold] at hk
      exact h.paired_append (w := w) rfl hk hv
    · rw [List.getElem?_append_right (Nat.le_of_not_lt hold)] at hk
      split at hk
      · rename_i hn
        cases hn
        -- an offer of this rank would be stored
        have hle := List.drop_eq_nil_iff.mp hq.stored_eq.symm
        rw [List.length_map] at hle
        have hlt := (List.getElem?_eq_some_iff.mp hv).1
        omega
      · cases hk

theorem Matched.step (h : Matched ctx offers) {w : World} (hs : World.Step env ctx.world w) :
    Matched { ctx with world := w } offers := by
  have hcells := fun (t : ℕ) (c : Cell) (name : String) (hc : ctx.world.cells[t]? = some c)
    (_ : c.origin = .signal name) => hs.cells hc
  have horigins := fun (t : ℕ) (c : Cell) (hc : ctx.world.cells[t]? = some c) =>
    (hs.cells hc).imp fun _ h => h.imp_right Cell.Evolves.origin
  cases hs with
  | take name payload received hl => exact h.take hl
  | wait name hl => exact h.wait hl
  | issue reads mk hid _ =>
    refine h.mono hcells (fun name => ?_) (fun _ => rfl) rfl
    refine (World.signals_append (w := ctx.world)
      (c := .new (.action (mk (ctx.world.octx.sequenceNumber + 1)))) rfl).trans ?_
    rw [if_neg (by simp [Cell.new]), List.append_nil]
  | poll t c c' r b _ _ =>
    exact h.mono hcells
      (fun name => World.signals_of_origins (World.origins_eq (by simp) horigins))
      (fun _ => rfl) rfl
  | drop t =>
    exact h.mono hcells
      (fun name => World.signals_of_origins (World.origins_eq (by simp [World.dropTask]) horigins))
      (fun _ => rfl) rfl

theorem Matched.steps (h : Matched ctx offers) {w : World} (hs : World.Steps env ctx.world w) :
    Matched { ctx with world := w } offers :=
  hs.preserves (P := fun w => Matched { ctx with world := w } offers) (fun _ _ hs h => h.step hs) h

theorem Move.matched (hm : Move env ctx ctx') (hl : ctx.Linked) (h : Matched ctx offers) :
    Matched ctx' offers := by
  have hcells (t : ℕ) (c : Cell) (name : String) (hc : ctx.world.cells[t]? = some c)
      (ho : c.origin = .signal name) : ∃ c', ctx'.world.cells[t]? = some c' ∧ c.Evolves c' := by
    obtain ⟨c', hc', -, -, he⟩ := hm.cells hc
    exact ⟨c', hc', he (hl.kept_of_signal hc ho)⟩
  cases hm with
  | step _ _ w _ hs => exact h.step hs
  | finish b _ r _ =>
    exact h.mono hcells (fun _ => World.signals_of_origins (World.origins_eq World.dropFrom_length
      fun _ _ hc => (World.dropFrom_evolves hc).imp fun _ h => h.imp_right Cell.Evolves.origin))
      (fun _ => rfl) rfl
  | takeTask m rest hm =>
    exact h.mono hcells (fun _ => World.signals_of_origins (takeTask_map (fun _ => rfl) m))
      (fun _ => by simp only [waiters, takeTask_octx]; rfl) (takeTask_receivedEvents m)
  | takeWaiter m rest hm => exact h.mono hcells (fun _ => rfl) (waiters_takeWaiter hm) rfl
  | takeAction m rest _ =>
    rw [takeAction_eq] at hcells ⊢
    exact h.mono hcells (fun _ => rfl) (fun _ => rfl) rfl
  | _ => exact h.mono hcells (fun _ => rfl) (fun _ => rfl) rfl

theorem Moves.matched (hm : Moves env ctx ctx') (hl : ctx.Linked) (h : Matched ctx offers) :
    Matched ctx' offers := by
  induction hm with
  | refl => exact h
  | tail hms hm ih => exact hm.matched (Moves.linked hms hl) ih

def EventKind.raises (env : Env) (name : String) : EventKind → Option String
  | .raise r => if env.toLowercase r.name = name then r.input else none
  | _ => none

theorem Delivery.signal {k : EventKind} (hdel : Delivery env ctx k ctx') (hl : ctx.Linked)
    (hk : ∀ r, k ≠ .raise r) {t : ℕ} {c : Cell} {name : String}
    (hc : ctx.world.cells[t]? = some c) (ho : c.origin = .signal name) :
    ctx'.world.cells[t]? = some c := by
  have ne_of_task {id : Int} {u : TaskRef} (hlk : ctx.pendingTasks.lookup id = some u) :
      u ≠ t := by
    rintro rfl
    obtain ⟨a, ho₁, -⟩ := hl.task_at (.inl hlk) hc
    rw [ho] at ho₁
    cases ho₁
  cases hdel with
  | send id v message polls u w hlk hs =>
    obtain ⟨d, -, -, rfl⟩ := World.send_ok hs
    simp [List.getElem?_set_ne (ne_of_task hlk), hc]
  | close id message polls u hlk => simp [World.dropSender, ne_of_task hlk, hc]
  | give e u rest w hlk hs => exact absurd rfl (hk e)
  | buffer e _ => exact absurd rfl (hk e)
  | _ => exact hc

theorem Delivery.frame {k : EventKind} (hdel : Delivery env ctx k ctx') (hk : ∀ r, k ≠ .raise r) :
    (∀ name, ctx'.waiters name = ctx.waiters name) ∧
      ctx'.world.receivedEvents = ctx.world.receivedEvents := by
  have hoctx := hdel.octx
  cases hdel with
  | send id v message polls t w hl hs =>
    obtain ⟨c, -, -, rfl⟩ := World.send_ok hs
    exact ⟨fun _ => rfl, rfl⟩
  | give e t rest w hl hs => exact absurd rfl (hk e)
  | buffer e _ => exact absurd rfl (hk e)
  | _ => exact ⟨fun _ => rfl, rfl⟩

theorem Matched.paired_set (h : Matched ctx offers) {t : TaskRef} {c d : Cell}
    (hc : ctx.world.cells[t]? = some c) (hwait : c.At .waiting) {name v : String} {k u : ℕ}
    (hk : (ctx.world.signals name)[k]? = some u) (hv : (offers name)[k]? = some v) :
    ∃ c, (ctx.world.cells.set t d)[u]? = some c ∧ c.Holds (some v) := by
  obtain ⟨d', hdu, hh⟩ := h.paired name k u v hk hv
  refine ⟨d', ?_, hh⟩
  have hne : t ≠ u := by
    rintro rfl
    rw [hc] at hdu
    cases hdu
    cases hh.of_waiting hwait
  rw [List.getElem?_set_ne hne, hdu]

theorem World.signals_set {w w' : World} {t : TaskRef} {c d : Cell} (hc : w.cells[t]? = some c)
    (ho : d.origin = c.origin) (hw : w'.cells = w.cells.set t d) (name : String) :
    w'.signals name = w.signals name := by
  refine World.signals_of_origins (World.origins_eq (by simp [hw]) fun u e heu => ?_)
  by_cases hu : t = u
  · subst hu
    rw [hc] at heu
    cases heu
    exact ⟨d, by simp [hw, (List.getElem?_eq_some_iff.mp hc).1], ho⟩
  · exact ⟨e, by rw [hw, List.getElem?_set_ne hu, heu], rfl⟩

/-- A raised event that finds a waiter: an offer that finds a request. -/
theorem Matched.give (h : Matched ctx offers) (hd : ctx.Drained) (hl : ctx.Linked) {name v : String}
    {t : TaskRef} {rest : List TaskRef} {w : World}
    (hlk : ctx.pendingEvents.lookup name = some (t :: rest))
    (hs : ctx.world.send t (some v) = some w) :
    Matched { ctx with pendingEvents := ctx.pendingEvents.pop name (t :: rest), world := w }
      fun name' => offers name' ++ if name = name' then [v] else [] := by
  obtain ⟨c, hc, -, rfl⟩ := World.send_ok hs
  have hq := h.queues name
  rw [waiters_of_lookup hd hlk] at hq
  obtain ⟨hgive, -, ht⟩ := hq.offer_give (b := some v)
  have hwait := (hl.waiter_at (mem_waiters_of_lookup hd hlk) hc).2
  set w : World := { ctx.world with
    cells := ctx.world.cells.set t { c with task.unblockRx := .sent (some v) }, notified := true }
  have hsignals (name' : String) : w.signals name' = ctx.world.signals name' :=
    World.signals_set hc (d := { c with task.unblockRx := .sent (some v) }) rfl rfl name'
  constructor
  · intro name'
    rw [waiters_pop hd name t rest (w := w) rfl, hsignals]
    change Rendezvous _ _ _ (ctx.world.receivedEvents.get name')
    by_cases hn : name' = name
    · subst hn
      rw [if_pos rfl, if_pos rfl, List.map_append]
      exact hgive
    · rw [if_neg hn, if_neg (Ne.symm hn), List.append_nil]
      exact h.queues name'
  · intro name' k u v' hk hv
    rw [hsignals] at hk
    split at hv
    · rename_i hn
      subst hn
      by_cases hold : k < (offers name).length
      · rw [List.getElem?_append_left hold] at hv
        exact h.paired_set hc hwait hk hv
      · rw [List.getElem?_append_right (Nat.le_of_not_lt hold)] at hv
        obtain ⟨hlt, rfl⟩ := List.getElem?_eq_some_iff.mp hv
        simp only [List.length_singleton] at hlt
        rw [List.length_map, show (offers name).length = k by omega, hk] at ht
        cases ht
        simp only [List.getElem_singleton]
        exact ⟨{ c with task.unblockRx := .sent (some v) },
          by simp [w, (List.getElem?_eq_some_iff.mp hc).1], .inl (hwait.send (some v))⟩
    · rw [List.append_nil] at hv
      exact h.paired_set hc hwait hk hv

theorem Matched.buffer (h : Matched ctx offers) (hd : ctx.Drained) {name v : String}
    (hlk : ctx.pendingEvents.lookup name = none) :
    Matched (ctx.bufferEvent name (some v))
      fun name' => offers name' ++ if name = name' then [v] else [] := by
  have hq := h.queues name
  rw [hd.waiters, Keyed.get_of_lookup_none hlk] at hq
  constructor
  · intro name'
    change Rendezvous (ctx.world.signals name') _ (ctx.waiters name')
      ((ctx.world.receivedEvents.push name (some v)).get name')
    by_cases hn : name' = name
    · subst hn
      rw [if_pos rfl, List.map_append, Keyed.get_push, hd.waiters, Keyed.get_of_lookup_none hlk]
      exact hq.offer_store
    · rw [if_neg (Ne.symm hn), List.append_nil, Keyed.get_push_ne hn]
      exact h.queues name'
  · intro name' k u v' hk hv
    change (ctx.world.signals name')[k]? = some u at hk
    apply h.paired name' k u v' hk
    split at hv
    · rename_i hn
      subst hn
      -- no task waits, so every request has its offer already
      have hle := List.drop_eq_nil_iff.mp hq.waiting_eq.symm
      have hlt := (List.getElem?_eq_some_iff.mp hk).1
      rw [List.length_map] at hle
      rwa [List.getElem?_append_left (by omega)] at hv
    · rwa [List.append_nil] at hv

theorem Delivery.matched {k : EventKind} (hdel : Delivery env ctx k ctx') (hd : ctx.Drained)
    (hl : ctx.Linked) (hk : ∀ r, k = .raise r → r.input.isSome) (h : Matched ctx offers) :
    Matched ctx' fun name => offers name ++ (k.raises env name).toList := by
  by_cases hr : ∃ r, k = .raise r
  · obtain ⟨r, rfl⟩ := hr
    obtain ⟨v, hv⟩ := Option.isSome_iff_exists.mp (hk r rfl)
    have hoffers : (fun name => offers name ++ ((EventKind.raise r).raises env name).toList) =
        fun name => offers name ++ if env.toLowercase r.name = name then [v] else [] := by
      funext name
      simp only [EventKind.raises, hv]
      split <;> rfl
    rw [hoffers]
    cases hdel with
    | give e t rest w hlk hs =>
      rw [hv] at hs
      exact h.give hd hl hlk hs
    | buffer e hlk =>
      rw [hv]
      exact h.buffer hd hlk
  · have hne (r : EventRaisedEvent) : k ≠ .raise r := fun h => hr ⟨r, h⟩
    have hoffers : (fun name => offers name ++ (k.raises env name).toList) = offers := by
      funext name
      cases k with
      | raise r => exact absurd rfl (hne r)
      | _ => exact List.append_nil _
    rw [hoffers]
    obtain ⟨hw, hrecv⟩ := hdel.frame hne
    exact h.mono (fun _ c _ hc ho => ⟨c, hdel.signal hl hne hc ho, .refl c⟩)
      (fun _ => World.signals_of_origins hdel.origins) hw hrecv

end DurableTask
