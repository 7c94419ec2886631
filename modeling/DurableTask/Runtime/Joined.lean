import DurableTask.Interaction.JoinAll
import DurableTask.Runtime.Sequence

/-! # Activities at once

An orchestrator that starts its activities together has one slot for each of
them: empty before the first poll, then the task, and the result in the end. A
poll fills every slot whose task is ready and leaves the others as they are.
-/

namespace DurableTask

open Interaction

/-- A `call_activity` with an input that can be encoded. -/
structure ActivityCall where
  A : Type
  encode : Encoder A
  typeName : String
  activityType : String
  input : A
  payload : String
  encodes : encode input = .ok payload

namespace ActivityCall

variable {R : Type}

def name (call : ActivityCall) : String :=
  if call.activityType = "" then call.typeName else call.activityType

def future (decode : Decoder R) (call : ActivityCall) : TaskFuture (Except String R) :=
  callActivity call.encode decode call.typeName call.activityType call.input

def action (call : ActivityCall) (id : Int) : OrchestratorAction :=
  newScheduleTaskAction id call.name (some call.payload)

end ActivityCall

/-- The orchestrator that starts its activities together and returns the list of their results. -/
def fanOut {R : Type} (toJson : List R → Except String String) (decode : Decoder R)
    (calls : List ActivityCall) : OrchestratorFunction :=
  .new toJson fun _ _ => (Future.joinAll (calls.map (ActivityCall.future decode))).map fun rs =>
    (rs.mapM id).map .output

/-- What is known of a call: nothing yet, its task, or its result. -/
abbrev Slot (R : Type) := Option TaskRef ⊕ Except String R

section Slots

variable {R : Type} {decode : Decoder R} {env : Env} {w w' : World} {calls : List ActivityCall}
  {call : ActivityCall} {x y : ℕ → Slot R} {t : TaskRef} {i k : ℕ} {payload : String} {v : R}

def slots (decode : Decoder R) : (calls : List ActivityCall) → ℕ → (ℕ → Slot R) →
    Future.States (calls.map (ActivityCall.future decode))
  | [], _, _ => ()
  | call :: calls, k, x =>
    Future.States.cons (f := call.future decode) (x k) (slots decode calls (k + 1) x)

theorem slots_congr (h : ∀ j, k ≤ j → j < k + calls.length → x j = y j) :
    slots decode calls k x = slots decode calls k y := by
  induction calls generalizing k with
  | nil => rfl
  | cons call calls ih =>
    rw [slots, slots, h k le_rfl (by simp)]
    rw [ih fun j hj hj' => h j (by omega) (by simp only [List.length_cons]; omega)]

theorem initial_eq_slots : Future.initial (calls.map (ActivityCall.future decode)) =
    slots decode calls k fun _ => .inl none := by
  induction calls generalizing k with
  | nil => rfl
  | cons call calls ih =>
    rw [slots, ← ih]
    rfl

/-- A poll of the slot changes nothing. -/
def Slot.Rests (w : World) : Slot R → Prop
  | .inl none => False
  | .inl (some t) => w.pollTask t = .ok (.pending, w)
  | .inr _ => True

section Poll

variable {s : Slot R}

theorem run_slot_rests (h : s.Rests w) :
    ((call.future decode).pollMaybeDone s).run (handle env) w = .ok (s, w) := by
  rcases s with (_ | t) | r
  · cases h
  · have hpoll : ((call.future decode).poll (some t)).run (handle env) w =
        .ok (.suspended (some t), w) := awaitTask_pending h
    exact (Prog.run_bind_ok hpoll).trans rfl
  · rfl

theorem run_slot_ready (hp : w.pollTask t = .ok (.ready payload, w'))
    (hv : decode payload = .ok v) :
    ((call.future decode).pollMaybeDone (.inl (some t))).run (handle env) w =
      .ok (.inr (.ok v), w') := by
  have hpoll : ((call.future decode).poll (some t)).run (handle env) w =
      .ok (.ready (.ok v), w') := awaitTask_ready hp hv
  exact (Prog.run_bind_ok hpoll).trans rfl

theorem run_slot_first : ((call.future decode).pollMaybeDone (.inl none)).run (handle env) w =
    .ok (.inl (some w.cells.length), (w.scheduleActivity call.name (some call.payload)).2) := by
  have hfirst : ((call.future decode).poll none).run (handle env) w = .ok
      (.suspended (some w.cells.length), (w.scheduleActivity call.name (some call.payload)).2) :=
    callActivity_first call.encodes
  exact (Prog.run_bind_ok hfirst).trans rfl

theorem run_pollAll_rests (h : ∀ j, k ≤ j → j < k + calls.length → (x j).Rests w) :
    (Future.pollAll _ (slots decode calls k x)).run (handle env) w =
      .ok (slots decode calls k x, w) := by
  induction calls generalizing k with
  | nil => rfl
  | cons call calls ih =>
    apply Future.run_pollAll_cons (run_slot_rests (h k le_rfl (by simp)))
    exact ih fun j hj hj' => h j (by omega) (by simp only [List.length_cons]; omega)

/-- A poll fills the slot whose task is ready. -/
theorem run_pollAll_ready (hk : k ≤ i) (hi : i < k + calls.length) (hx : x i = .inl (some t))
    (hp : w.pollTask t = .ok (.ready payload, w')) (hv : decode payload = .ok v)
    (h : ∀ j, k ≤ j → j < k + calls.length → j ≠ i → (x j).Rests w ∧ (x j).Rests w') :
    (Future.pollAll _ (slots decode calls k x)).run (handle env) w =
      .ok (slots decode calls k (Function.update x i (.inr (.ok v))), w') := by
  induction calls generalizing k with
  | nil =>
    simp only [List.length_nil] at hi
    omega
  | cons call calls ih =>
    simp only [List.length_cons] at hi h
    by_cases hki : k = i
    · subst hki
      have hrest : slots decode calls (k + 1) x =
          slots decode calls (k + 1) (Function.update x k (.inr (.ok v))) :=
        slots_congr fun j hj _ => (Function.update_of_ne (by omega) _ _).symm
      rw [slots, slots, Function.update_self, ← hrest, hx]
      apply Future.run_pollAll_cons (run_slot_ready hp hv)
      exact run_pollAll_rests fun j hj hj' => (h j (by omega) (by omega) (by omega)).2
    · rw [slots, slots, Function.update_of_ne hki]
      apply Future.run_pollAll_cons (run_slot_rests (h k le_rfl (by omega) hki).1)
      exact ih (by omega) (by omega) fun j hj hj' hne => h j (by omega) (by omega) hne

end Poll

def scheduleAll (calls : List ActivityCall) (w : World) : World :=
  calls.foldl (fun w call => (w.scheduleActivity call.name (some call.payload)).2) w

def callActions (n : Int) : List ActivityCall → List OrchestratorAction
  | [] => []
  | call :: calls => call.action (n + 1) :: callActions (n + 1) calls

theorem getElem?_callActions {n : Int} (j : ℕ) :
    (callActions n calls)[j]? = calls[j]?.map (ActivityCall.action · (n + j + 1)) := by
  induction calls generalizing n j with
  | nil => rfl
  | cons call calls ih =>
    cases j with
    | zero => simp [callActions]
    | succ j =>
      have hid : n + 1 + (j : Int) + 1 = n + ((j + 1 : ℕ) : Int) + 1 := by omega
      rw [callActions, List.getElem?_cons_succ, List.getElem?_cons_succ, ih, hid]

theorem scheduleAll_cells : (scheduleAll calls w).cells =
    w.cells ++ (callActions w.octx.sequenceNumber calls).map fun a => .new (.action a) := by
  induction calls generalizing w with
  | nil => exact (List.append_nil _).symm
  | cons call calls ih =>
    rw [scheduleAll, List.foldl_cons, ← scheduleAll, ih]
    simp [World.scheduleActivity, callActions, ActivityCall.action]

theorem scheduleAll_origin (hi : i < calls.length) :
    ((scheduleAll calls w).cells.map Cell.origin)[w.cells.length + i]? =
      some (.action (calls[i].action (w.octx.sequenceNumber + i + 1))) := by
  rw [scheduleAll_cells, List.map_append, List.getElem?_append_right (by simp), List.length_map,
    Nat.add_sub_cancel_left, List.map_map, List.getElem?_map, getElem?_callActions,
    List.getElem?_eq_getElem hi]
  rfl

theorem scheduleAll_frame : (scheduleAll calls w).budget = w.budget ∧
    (scheduleAll calls w).returned = w.returned := by
  induction calls generalizing w with
  | nil => exact ⟨rfl, rfl⟩
  | cons call calls ih =>
    rw [scheduleAll, List.foldl_cons, ← scheduleAll]
    exact ih

/-- The first poll schedules every activity and fills the slots with their tasks. -/
theorem run_pollAll_first :
    (Future.pollAll _ (slots decode calls k fun _ => .inl none)).run (handle env) w =
      .ok (slots decode calls k fun j => .inl (some (w.cells.length + (j - k))),
        scheduleAll calls w) := by
  induction calls generalizing k w with
  | nil => rfl
  | cons call calls ih =>
    have hlen : (w.scheduleActivity call.name (some call.payload)).2.cells.length =
        w.cells.length + 1 := by simp [World.scheduleActivity]
    have hrest := ih (k := k + 1) (w := (w.scheduleActivity call.name (some call.payload)).2)
    rw [hlen] at hrest
    have hslots : slots decode calls (k + 1)
        (fun j => .inl (some (w.cells.length + 1 + (j - (k + 1))))) =
          slots decode calls (k + 1) fun j => .inl (some (w.cells.length + (j - k))) := by
      apply slots_congr
      intro j hj _
      rw [show w.cells.length + 1 + (j - (k + 1)) = w.cells.length + (j - k) by omega]
    rw [hslots] at hrest
    rw [slots, slots, Nat.sub_self, Nat.add_zero]
    exact Future.run_pollAll_cons run_slot_first hrest

theorem values_slots {value : ℕ → Except String R}
    (h : ∀ j, k ≤ j → j < k + calls.length → x j = .inr (value j)) :
    Future.values _ (slots decode calls k x) = some ((List.range' k calls.length).map value) := by
  induction calls generalizing k with
  | nil => rfl
  | cons call calls ih =>
    have hhead := h k le_rfl (by simp)
    have htail := ih (k := k + 1) fun j hj hj' =>
      h j (by omega) (by simp only [List.length_cons]; omega)
    have hslots : slots decode (call :: calls) k x = Future.States.cons (f := call.future decode)
        (.inr (value k)) (slots decode calls (k + 1) x) := by
      rw [slots, hhead]
      rfl
    rw [List.length_cons, List.range'_succ]
    exact (congrArg (Future.values _) hslots).trans (Future.values_cons_done htail)

/-- The slot of the call holds the task. -/
def HoldsTask (t : TaskRef) : (calls : List ActivityCall) → ℕ →
    Future.States (calls.map (ActivityCall.future decode)) → Prop
  | [], _, _ => False
  | _ :: _, 0, s => s.1 = .inl (some t)
  | _ :: calls, i + 1, s => HoldsTask t calls i s.2

theorem holdsTask_slots (hi : i < calls.length) (hx : x (k + i) = .inl (some t)) :
    HoldsTask t calls i (slots decode calls k x) := by
  induction calls generalizing k i with
  | nil =>
    simp only [List.length_nil] at hi
    omega
  | cons call calls ih =>
    cases i with
    | zero => exact hx
    | succ i =>
      apply ih (by simpa using hi)
      rw [← hx]
      congr 1
      omega

theorem HoldsTask.values {s : Future.States (calls.map (ActivityCall.future decode))}
    (h : HoldsTask t calls i s) : Future.values _ s = none := by
  induction calls generalizing i with
  | nil => cases h
  | cons call calls ih =>
    obtain ⟨y, s⟩ := s
    cases i with
    | zero =>
      obtain rfl : y = .inl (some t) := h
      exact Future.values_cons_suspended (f := call.future decode) _
    | succ i => exact Future.values_cons_none (f := call.future decode) (ih h)

/-- The task was abandoned, or waits, or has lost its sender. -/
def Cell.Unresolved (c : Cell) : Prop := c.Abandoned ∨ c.At .waiting ∨ c.At .lost

theorem Cell.Evolves.unresolved {c c' : Cell} (he : c.Evolves c') (h : c.Unresolved) :
    c'.Unresolved := by
  rcases h with ha | hw | hl
  · exact .inl (he.abandoned ha)
  · exact .inr (.inl (he.waits hw))
  · rcases he.stage _ hl with hl' | ⟨v, hv, -⟩
    · exact .inr (.inr hl')
    · cases hv

theorem Cell.Unresolved.poll {c c' : Cell} {b b' : Budget} {r : Poll String} (h : c.Unresolved)
    (hp : c.poll b = .ok (r, c', b')) : r = .pending := by
  have hd := (Cell.poll_frame hp).2.1
  rcases h with ha | hw | hl
  · rw [ha.1] at hd
    cases hd
  · rw [Cell.poll_waiting hd hw] at hp
    cases hp
    rfl
  · rcases Cell.poll_lost (b := b) hd hl with ⟨hp', -⟩ | ⟨d, b₁, hp', -⟩ | hp'
    all_goals
      rw [hp] at hp'
      cases hp'
    · rfl
    · rfl

/-- The task of an action has no value and gets none from the program. -/
def World.Unresolved (w : World) (t : TaskRef) (a : OrchestratorAction) : Prop :=
  ∃ c, w.cells[t]? = some c ∧ c.origin = .action a ∧ c.Unresolved

theorem World.Step.unresolved {a : OrchestratorAction} (h : World.Step env w w')
    (hu : w.Unresolved t a) : w'.Unresolved t a := by
  obtain ⟨c, hc, ho, hu⟩ := hu
  obtain ⟨c', hc', he⟩ := h.cells hc
  exact ⟨c', hc', he.origin.trans ho, he.unresolved hu⟩

theorem World.Unresolved.pollTask {a : OrchestratorAction} {r : Poll String}
    (hu : w.Unresolved t a) (hp : w.pollTask t = .ok (r, w')) : r = .pending := by
  obtain ⟨c, hc, -, hu⟩ := hu
  simp only [World.pollTask, hc] at hp
  cases hpoll : c.poll w.budget with
  | error p =>
    rw [hpoll] at hp
    cases hp
  | ok p =>
    obtain ⟨v, c', b⟩ := p
    rw [hpoll] at hp
    cases hp
    exact hu.poll hpoll

theorem run_slot_unresolved {a : OrchestratorAction} {s : Slot R} (hu : w.Unresolved t a)
    (hr : ((call.future decode).pollMaybeDone (.inl (some t))).run (handle env) w = .ok (s, w')) :
    s = .inl (some t) := by
  cases hp : w.pollTask t with
  | error e =>
    have hpoll : ((call.future decode).poll (some t)).run (handle env) w = .error e :=
      Prog.run_step_error (show handle env (.poll t) w = .error e from hp)
    have hrun := (Prog.run_bind _ _ w).symm.trans hr
    rw [hpoll] at hrun
    cases hrun
  | ok p =>
    obtain ⟨r, w₁⟩ := p
    obtain rfl := hu.pollTask hp
    have hpoll : ((call.future decode).poll (some t)).run (handle env) w =
        .ok (.suspended (some t), w₁) := awaitTask_pending hp
    have hrun := (Prog.run_bind_ok hpoll).symm.trans hr
    cases hrun
    rfl

/-- A poll leaves the slot as it is while its task is unresolved. -/
theorem HoldsTask.run {a : OrchestratorAction}
    {s s' : Future.States (calls.map (ActivityCall.future decode))} (h : HoldsTask t calls i s)
    (hu : w.Unresolved t a) (hr : (Future.pollAll _ s).run (handle env) w = .ok (s', w')) :
    HoldsTask t calls i s' := by
  induction calls generalizing i w with
  | nil => cases h
  | cons call calls ih =>
    obtain ⟨y, s⟩ := s
    obtain ⟨y', w₁, s₁, hy, hs, rfl⟩ := Future.run_pollAll_cons_ok (f := call.future decode) hr
    cases i with
    | zero =>
      obtain rfl : y = .inl (some t) := h
      exact run_slot_unresolved hu hy
    | succ i =>
      have hu₁ : w₁.Unresolved t a := Prog.run_preserves (h := handle env)
        (I := fun w => w.Unresolved t a)
        (fun o w r w' hu ho => (handle_step env o w r w' ho).unresolved hu) hu hy
      exact ih h hu₁ hs

end Slots

section FanOut

variable {R : Type} {toJson : List R → Except String String} {decode : Decoder R} {env : Env}
  {calls : List ActivityCall}

def fanOutResult (toJson : List R → Except String String) (rs : List (Except String R)) :
    OrchestratorResult String :=
  match rs.mapM id with
  | .error e => .error e
  | .ok values => (toJson values).map .output

theorem run_fanOut (toJson : List R → Except String String) (instanceId : String)
    (input : Option String) (s : Future.States (calls.map (ActivityCall.future decode)))
    (w : World) :
    (((fanOut toJson decode calls).call instanceId input).poll s).run (handle env) w =
      (((Future.joinAll (calls.map (ActivityCall.future decode))).poll s).run (handle env) w).map
        (Prod.map (Progress.map id (fanOutResult toJson)) id) := by
  have hjoin := Future.run_map (f := Future.joinAll (calls.map (ActivityCall.future decode)))
    (h := handle env) (w := w) (s := s) fun rs => (rs.mapM id).map OrchestratorResultValue.output
  refine (Future.run_map _).trans ((congrArg _ hjoin).trans ?_)
  cases ((Future.joinAll (calls.map (ActivityCall.future decode))).poll s).run (handle env) w with
  | error e => rfl
  | ok p =>
    obtain ⟨s' | rs, w'⟩ := p
    · rfl
    · simp only [Except.map, Prod.map, Progress.map, fanOutResult]
      cases rs.mapM id <;> rfl

theorem mapM_ok (values : List R) :
    (values.map (Except.ok (ε := String))).mapM id = .ok values := by
  induction values with
  | nil => rfl
  | cons v values ih =>
    rw [List.map_cons, List.mapM_cons, ih]
    rfl

theorem fanOutResult_ok {values : List R} {json : String} (h : toJson values = .ok json) :
    fanOutResult toJson (values.map .ok) = .ok (.output json) := by
  rw [fanOutResult, mapM_ok]
  exact (congrArg (Except.map _) h).trans rfl

end FanOut

end DurableTask
