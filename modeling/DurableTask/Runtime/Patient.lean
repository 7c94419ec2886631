import DurableTask.Interaction.Patience
import DurableTask.Runtime.Idle
import DurableTask.Runtime.Sequence

/-! # What a poll in vain leaves behind

The futures of the API, and what is built from them by sequence and join, do not
repeat work: once such a future is suspended on tasks that are blocked, another
poll of it changes nothing. The exception is a task that has lost its sender,
whose poll uses its channel up.
-/

namespace DurableTask

open Interaction

/-- The operation drops no task. -/
def Op.KeepsTasks : Op → Prop
  | .drop _ => False
  | _ => True

namespace Cell

variable {c c' : Cell} {b b' : Budget}

/-- The task is on its way to a value, or to a panic, and its sender has not just gone away. -/
def Hopeful (c : Cell) : Prop := (∃ s, c.At s) ∧ ¬c.At .lost

theorem Hopeful.of_at {s : Stage} (h : c.At s) (hs : s ≠ .lost) : c.Hopeful :=
  ⟨⟨s, h⟩, fun hl => hs (h.unique hl)⟩

theorem Hopeful.evolves (h : c.Hopeful) (he : c.Evolves c') : c'.Hopeful := by
  obtain ⟨⟨s, hs⟩, hl⟩ := h
  rcases he.stage s hs with hs' | ⟨v, -, hs'⟩
  · refine .of_at hs' ?_
    rintro rfl
    exact hl hs
  · exact .of_at hs' (by simp)

/-- A poll in vain changes nothing, unless it finds that the sender has gone away. -/
theorem Hopeful.poll_pending (h : c.Hopeful) (hp : c.poll b = .ok (.pending, c', b')) :
    c' = c ∧ b' = b := by
  have hd := (poll_frame hp).2.1
  obtain ⟨⟨s, hs⟩, hl⟩ := h
  cases s with
  | waiting =>
    rw [poll_waiting hd hs] at hp
    cases hp
    exact ⟨rfl, rfl⟩
  | given v =>
    rcases poll_given (b := b) hd hs with ⟨hp', -⟩ | ⟨c₁, b₁, hp', -⟩ <;> rw [hp'] at hp <;>
      cases hp
    exact ⟨rfl, rfl⟩
  | done v =>
    obtain ⟨p, hp'⟩ := poll_done (b := b) hs
    rw [hp'] at hp
    cases hp
  | lost => exact absurd hs hl
  | void =>
    rcases poll_void (b := b) hd hs with hp' | hp' <;> rw [hp'] at hp <;> cases hp
    exact ⟨rfl, rfl⟩

/-- A poll in vain is in vain too when less of the budget is left. -/
theorem poll_pending_of_budget (h : c.poll b = .ok (.pending, c, b))
    (hb : b.exhausted → b'.exhausted) : c.poll b' = .ok (.pending, c, b') := by
  obtain ⟨origin, ⟨completed, result, rx⟩, dropped, outcome⟩ := c
  cases dropped with
  | true => cases h
  | false =>
    cases completed with
    | true => cases result <;> cases h
    | false =>
      simp only [Cell.poll, CompletableTask.poll, Bool.false_eq_true, ↓reduceIte] at h ⊢
      by_cases hx : b.exhausted
      · have hx' := hb hx
        cases rx <;> simp [Oneshot.poll, hx] at h <;> simp [Oneshot.poll, hx']
      · rcases rx with _ | (_ | _) | _ | _ <;> simp [Oneshot.poll, hx] at h
        by_cases hx' : b'.exhausted <;> simp [Oneshot.poll, hx']

end Cell

namespace World

variable {env : Env} {w w' : World} {t : TaskRef}

/-- No task that was not dropped has lost its sender. -/
def Hopeful (w : World) : Prop :=
  ∀ (t : TaskRef) (c : Cell), w.cells[t]? = some c → c.dropped = false → c.Hopeful

/-- A poll of the task is pending and changes nothing. -/
def Blocked (t : TaskRef) (w : World) : Prop :=
  ∃ c, w.cells[t]? = some c ∧ c.poll w.budget = .ok (.pending, c, w.budget)

theorem Hopeful.append {c : Cell} (h : w.Hopeful) (hw : w'.cells = w.cells ++ [c])
    (hc : c.Hopeful) : w'.Hopeful := by
  intro t c' hc' hd
  rw [hw, List.getElem?_append] at hc'
  split at hc'
  · exact h t c' hc' hd
  · rw [List.mem_singleton.mp (List.mem_of_getElem? hc')]
    exact hc

theorem Blocked.append {c : Cell} (h : w.Blocked t) (hw : w'.cells = w.cells ++ [c])
    (hb : w'.budget = w.budget) : w'.Blocked t := by
  obtain ⟨c', hc', hp⟩ := h
  refine ⟨c', ?_, by rw [hb]; exact hp⟩
  rw [hw, List.getElem?_append_left (List.getElem?_eq_some_iff.mp hc').1]
  exact hc'

theorem Blocked.pollTask (h : w.Blocked t) : w.pollTask t = .ok (.pending, w) := by
  obtain ⟨c, hc, hp⟩ := h
  obtain ⟨hlt, rfl⟩ := List.getElem?_eq_some_iff.mp hc
  simp only [World.pollTask, hc, hp, List.set_getElem_self]

theorem Hopeful.of_cells (h : w.Hopeful)
    (hcells : ∀ (t : TaskRef) (c' : Cell), w'.cells[t]? = some c' → c'.dropped = false →
      ∃ c, w.cells[t]? = some c ∧ c.Evolves c') : w'.Hopeful := by
  intro t c' hc' hd
  obtain ⟨c, hc, he⟩ := hcells t c' hc' hd
  exact (h t c hc (he.live hd)).evolves he

theorem Step.hopeful (hs : Step env w w') (h : w.Hopeful) : w'.Hopeful := by
  have evolved (hlen : w'.cells.length = w.cells.length) : w'.Hopeful := by
    refine h.of_cells fun t c' hc' _ => ?_
    have hlt := (List.getElem?_eq_some_iff.mp hc').1
    have hc := List.getElem?_eq_getElem (hlen ▸ hlt : t < w.cells.length)
    obtain ⟨c₁, hc₁, he⟩ := hs.cells hc
    rw [hc'] at hc₁
    cases hc₁
    exact ⟨_, hc, he⟩
  cases hs with
  | issue reads mk _ _ => exact h.append rfl (.of_at (Cell.at_new _) (by simp))
  | take name payload received _ =>
    exact h.append rfl (.of_at (s := .given payload) ⟨.inr rfl, rfl⟩ (by simp))
  | wait name _ => exact h.append rfl (.of_at (Cell.at_new _) (by simp))
  | poll t c c' r b _ _ => exact evolved (by simp)
  | drop t => exact evolved (by simp [dropTask])

theorem awaitSignalEvent_append {name : String}
    (h : w.awaitSignalEvent env name = .ok (t, w')) :
    ∃ c, w'.cells = w.cells ++ [c] ∧ w'.budget = w.budget := by
  simp only [awaitSignalEvent] at h
  cases hl : w.receivedEvents.lookup (env.toLowercase name) with
  | none =>
    rw [hl] at h
    cases h
    exact ⟨_, rfl, rfl⟩
  | some received =>
    rw [hl] at h
    rcases received with _ | ⟨_ | payload, received⟩
    · cases h
    · cases h
    · cases h
      exact ⟨_, rfl, rfl⟩

/-- A poll of one task does not free another. -/
theorem Blocked.poll {u : TaskRef} {r : Poll String} (h : w.Blocked t)
    (hp : w.pollTask u = .ok (r, w')) : w'.Blocked t := by
  obtain ⟨c, c', b, hc, hpoll, rfl⟩ := World.pollTask_ok hp
  obtain ⟨d, hd, hblocked⟩ := h
  by_cases hu : u = t
  · subst hu
    rw [hc] at hd
    cases hd
    rw [hblocked] at hpoll
    cases hpoll
    exact ⟨c, List.getElem?_set_self (List.getElem?_eq_some_iff.mp hc).1, hblocked⟩
  · refine ⟨d, by rw [List.getElem?_set_ne hu]; exact hd, ?_⟩
    exact Cell.poll_pending_of_budget hblocked (Cell.not_ripe_of_poll hpoll).2

end World

theorem undisturbing (env : Env) :
    Undisturbing (handle env) Op.KeepsTasks World.Hopeful World.Blocked where
  good o w r w' _ hw h := (handle_step env o w r w' h).hopeful hw
  stuck t o w r w' ho hw h := by
    cases o with
    | createTimer millis => cases h; exact hw.append rfl rfl
    | scheduleActivity name input => cases h; exact hw.append rfl rfl
    | scheduleSubOrchestrator name instanceId input => cases h; exact hw.append rfl rfl
    | awaitSignalEvent name =>
      obtain ⟨c, hc, hb⟩ := World.awaitSignalEvent_append h
      exact hw.append hc hb
    | poll u => exact hw.poll h
    | drop u => exact ho.elim
    | panic message => cases h

/-- A future that drops no task and leaves the world as it is when it is polled in vain. -/
abbrev TaskFuture.Patient {α : Type} (env : Env) (f : TaskFuture α) : Prop :=
  Future.Patient (handle env) Op.KeepsTasks World.Hopeful World.Blocked f

section Calls

variable {A R : Type} {env : Env} {encode : Encoder A} {decode : Decoder R} {t : TaskRef}
  {w w' : World}

theorem panicWith_keeps {α : Type} (message : String) :
    (panicWith message : OrchestratorProg α).All Op.KeepsTasks :=
  .step trivial fun r => r.elim

theorem encodeInput_keeps {α : Type} {input : A} {k : String → OrchestratorProg α}
    (hk : ∀ s, (k s).All Op.KeepsTasks) : (encodeInput encode input k).All Op.KeepsTasks := by
  unfold encodeInput
  cases encode input with
  | ok s => exact hk s
  | error e => exact panicWith_keeps _

theorem awaitTask_keeps (decode : Decoder R) (t : TaskRef) :
    (awaitTask decode t).All Op.KeepsTasks := by
  refine .step trivial fun r => ?_
  cases r with
  | pending => trivial
  | ready payload =>
    refine Prog.All.bind ?_ fun _ => trivial
    unfold decodeOutput
    cases decode payload with
    | ok v => trivial
    | error e => exact panicWith_keeps _

theorem awaitTask_parks {st : Option TaskRef} (hw : w.Hopeful)
    (h : (awaitTask decode t).run (handle env) w = .ok (.suspended st, w')) :
    st = some t ∧ w'.Blocked t := by
  obtain ⟨rfl, hp⟩ := awaitTask_suspended h
  obtain ⟨c, c', b, hc, hpoll, rfl⟩ := World.pollTask_ok hp
  obtain ⟨rfl, rfl⟩ := (hw t c hc (Cell.poll_frame hpoll).2.1).poll_pending hpoll
  exact ⟨rfl, c', List.getElem?_set_self (List.getElem?_eq_some_iff.mp hc).1, hpoll⟩

theorem taskCall_patient {create : OrchestratorProg TaskRef} (hcreate : create.All Op.KeepsTasks)
    (decode : Decoder R) : TaskFuture.Patient env (taskCall create decode) := by
  have parked {t : TaskRef} {w w' : World} {st : Option TaskRef} (hw : w.Hopeful)
      (h : (awaitTask decode t).run (handle env) w = .ok (.suspended st, w')) :
      (taskCall create decode).Parks (handle env) World.Blocked st w' := by
    obtain ⟨rfl, hb⟩ := awaitTask_parks hw h
    refine ⟨[t], by simpa using hb, fun w₁ h₁ => ?_⟩
    exact awaitTask_pending (h₁ t (List.mem_singleton_self t)).pollTask
  constructor
  · rintro (_ | t)
    · exact hcreate.bind fun t => awaitTask_keeps decode t
    · exact awaitTask_keeps decode t
  · rintro (_ | t) w st w' hw h
    · simp only [taskCall, Prog.run_bind] at h
      rcases hr : create.run (handle env) w with e | ⟨t, w₁⟩ <;> rw [hr] at h
      · cases h
      · exact parked ((undisturbing env).run_good hcreate hw hr) h
    · exact parked hw h

theorem callActivity_patient (typeName activityType : String) (input : A) :
    TaskFuture.Patient env (callActivity encode decode typeName activityType input) := by
  refine taskCall_patient (encodeInput_keeps fun s => ?_) decode
  exact .step trivial fun _ => trivial

theorem callSubOrchestrator_patient (typeName orchestratorType instanceId : String) (input : A) :
    TaskFuture.Patient env
      (callSubOrchestrator encode decode typeName orchestratorType instanceId input) := by
  refine taskCall_patient (encodeInput_keeps fun s => ?_) decode
  exact .step trivial fun _ => trivial

theorem awaitSignalEvent_patient (name : String) :
    TaskFuture.Patient env (awaitSignalEvent decode name) := by
  refine taskCall_patient ?_ decode
  exact .step trivial fun _ => trivial

theorem createTimer_patient (fireAfterMillis : ℕ) :
    TaskFuture.Patient env (createTimer fireAfterMillis) := by
  refine (taskCall_patient ?_ _).map _
  exact .step trivial fun _ => trivial

end Calls

end DurableTask
