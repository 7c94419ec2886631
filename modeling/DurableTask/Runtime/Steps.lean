import DurableTask.Runtime.Context
import Mathlib.Logic.Relation

/-! # What a program can do

Every operation of an orchestrator changes the world in one of five ways. A
poll of a program is a sequence of such steps, whatever the program is, so each
invariant of a poll follows from the same five cases.
-/

namespace DurableTask

open Interaction Queues

/-- How far a task is on its way to its value. -/
inductive Stage where
  | waiting
  | given (v : String)
  | done (v : String)
  /-- The sender went away without a value. -/
  | lost
  /-- The sender sent the absence of a payload. -/
  | void

namespace Cell

/-- The task is at a stage. -/
def At (c : Cell) : Stage → Prop
  | .waiting => c.task = .new ∧ c.outcome = none
  | .given v =>
    (c.task = ⟨false, none, .sent (some v)⟩ ∨ c.task = ⟨true, some v, .closed⟩) ∧ c.outcome = none
  | .done v =>
    (c.task = ⟨false, none, .taken⟩ ∨ c.task = ⟨true, none, .closed⟩) ∧ c.outcome = some v
  | .lost => (c.task = ⟨false, none, .closed⟩ ∨ c.task = ⟨false, none, .taken⟩) ∧ c.outcome = none
  | .void => c.task = ⟨false, none, .sent none⟩ ∧ c.outcome = none

variable {c c' : Cell} {b b' : Budget} {v : String} {r : Poll String}

theorem at_new (o : Origin) : (Cell.new o).At .waiting := ⟨rfl, rfl⟩

theorem At.unique {s s' : Stage} (h : c.At s) (h' : c.At s') : s = s' := by
  obtain ⟨origin, task, dropped, outcome⟩ := c
  cases s <;> cases s' <;> simp only [At, CompletableTask.new] at h h' <;> grind

theorem poll_waiting (hd : c.dropped = false) (h : c.At .waiting) :
    c.poll b = .ok (.pending, c, b) := by
  obtain ⟨origin, task, dropped, outcome⟩ := c
  obtain ⟨rfl, rfl⟩ := h
  cases hd
  by_cases hb : b.exhausted <;>
    simp [Cell.poll, CompletableTask.poll, CompletableTask.new, Oneshot.poll, hb]

theorem poll_given (hd : c.dropped = false) (h : c.At (.given v)) :
    c.poll b = .ok (.pending, c, b) ∧ b.exhausted ∨
      ∃ c' b', c.poll b = .ok (.ready v, c', b') ∧ c'.At (.done v) ∧ c'.origin = c.origin ∧
        c'.dropped = false := by
  obtain ⟨origin, task, dropped, outcome⟩ := c
  obtain ⟨rfl | rfl, rfl⟩ := h <;> cases hd
  · by_cases hb : b.exhausted
    · exact .inl ⟨by simp [Cell.poll, CompletableTask.poll, Oneshot.poll, hb], hb⟩
    · refine .inr ⟨⟨origin, ⟨false, none, .taken⟩, false, some v⟩, b.spend, ?_, ?_, rfl, rfl⟩
      · simp [Cell.poll, CompletableTask.poll, Oneshot.poll, hb]
      · exact ⟨.inl rfl, rfl⟩
  · exact .inr ⟨⟨origin, ⟨true, none, .closed⟩, false, some v⟩, b,
      by simp [Cell.poll, CompletableTask.poll], ⟨.inr rfl, rfl⟩, rfl, rfl⟩

theorem poll_done (h : c.At (.done v)) : ∃ p, c.poll b = .error p := by
  obtain ⟨origin, task, dropped, outcome⟩ := c
  obtain ⟨rfl | rfl, rfl⟩ := h <;> cases dropped <;>
    simp [Cell.poll, CompletableTask.poll, Oneshot.poll]

/-- A task whose sender went away is pending at the next poll and panics at the one after it. -/
theorem poll_lost (hd : c.dropped = false) (h : c.At .lost) :
    c.poll b = .ok (.pending, c, b) ∧ b.exhausted ∨
      (∃ c' b', c.poll b = .ok (.pending, c', b') ∧ c'.At .lost ∧ c'.origin = c.origin ∧
        ∀ b, c'.poll b = .error .calledAfterComplete) ∨ c.poll b = .error .calledAfterComplete := by
  obtain ⟨origin, task, dropped, outcome⟩ := c
  obtain ⟨rfl | rfl, rfl⟩ := h <;> cases hd
  · by_cases hb : b.exhausted
    · exact .inl ⟨by simp [Cell.poll, CompletableTask.poll, Oneshot.poll, hb], hb⟩
    · refine .inr (.inl ⟨⟨origin, ⟨false, none, .taken⟩, false, none⟩, b.spend, ?_, ?_, rfl, ?_⟩)
      · simp [Cell.poll, CompletableTask.poll, Oneshot.poll, hb]
      · exact ⟨.inr rfl, rfl⟩
      · intro b
        simp [Cell.poll, CompletableTask.poll, Oneshot.poll]
  · exact .inr (.inr (by simp [Cell.poll, CompletableTask.poll, Oneshot.poll]))

theorem poll_void (hd : c.dropped = false) (h : c.At .void) :
    c.poll b = .ok (.pending, c, b) ∨ c.poll b = .error .missingPayload := by
  obtain ⟨origin, task, dropped, outcome⟩ := c
  obtain ⟨rfl, rfl⟩ := h
  cases hd
  by_cases hb : b.exhausted <;> simp [Cell.poll, CompletableTask.poll, Oneshot.poll, hb]

theorem poll_dropped (hd : c.dropped = true) : c.poll b = .error .useAfterDrop := by
  simp [Cell.poll, hd]

theorem poll_frame (h : c.poll b = .ok (r, c', b')) :
    c'.origin = c.origin ∧ c.dropped = false ∧ c'.dropped = false := by
  unfold Cell.poll at h
  split at h
  · cases h
  · rename_i hd
    split at h <;> cases h <;> exact ⟨rfl, by simpa using hd, by simpa using hd⟩

/-- What the program can do to a task: nothing once it is dropped, and nothing to a value. -/
structure Evolves (c c' : Cell) : Prop where
  origin : c'.origin = c.origin
  dropped : c.dropped = true → c' = c
  stage : ∀ s, c.At s → c'.At s ∨ ∃ v, s = .given v ∧ c'.At (.done v)

theorem Evolves.refl (c : Cell) : c.Evolves c := ⟨rfl, fun _ => rfl, fun _ h => .inl h⟩

theorem Evolves.trans {c'' : Cell} (h : c.Evolves c') (h' : c'.Evolves c'') : c.Evolves c'' where
  origin := h'.origin.trans h.origin
  dropped hd := by
    have he := h.dropped hd
    rw [← he]
    exact h'.dropped (he ▸ hd)
  stage s hs := by
    rcases h.stage s hs with h₁ | ⟨v, rfl, h₁⟩
    · exact h'.stage s h₁
    · rcases h'.stage _ h₁ with h₂ | ⟨_, h₂, _⟩
      · exact .inr ⟨v, rfl, h₂⟩
      · cases h₂

theorem poll_evolves (h : c.poll b = .ok (r, c', b')) : c.Evolves c' where
  origin := (poll_frame h).1
  dropped hd := by rw [poll_dropped hd] at h; cases h
  stage s hs := by
    have hd := (poll_frame h).2.1
    cases s with
    | waiting =>
      rw [poll_waiting hd hs] at h
      cases h
      exact .inl hs
    | given v =>
      rcases poll_given hd hs with ⟨hp, _⟩ | ⟨c₁, b₁, hp, hs', _⟩
      · rw [hp] at h
        cases h
        exact .inl hs
      · rw [hp] at h
        cases h
        exact .inr ⟨v, rfl, hs'⟩
    | done v =>
      obtain ⟨p, hp⟩ := poll_done (b := b) hs
      rw [hp] at h
      cases h
    | lost =>
      rcases poll_lost (b := b) hd hs with ⟨hp, _⟩ | ⟨c₁, b₁, hp, hs', _⟩ | hp <;> rw [hp] at h <;>
        cases h
      · exact .inl hs
      · exact .inl hs'
    | void =>
      rcases poll_void (b := b) hd hs with hp | hp <;> rw [hp] at h <;> cases h
      exact .inl hs

theorem drop_evolves : c.Evolves c.drop where
  origin := rfl
  dropped hd := by simp [drop, ← hd]
  stage s hs := by cases s <;> exact .inl hs

theorem Evolves.waits (h : c.Evolves c') (hw : c.At .waiting) : c'.At .waiting := by
  rcases h.stage _ hw with h' | ⟨v, hv, -⟩
  · exact h'
  · cases hv

/-- A task that waits after it evolved waited before. -/
theorem Evolves.waiting (h : c.Evolves c') (hs : ∃ s, c.At s) (hw : c'.At .waiting) :
    c.At .waiting := by
  obtain ⟨s, hs⟩ := hs
  rcases h.stage s hs with h' | ⟨v, rfl, h'⟩
  · exact h'.unique hw ▸ hs
  · cases h'.unique hw

theorem Evolves.staged (h : c.Evolves c') (hs : ∃ s, c.At s) : ∃ s, c'.At s := by
  obtain ⟨s, hs⟩ := hs
  rcases h.stage s hs with h' | ⟨v, -, h'⟩
  · exact ⟨s, h'⟩
  · exact ⟨_, h'⟩

theorem Evolves.live (h : c.Evolves c') (hd : c'.dropped = false) : c.dropped = false := by
  cases hcd : c.dropped with
  | false => rfl
  | true => rw [h.dropped hcd, hcd] at hd; cases hd

theorem Evolves.abandoned (h : c.Evolves c') (ha : c.Abandoned) : c'.Abandoned := by
  rw [h.dropped ha.1]
  exact ha

variable {o : Option String}

/-- A poll of the task is pending and leaves it as it is. -/
def Pending (c : Cell) : Prop := ∀ b : Budget, c.poll b = .ok (.pending, c, b)

/-- The task has resolved to a value, once and for all, or does so at its next poll. -/
def Resolves (c : Cell) (v : String) : Prop :=
  c.outcome = some v ∧ (∀ b, ∃ p, c.poll b = .error p) ∨
    c.outcome = none ∧ ∀ b : Budget, ¬b.exhausted → ∃ c' b', c.poll b = .ok (.ready v, c', b') ∧
      c'.outcome = some v ∧ ∀ b, ∃ p, c'.poll b = .error p

/-- The task waits, or it was handed a value. -/
def Holds (c : Cell) : Option String → Prop
  | none => c.At .waiting
  | some v => c.At (.given v) ∨ c.At (.done v)

theorem Holds.evolves (h : c.Holds o) (he : c.Evolves c') : c'.Holds o := by
  cases o with
  | none => exact he.waits h
  | some v =>
    rcases h with h | h
    · rcases he.stage _ h with h' | ⟨v', hv, h'⟩
      · exact .inl h'
      · cases hv
        exact .inr h'
    · rcases he.stage _ h with h' | ⟨v', hv, -⟩
      · exact .inr h'
      · cases hv

theorem Holds.of_waiting (h : c.Holds o) (hw : c.At .waiting) : o = none := by
  cases o with
  | none => rfl
  | some v => rcases h with h | h <;> cases h.unique hw

theorem Holds.live (h : c.Holds none) (ha : ¬c.Abandoned) : c.dropped = false := by
  cases hd : c.dropped with
  | false => rfl
  | true => exact absurd ⟨hd, h.2⟩ ha

theorem Holds.pending (h : c.Holds none) (ha : ¬c.Abandoned) : c.Pending :=
  fun _ => poll_waiting (h.live ha) h

theorem Holds.resolves (h : c.Holds (some v)) (ha : ¬c.Abandoned) : c.Resolves v := by
  rcases h with h | h
  · have hd : c.dropped = false := by
      cases hd : c.dropped with
      | false => rfl
      | true => exact absurd ⟨hd, h.2⟩ ha
    refine .inr ⟨h.2, fun b hb => ?_⟩
    rcases poll_given (b := b) hd h with ⟨-, hb'⟩ | ⟨c', b', hp, hdone, -⟩
    · exact absurd hb' hb
    · exact ⟨c', b', hp, hdone.2, fun b => poll_done hdone⟩
  · exact .inl ⟨h.2, fun b => poll_done h⟩

end Cell

namespace World

variable {env : Env} {w w' w'' : World}

@[simp] theorem issue_eq (mk : Int → OrchestratorAction) :
    w.issue mk = (w.cells.length, { w with
      octx := { w.octx with
        sequenceNumber := w.octx.sequenceNumber + 1
        actionsTx :=
          w.octx.actionsTx ++ [(w.octx.sequenceNumber + 1, mk (w.octx.sequenceNumber + 1))]
        tasksTx := w.octx.tasksTx ++ [(w.octx.sequenceNumber + 1, w.cells.length)] }
      cells := w.cells ++ [.new (.action (mk (w.octx.sequenceNumber + 1)))] }) := rfl

/-- One operation of a program on the world. -/
inductive Step (env : Env) (w : World) : World → Prop where
  | issue (reads : ℕ) (mk : Int → OrchestratorAction) (hid : ∀ id, (mk id).id = id)
      (hc : ∀ id, (mk id).isComplete = false) :
    Step env w ({ w with clockReads := w.clockReads + reads }.issue mk).2
  | take (name payload : String) (received : List (Option String))
      (hl : w.receivedEvents.lookup (env.toLowercase name) = some (some payload :: received)) :
    Step env w { w with
      receivedEvents :=
        w.receivedEvents.pop (env.toLowercase name) (some payload :: received)
      cells := w.cells ++
        [⟨.signal (env.toLowercase name), ⟨true, some payload, .closed⟩, false, none⟩] }
  | wait (name : String) (hl : w.receivedEvents.lookup (env.toLowercase name) = none) :
    Step env w { w with
      octx := { w.octx with
        eventsTx := w.octx.eventsTx ++ [(env.toLowercase name, w.cells.length)] }
      cells := w.cells ++ [.new (.signal (env.toLowercase name))] }
  | poll (t : TaskRef) (c c' : Cell) (r : Poll String) (b : Budget) (hc : w.cells[t]? = some c)
      (hp : c.poll w.budget = .ok (r, c', b)) :
    Step env w { w with cells := w.cells.set t c', budget := b }
  | drop (t : TaskRef) : Step env w (w.dropTask t)

/-- The steps of a program. -/
abbrev Steps (env : Env) : World → World → Prop := Relation.ReflTransGen (Step env)

theorem awaitSignalEvent_step {name : String} {t : TaskRef}
    (h : w.awaitSignalEvent env name = .ok (t, w')) : Step env w w' := by
  simp only [awaitSignalEvent] at h
  cases hl : w.receivedEvents.lookup (env.toLowercase name) with
  | none =>
    rw [hl] at h
    cases h
    exact .wait name hl
  | some received =>
    rw [hl] at h
    rcases received with _ | ⟨_ | payload, received⟩
    · cases h
    · cases h
    · cases h
      exact .take name payload received hl

theorem pollTask_step {t : TaskRef} {r : Poll String} (h : w.pollTask t = .ok (r, w')) :
    Step env w w' := by
  unfold pollTask at h
  split at h
  · cases h
  · rename_i c hc
    split at h
    · cases h
    · rename_i v c' b hp
      cases h
      exact .poll t c c' r b hc hp

end World

open World in
theorem handle_step (env : Env) (o : Op) (w : World) (r : o.Reply) (w' : World)
    (h : handle env o w = .ok (r, w')) : Step env w w' := by
  cases o with
  | createTimer millis =>
    cases h
    exact .issue 1 (fun id => newCreateTimerAction id _) (fun _ => rfl) (fun _ => rfl)
  | scheduleActivity name input =>
    cases h
    exact .issue 0 (fun id => newScheduleTaskAction id name input) (fun _ => rfl) (fun _ => rfl)
  | scheduleSubOrchestrator name instanceId input =>
    cases h
    exact .issue 0 (fun id => newCreateSubOrchestrationAction id name instanceId input)
      (fun _ => rfl) (fun _ => rfl)
  | awaitSignalEvent name => exact awaitSignalEvent_step h
  | poll t => exact pollTask_step h
  | drop t =>
    cases h
    exact .drop t
  | panic message => cases h

theorem run_steps {env : Env} {α : Type} {m : OrchestratorProg α} {w w' : World} {a : α}
    (h : m.run (handle env) w = .ok (a, w')) : World.Steps env w w' :=
  Prog.run_preserves (h := handle env) (I := World.Steps env w)
    (fun o s r s' hs ho => hs.tail (handle_step env o s r s' ho)) .refl h

namespace World

variable {env : Env} {w w' : World}

/-- A step changes the tasks on the heap only as a program can, and may add one. -/
theorem Step.cells (h : Step env w w') {t : TaskRef} {c : Cell} (hc : w.cells[t]? = some c) :
    ∃ c', w'.cells[t]? = some c' ∧ c.Evolves c' := by
  have hlt : t < w.cells.length := (List.getElem?_eq_some_iff.mp hc).1
  cases h with
  | issue reads mk _ _ => exact ⟨c, by simp [List.getElem?_append_left hlt, hc], .refl c⟩
  | take name payload received _ =>
    exact ⟨c, by simp [List.getElem?_append_left hlt, hc], .refl c⟩
  | wait name _ => exact ⟨c, by simp [List.getElem?_append_left hlt, hc], .refl c⟩
  | poll t' c₁ c₂ r b hc₁ hp =>
    by_cases ht : t' = t
    · subst ht
      rw [hc] at hc₁
      cases hc₁
      exact ⟨c₂, by simp [hlt], Cell.poll_evolves hp⟩
    · exact ⟨c, by simp [List.getElem?_set_ne ht, hc], .refl c⟩
  | drop t' =>
    by_cases ht : t' = t
    · subst ht
      exact ⟨c.drop, by simp [dropTask, hc], Cell.drop_evolves⟩
    · exact ⟨c, by simp [dropTask, ht, hc], .refl c⟩

/-- What each operation of a program keeps, its runs keep. -/
theorem Steps.preserves {P : World → Prop} (hP : ∀ w w', Step env w w' → P w → P w')
    (h : Steps env w w') (hw : P w) : P w' := by
  induction h with
  | refl => exact hw
  | tail _ hs ih => exact hP _ _ hs ih

theorem Steps.cells (h : Steps env w w') {t : TaskRef} {c : Cell} (hc : w.cells[t]? = some c) :
    ∃ c', w'.cells[t]? = some c' ∧ c.Evolves c' := by
  induction h with
  | refl => exact ⟨c, hc, .refl c⟩
  | tail _ hs ih =>
    obtain ⟨c₁, hc₁, he₁⟩ := ih
    obtain ⟨c₂, hc₂, he₂⟩ := hs.cells hc₁
    exact ⟨c₂, hc₂, he₁.trans he₂⟩

/-- Tasks that stay what they are have the same origins. -/
theorem origins_eq (hlen : w'.cells.length = w.cells.length)
    (hcells : ∀ (t : ℕ) (c : Cell), w.cells[t]? = some c →
      ∃ c', w'.cells[t]? = some c' ∧ c'.origin = c.origin) :
    w'.cells.map Cell.origin = w.cells.map Cell.origin := by
  apply List.ext_getElem?
  intro t
  simp only [List.getElem?_map]
  cases hc : w.cells[t]? with
  | some c =>
    obtain ⟨c', hc', ho⟩ := hcells t c hc
    simp [hc', ho]
  | none =>
    rw [List.getElem?_eq_none_iff] at hc
    rw [List.getElem?_eq_none (by omega)]

theorem dropFrom_cells {base t : ℕ} :
    (w.dropFrom base).cells[t]? =
      if t < base then w.cells[t]? else w.cells[t]?.map Cell.drop := by
  simp only [dropFrom, List.getElem?_append, List.length_take, List.getElem?_take,
    List.getElem?_map, List.getElem?_drop]
  rcases Nat.lt_or_ge t w.cells.length with hl | hl
  · by_cases ht : t < base
    · rw [if_pos (by omega), if_pos ht, if_pos ht]
    · rw [if_neg (by omega), if_neg ht]
      congr 2
      omega
  · rw [List.getElem?_eq_none hl, List.getElem?_eq_none (by omega)]
    grind

theorem dropBefore_cells {base t : ℕ} :
    (w.dropBefore base).cells[t]? =
      if t < base then w.cells[t]?.map Cell.drop else w.cells[t]? := by
  simp only [dropBefore, List.getElem?_append, List.length_map, List.length_take,
    List.getElem?_map, List.getElem?_take, List.getElem?_drop]
  rcases Nat.lt_or_ge t w.cells.length with hl | hl
  · by_cases ht : t < base
    · rw [if_pos (by omega), if_pos ht, if_pos ht]
    · rw [if_neg (by omega), if_neg ht]
      congr 1
      omega
  · rw [List.getElem?_eq_none hl, List.getElem?_eq_none (by omega)]
    grind

@[simp] theorem dropFrom_length {base : ℕ} : (w.dropFrom base).cells.length = w.cells.length := by
  simp [dropFrom]
  omega

@[simp] theorem dropBefore_length {base : ℕ} :
    (w.dropBefore base).cells.length = w.cells.length := by
  simp [dropBefore]
  omega

/-- A return of the program changes the tasks only as the program can. -/
theorem dropFrom_evolves {base t : ℕ} {c : Cell} (hc : w.cells[t]? = some c) :
    ∃ c', (w.dropFrom base).cells[t]? = some c' ∧ c.Evolves c' := by
  rw [dropFrom_cells, hc]
  split
  · exact ⟨c, rfl, .refl c⟩
  · exact ⟨c.drop, rfl, Cell.drop_evolves⟩

theorem dropBefore_evolves {base t : ℕ} {c : Cell} (hc : w.cells[t]? = some c) :
    ∃ c', (w.dropBefore base).cells[t]? = some c' ∧ c.Evolves c' := by
  rw [dropBefore_cells, hc]
  split
  · exact ⟨c.drop, rfl, Cell.drop_evolves⟩
  · exact ⟨c, rfl, .refl c⟩

theorem dropBefore_origins {base : ℕ} :
    (w.dropBefore base).cells.map Cell.origin = w.cells.map Cell.origin :=
  origins_eq dropBefore_length fun _ _ hc =>
    (dropBefore_evolves hc).imp fun _ h => h.imp_right Cell.Evolves.origin

theorem dropFrom_source {base t : ℕ} {c' : Cell} (hc : (w.dropFrom base).cells[t]? = some c') :
    ∃ c, w.cells[t]? = some c ∧ c.Evolves c' := by
  rw [dropFrom_cells] at hc
  split at hc
  · exact ⟨c', hc, .refl c'⟩
  · obtain ⟨c, hc₁, rfl⟩ := Option.map_eq_some_iff.mp hc
    exact ⟨c, hc₁, Cell.drop_evolves⟩

theorem dropFrom_live {base t : ℕ} {c : Cell} (hc : (w.dropFrom base).cells[t]? = some c)
    (hd : c.dropped = false) : t < base := by
  rw [dropFrom_cells] at hc
  split at hc
  · assumption
  · obtain ⟨c, -, rfl⟩ := Option.map_eq_some_iff.mp hc
    cases hd

theorem Step.length_le (h : Step env w w') : w.cells.length ≤ w'.cells.length := by
  cases h <;> simp [dropTask]

theorem Steps.length_le (h : Steps env w w') : w.cells.length ≤ w'.cells.length := by
  induction h with
  | refl => exact Nat.le_refl _
  | tail _ hs ih => exact Nat.le_trans ih hs.length_le

theorem Steps.notified (h : Steps env w w') : w'.notified = w.notified := by
  induction h with
  | refl => rfl
  | tail _ hs ih => rw [← ih]; cases hs <;> rfl

theorem Steps.returned (h : Steps env w w') : w'.returned = w.returned := by
  induction h with
  | refl => rfl
  | tail _ hs ih => rw [← ih]; cases hs <;> rfl

end World

end DurableTask
