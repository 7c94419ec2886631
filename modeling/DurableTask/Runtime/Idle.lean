import DurableTask.Interaction.Wakeups
import DurableTask.Runtime.Calls
import DurableTask.Runtime.Steps

/-! # What wakes an orchestrator

A task that is not ripe cannot become ripe by what the program does, only by a
value from the executor. So the futures of the API, and what is built from
them, are wake-driven.
-/

namespace DurableTask

open Interaction

namespace Cell

/-- A poll of the task would be ready. -/
def Ripe (c : Cell) (b : Budget) : Prop := ∃ v c' b', c.poll b = .ok (.ready v, c', b')

theorem ripe_iff {c : Cell} {b : Budget} : c.Ripe b ↔ c.dropped = false ∧
    (c.task.completed = true ∧ c.task.result.isSome ∨
      c.task.completed = false ∧ (∃ v, c.task.unblockRx = .sent (some v)) ∧ ¬b.exhausted) := by
  obtain ⟨origin, ⟨completed, result, rx⟩, dropped, outcome⟩ := c
  cases dropped <;> cases completed <;>
    simp only [Ripe, Cell.poll, CompletableTask.poll, Bool.false_eq_true, ↓reduceIte]
  · by_cases hb : b.exhausted
    · cases rx <;> simp [Oneshot.poll, hb]
    · rcases rx with _ | (_ | _) | _ | _ <;> simp [Oneshot.poll, hb]
  · cases result <;> simp
  · simp
  · simp

variable {c c' : Cell} {b b' : Budget} {r : Poll String}

/-- Once polled, a task is not ripe, and a budget that was exhausted still is. -/
theorem not_ripe_of_poll (h : c.poll b = .ok (r, c', b')) :
    ¬c'.Ripe b' ∧ (b.exhausted → b'.exhausted) := by
  obtain ⟨origin, ⟨completed, result, rx⟩, dropped, outcome⟩ := c
  rw [ripe_iff]
  cases dropped with
  | true => cases h
  | false =>
    cases completed with
    | true =>
      cases result with
      | none => cases h
      | some v => cases h; simp
    | false =>
      simp only [Cell.poll, CompletableTask.poll, Bool.false_eq_true, ↓reduceIte] at h
      by_cases hb : b.exhausted
      · cases rx <;> simp [Oneshot.poll, hb] at h <;> obtain ⟨-, rfl, rfl⟩ := h <;> simp [hb]
      · rcases rx with _ | (_ | _) | _ | _ <;> simp [Oneshot.poll, hb] at h <;>
          obtain ⟨-, rfl, rfl⟩ := h <;> simp [hb]

theorem Ripe.of_budget (h : c.Ripe b') (hb : b.exhausted → b'.exhausted) : c.Ripe b := by
  rw [ripe_iff] at h ⊢
  refine ⟨h.1, h.2.imp_right ?_⟩
  rintro ⟨hc, hs, hb'⟩
  exact ⟨hc, hs, fun he => hb' (hb he)⟩

end Cell

namespace World

variable {env : Env} {w w' w'' : World}

/-- Nothing happens that makes a task ripe. -/
structure Rests (w w' : World) : Prop where
  length_le : w.cells.length ≤ w'.cells.length
  ripe : ∀ {t : ℕ} {c' : Cell}, t < w.cells.length → w'.cells[t]? = some c' → c'.Ripe w'.budget →
    ∃ c, w.cells[t]? = some c ∧ c.Ripe w.budget

theorem Rests.refl (w : World) : w.Rests w := ⟨Nat.le_refl _, fun _ hc hr => ⟨_, hc, hr⟩⟩

theorem Rests.trans (h : w.Rests w') (h' : w'.Rests w'') : w.Rests w'' where
  length_le := Nat.le_trans h.length_le h'.length_le
  ripe ht hc hr := by
    obtain ⟨c₁, hc₁, hr₁⟩ := h'.ripe (Nat.lt_of_lt_of_le ht h.length_le) hc hr
    exact h.ripe ht hc₁ hr₁

theorem Rests.of_eq (hc : w'.cells = w.cells) (hb : w'.budget = w.budget) : w.Rests w' :=
  ⟨by rw [hc], fun _ hc' hr => ⟨_, hc ▸ hc', hb ▸ hr⟩⟩

theorem Rests.append {cells : List Cell} (hc : w'.cells = w.cells ++ cells)
    (hb : w'.budget = w.budget) : w.Rests w' where
  length_le := by simp [hc]
  ripe ht hc' hr := ⟨_, by rw [← hc', hc, List.getElem?_append_left ht], hb ▸ hr⟩

theorem Rests.of_cells (hlen : w'.cells.length = w.cells.length) (hb : w'.budget = w.budget)
    (h : ∀ (t : ℕ) (c c' : Cell), w.cells[t]? = some c → w'.cells[t]? = some c' →
      c'.Ripe w.budget → c.Ripe w.budget) : w.Rests w' where
  length_le := Nat.le_of_eq hlen.symm
  ripe ht hc' hr := ⟨_, List.getElem?_eq_getElem ht,
    h _ _ _ (List.getElem?_eq_getElem ht) hc' (hb ▸ hr)⟩

theorem not_ripe_drop {c : Cell} {b : Budget} : ¬c.drop.Ripe b := by
  simp [Cell.ripe_iff, Cell.drop]

theorem Step.rests (h : Step env w w') : w.Rests w' := by
  cases h with
  | issue reads mk _ _ => exact .append rfl rfl
  | take name payload received _ => exact .append rfl rfl
  | wait name _ => exact .append rfl rfl
  | poll t c c' r b hc hp =>
    obtain ⟨hripe, hb⟩ := Cell.not_ripe_of_poll hp
    refine ⟨by simp, fun {u c₁} hu hc₁ hr => ?_⟩
    by_cases ht : t = u
    · subst ht
      simp only [List.getElem?_set_self hu, Option.some.injEq] at hc₁
      exact absurd (hc₁ ▸ hr) hripe
    · rw [List.getElem?_set_ne ht] at hc₁
      exact ⟨c₁, hc₁, hr.of_budget hb⟩
  | drop t =>
    refine .of_cells (by simp [dropTask]) rfl fun u c c' hc hc' hr => ?_
    by_cases ht : t = u
    · subst ht
      simp only [dropTask, List.getElem?_modify_eq, hc, Option.map_eq_map, Option.map_some,
        Option.some.injEq] at hc'
      exact absurd (hc' ▸ hr) not_ripe_drop
    · have he : c = c' := by simpa [dropTask, ht, hc] using hc'
      exact he ▸ hr

theorem Steps.rests (h : Steps env w w') : w.Rests w' := by
  induction h with
  | refl => exact .refl w
  | tail _ hs ih => exact ih.trans hs.rests

end World

theorem unwoken (env : Env) : Unwoken (handle env) World.Rests where
  refl := .refl
  trans := .trans
  step o w r w' h := (handle_step env o w r w' h).rests

/-- A future that does no more until the executor gives it a value. -/
abbrev TaskFuture.WakeDriven {α : Type} (env : Env) (f : TaskFuture α) : Prop :=
  Future.WakeDriven (handle env) World.Rests World.octx f

section Await

variable {A R : Type} {env : Env} {encode : Encoder A} {decode : Decoder R} {t : TaskRef}
  {w w' : World}

/-- An await that is suspended found its task pending. -/
theorem awaitTask_suspended {st : Option TaskRef}
    (h : (awaitTask decode t).run (handle env) w = .ok (.suspended st, w')) :
    st = some t ∧ w.pollTask t = .ok (.pending, w') := by
  unfold awaitTask at h
  rcases hp : w.pollTask t with e | ⟨v | _, w₁⟩
  · rw [Prog.run_step_error (show handle env (.poll t) w = .error e from hp)] at h
    cases h
  · rw [Prog.run_step_ok (show handle env (.poll t) w = .ok (.ready v, w₁) from hp)] at h
    simp only [Prog.run_bind] at h
    cases hd : decode v <;> simp [decodeOutput, hd, panicWith, Prog.run, handle] at h
  · rw [Prog.run_step_ok (show handle env (.poll t) w = .ok (.pending, w₁) from hp)] at h
    cases h
    exact ⟨rfl, rfl⟩

/-- An await of a task that is not ripe fails, or is pending again. -/
theorem awaitTask_idle {c : Cell} (hc : w.cells[t]? = some c) (hr : ¬c.Ripe w.budget) :
    (∃ e, (awaitTask decode t).run (handle env) w = .error e) ∨
      ∃ w', (awaitTask decode t).run (handle env) w = .ok (.suspended (some t), w') ∧
        w'.octx = w.octx := by
  unfold awaitTask
  rcases hp : w.pollTask t with e | ⟨v | _, w₁⟩
  · exact .inl ⟨e, Prog.run_step_error (show handle env (.poll t) w = .error e from hp)⟩
  · simp only [World.pollTask, hc] at hp
    rcases hcp : c.poll w.budget with e | ⟨r, c', b'⟩ <;> rw [hcp] at hp <;> cases hp
    exact absurd ⟨v, c', b', hcp⟩ hr
  · have hstep : handle env (.poll t) w = .ok (.pending, w₁) := hp
    refine .inr ⟨w₁, Prog.run_step_ok hstep, ?_⟩
    simp only [World.pollTask, hc] at hp
    rcases hcp : c.poll w.budget with e | ⟨r, c', b'⟩ <;> rw [hcp] at hp <;> cases hp
    rfl

theorem World.pollTask_ok {r : Poll String} (h : w.pollTask t = .ok (r, w')) :
    ∃ c c' b, w.cells[t]? = some c ∧ c.poll w.budget = .ok (r, c', b) ∧
      w' = { w with cells := w.cells.set t c', budget := b } := by
  unfold pollTask at h
  split at h
  · cases h
  · rename_i c hc
    split at h
    · cases h
    · rename_i v c' b hp
      cases h
      exact ⟨c, c', b, hc, hp, rfl⟩

theorem awaitTask_wakeDriven {st : Option TaskRef}
    (h : (awaitTask decode t).run (handle env) w = .ok (.suspended st, w')) :
    ∃ t', st = some t' ∧ ∀ w₁, w'.Rests w₁ →
      (∃ e, (awaitTask decode t').run (handle env) w₁ = .error e) ∨
        ∃ w₂, (awaitTask decode t').run (handle env) w₁ = .ok (.suspended (some t'), w₂) ∧
          w₂.octx = w₁.octx := by
  obtain ⟨rfl, hp⟩ := awaitTask_suspended h
  obtain ⟨c, c', b, hc, hpoll, rfl⟩ := World.pollTask_ok hp
  have hlt := (List.getElem?_eq_some_iff.mp hc).1
  refine ⟨t, rfl, fun w₁ h₁ => ?_⟩
  have hlt₁ : t < w₁.cells.length := Nat.lt_of_lt_of_le (by simpa using hlt) h₁.length_le
  refine awaitTask_idle (List.getElem?_eq_getElem hlt₁) fun hr => ?_
  obtain ⟨c₁, hc₁, hr₁⟩ := h₁.ripe (by simpa using hlt) (List.getElem?_eq_getElem hlt₁) hr
  simp only [List.getElem?_set_self hlt, Option.some.injEq] at hc₁
  exact (Cell.not_ripe_of_poll hpoll).1 (hc₁ ▸ hr₁)

theorem taskCall_wakeDriven (create : OrchestratorProg TaskRef) (decode : Decoder R) :
    TaskFuture.WakeDriven env (taskCall create decode) := by
  have key {t : TaskRef} {w w' : World} {st : Option TaskRef}
      (h : (awaitTask decode t).run (handle env) w = .ok (.suspended st, w')) :
      Future.Idle (handle env) World.Rests World.octx (taskCall create decode) st w' := by
    obtain ⟨t', rfl, hi⟩ := awaitTask_wakeDriven h
    exact hi
  rintro (_ | t) w st w' h
  · simp only [taskCall, Prog.run_bind] at h
    rcases hr : create.run (handle env) w with e | ⟨t, w₁⟩ <;> rw [hr] at h
    · cases h
    · exact key h
  · exact key h

theorem callActivity_wakeDriven (typeName activityType : String) (input : A) :
    TaskFuture.WakeDriven env (callActivity encode decode typeName activityType input) :=
  taskCall_wakeDriven _ decode

theorem callSubOrchestrator_wakeDriven (typeName orchestratorType instanceId : String) (input : A) :
    TaskFuture.WakeDriven env
      (callSubOrchestrator encode decode typeName orchestratorType instanceId input) :=
  taskCall_wakeDriven _ decode

theorem awaitSignalEvent_wakeDriven (name : String) :
    TaskFuture.WakeDriven env (awaitSignalEvent decode name) :=
  taskCall_wakeDriven _ decode

theorem createTimer_wakeDriven (fireAfterMillis : ℕ) :
    TaskFuture.WakeDriven env (createTimer fireAfterMillis) :=
  (taskCall_wakeDriven _ _).map _

end Await

end DurableTask
