import DurableTask.Interaction.Future

/-! # Futures that are never ready

A future is endless in a state if no poll from there on is ready, whatever the
operations of the program are answered. What awaits an endless future is endless
too, whatever comes before it and after it.
-/

namespace Interaction

variable {Op : Type} {Reply : Op → Type} {α β S ε : Type}

namespace Prog

/-- Every value that the program can come to satisfies the predicate. -/
def Yields (P : α → Prop) : Prog Op Reply α → Prop
  | .pure a => P a
  | .step _ k => ∀ r, (k r).Yields P

variable {P : α → Prop} {Q : β → Prop} {m : Prog Op Reply α} {k : α → Prog Op Reply β}

theorem yields_true (m : Prog Op Reply α) : m.Yields fun _ => True := by
  induction m with
  | pure a => trivial
  | step o k ih => exact ih

theorem Yields.mono {P' : α → Prop} (hm : m.Yields P) (hP : ∀ a, P a → P' a) : m.Yields P' := by
  induction m with
  | pure a => exact hP a hm
  | step o k ih => exact fun r => ih r (hm r)

theorem Yields.bind (hm : m.Yields P) (hk : ∀ a, P a → (k a).Yields Q) : (m.bind k).Yields Q := by
  induction m with
  | pure a => exact hk a hm
  | step o l ih => exact fun r => ih r (hm r)

theorem Yields.run {h : Handler Op Reply S ε} {s s' : S} {a : α} (hm : m.Yields P)
    (hrun : m.run h s = .ok (a, s')) : P a := by
  induction m generalizing s with
  | pure b =>
    cases hrun
    exact hm
  | step o l ih =>
    cases ho : h o s with
    | error e => rw [run_step_error ho] at hrun; cases hrun
    | ok p =>
      rw [run_step_ok ho] at hrun
      exact ih p.1 (hm p.1) hrun

end Prog

/-- The poll suspends the future in a state that satisfies the predicate. -/
def Progress.Suspends {σ : Type} (I : σ → Prop) : Progress σ α → Prop
  | .suspended s => I s
  | .ready _ => False

namespace Future

variable {f : Future Op Reply α} {g : Future Op Reply β} {k : α → Future Op Reply β}

/-- From this state on, no poll is ready. -/
def Endless (f : Future Op Reply α) (st : f.State) : Prop :=
  ∃ I : f.State → Prop, I st ∧ ∀ s, I s → (f.poll s).Yields (Progress.Suspends I)

theorem Endless.poll {st : f.State} (h : f.Endless st) :
    (f.poll st).Yields (Progress.Suspends f.Endless) := by
  obtain ⟨I, hi, hI⟩ := h
  refine (hI st hi).mono fun p hp => ?_
  cases p with
  | suspended s => exact ⟨I, hp, hI⟩
  | ready a => exact hp

theorem endless_pending : (pending : Future Op Reply α).Endless () :=
  ⟨fun _ => True, trivial, fun _ _ => trivial⟩

theorem Endless.bind {st : f.State} (h : f.Endless st) : (f.bind k).Endless (.inl st) := by
  refine ⟨fun s => ∃ s', s = .inl s' ∧ f.Endless s', ⟨st, rfl, h⟩, ?_⟩
  rintro _ ⟨s, rfl, hs⟩
  refine hs.poll.bind fun p hp => ?_
  cases p with
  | suspended s' => exact ⟨s', rfl, hp⟩
  | ready a => exact hp.elim

/-- A sequence whose second part is endless, in its first part or in its second. -/
def EndsIn (f : Future Op Reply α) (k : α → Future Op Reply β) : (f.bind k).State → Prop
  | .inl _ => True
  | .inr ⟨a, s⟩ => (k a).Endless s

/-- A sequence is endless if its second part is, whatever the first part comes to. -/
theorem endless_bind (hk : ∀ a, (k a).Endless (k a).state) (st : f.State) :
    (f.bind k).Endless (.inl st) := by
  refine ⟨EndsIn f k, trivial, ?_⟩
  -- the second part is polled in a state of its own
  have second {a : α} {s : (k a).State} (hs : (k a).Endless s) :
      ((f.bind k).poll (.inr ⟨a, s⟩)).Yields (Progress.Suspends (EndsIn f k)) := by
    refine hs.poll.bind fun p hp => ?_
    cases p with
    | suspended s' => exact hp
    | ready b => exact hp.elim
  rintro (s | ⟨a, s⟩) hs
  · refine (Prog.yields_true (f.poll s)).bind fun p _ => ?_
    cases p with
    | suspended s' => trivial
    | ready a => exact second (hk a)
  · exact second hs

theorem Endless.map {st : f.State} (h : f.Endless st) (v : α → β) : (f.map v).Endless st := by
  refine ⟨f.Endless, h, fun s hs => hs.poll.bind fun p hp => ?_⟩
  cases p with
  | suspended s' => exact hp
  | ready a => exact hp.elim

end Future

end Interaction
