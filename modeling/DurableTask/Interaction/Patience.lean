import DurableTask.Interaction.Future

/-! # Patient futures

A future is patient if a poll that suspends it leaves it waiting for things that
are stuck, and a poll while they are stuck changes nothing at all: neither the
future nor the state of the handler. The rules lift the property from the parts
of a future to the whole.
-/

namespace Interaction

variable {Op : Type} {Reply : Op → Type} {α β S ε X : Type}

/-- Every operation that the program can come to is permitted. -/
def Prog.All (P : Op → Prop) : Prog Op Reply α → Prop
  | .pure _ => True
  | .step o k => P o ∧ ∀ r, (k r).All P

namespace Prog.All

variable {P : Op → Prop} {m : Prog Op Reply α} {k : α → Prog Op Reply β}
  {h : Handler Op Reply S ε}

theorem step {o : Op} {l : Reply o → Prog Op Reply α} (ho : P o) (hl : ∀ r, (l r).All P) :
    (Prog.step o l).All P := ⟨ho, hl⟩

theorem bind (hm : m.All P) (hk : ∀ a, (k a).All P) : (m.bind k).All P := by
  induction m with
  | pure a => exact hk a
  | step o l ih => exact ⟨hm.1, fun r => ih r (hm.2 r)⟩

theorem run_preserves {I : S → Prop} (hI : ∀ o s r s', P o → I s → h o s = .ok (r, s') → I s')
    {s s' : S} {a : α} (hm : m.All P) (hs : I s) (hrun : m.run h s = .ok (a, s')) : I s' := by
  induction m generalizing s with
  | pure b =>
    cases hrun
    exact hs
  | step o l ih =>
    cases ho : h o s with
    | error e => rw [run_step_error ho] at hrun; cases hrun
    | ok p =>
      rw [run_step_ok ho] at hrun
      exact ih p.1 (hm.2 p.1) (hI o s p.1 p.2 hm.1 hs ho) hrun

end Prog.All

/-- What the permitted operations do not do: they spoil no state and free nothing that is stuck. -/
structure Undisturbing (h : Handler Op Reply S ε) (P : Op → Prop) (G : S → Prop)
    (Stuck : X → S → Prop) : Prop where
  good : ∀ o s r s', P o → G s → h o s = .ok (r, s') → G s'
  stuck : ∀ x o s r s', P o → Stuck x s → h o s = .ok (r, s') → Stuck x s'

theorem Undisturbing.run_good {h : Handler Op Reply S ε} {P : Op → Prop} {G : S → Prop}
    {Stuck : X → S → Prop} (hu : Undisturbing h P G Stuck) {m : Prog Op Reply α} {s s' : S} {a : α}
    (hm : m.All P) (hs : G s) (hrun : m.run h s = .ok (a, s')) : G s' :=
  hm.run_preserves hu.good hs hrun

theorem Undisturbing.run_stuck {h : Handler Op Reply S ε} {P : Op → Prop} {G : S → Prop}
    {Stuck : X → S → Prop} (hu : Undisturbing h P G Stuck) {m : Prog Op Reply α} {s s' : S} {a : α}
    {l : List X} (hm : m.All P) (hs : ∀ x ∈ l, Stuck x s) (hrun : m.run h s = .ok (a, s')) :
    ∀ x ∈ l, Stuck x s' :=
  fun x hx => hm.run_preserves (hu.stuck x) (hs x hx) hrun

namespace Future

variable (h : Handler Op Reply S ε) (P : Op → Prop) (G : S → Prop) (Stuck : X → S → Prop)

/-- While these things are stuck, a poll in this state changes nothing. -/
def ParkedOn (f : Future Op Reply α) (st : f.State) (l : List X) : Prop :=
  ∀ s, (∀ x ∈ l, Stuck x s) → (f.poll st).run h s = .ok (.suspended st, s)

/-- A poll that suspends the future in a state leaves it parked on things that are stuck. -/
def Parks (f : Future Op Reply α) (st : f.State) (s : S) : Prop :=
  ∃ l, (∀ x ∈ l, Stuck x s) ∧ f.ParkedOn h Stuck st l

/-- Each poll issues permitted operations only, and one that suspends the future parks it. -/
structure Patient (f : Future Op Reply α) : Prop where
  permitted : ∀ st, (f.poll st).All P
  parks : ∀ st s st' s', G s → (f.poll st).run h s = .ok (.suspended st', s') →
    f.Parks h Stuck st' s'

variable {h P G Stuck} {f : Future Op Reply α} {g : Future Op Reply β}

theorem Patient.resume (hf : f.Patient h P G Stuck) (st : f.State) :
    (f.resume st).Patient h P G Stuck := ⟨hf.permitted, hf.parks⟩

theorem Patient.ready (a : α) : (ready a : Future Op Reply α).Patient h P G Stuck := by
  refine ⟨fun _ => trivial, ?_⟩
  intro st s st' s' _ hp
  cases hp

theorem Patient.map (hf : f.Patient h P G Stuck) (k : α → β) : (f.map k).Patient h P G Stuck := by
  constructor
  · intro st
    refine (hf.permitted st).bind fun p => ?_
    cases p <;> trivial
  · intro st s st' s' hs hp
    obtain ⟨l, hl, hparked⟩ := hf.parks st s st' s' hs (run_map_suspended.mp hp)
    exact ⟨l, hl, fun s₁ h₁ => run_map_suspended.mpr (hparked s₁ h₁)⟩

/-- Awaiting one future after the other. -/
theorem Patient.bind (hu : Undisturbing h P G Stuck) {k : α → Future Op Reply β}
    (hf : f.Patient h P G Stuck) (hk : ∀ a, (k a).Patient h P G Stuck) :
    (f.bind k).Patient h P G Stuck := by
  have permitted (a : α) (st : (k a).State) : ((f.bind k).poll (.inr ⟨a, st⟩)).All P := by
    refine ((hk a).permitted st).bind fun p => ?_
    cases p <;> trivial
  have second (a : α) (st : (k a).State) {s s' : S} {st' : (f.bind k).State} (hs : G s)
      (hp : ((f.bind k).poll (.inr ⟨a, st⟩)).run h s = .ok (.suspended st', s')) :
      (f.bind k).Parks h Stuck st' s' := by
    obtain ⟨st₁, rfl, hr⟩ := run_bind_inr_suspended.mp hp
    obtain ⟨l, hl, hparked⟩ := (hk a).parks st s st₁ s' hs hr
    exact ⟨l, hl, fun s₁ h₁ => run_bind_inr_suspended.mpr ⟨st₁, rfl, hparked s₁ h₁⟩⟩
  constructor
  · rintro (st | ⟨a, st⟩)
    · refine (hf.permitted st).bind fun p => ?_
      rcases p with st' | a
      · trivial
      · exact permitted a (k a).state
    · exact permitted a st
  · rintro (st | ⟨a, st⟩) s st' s' hs hp
    · obtain ⟨st₁, rfl, hr⟩ | ⟨a, s₂, hr, hp⟩ := run_bind_inl_suspended.mp hp
      · obtain ⟨l, hl, hparked⟩ := hf.parks st s st₁ s' hs hr
        exact ⟨l, hl, fun s₁ h₁ => run_bind_suspended (hparked s₁ h₁)⟩
      · exact second a (k a).state (hu.run_good (hf.permitted st) hs hr) hp
    · exact second a st hs hp

/-- A future that may be done is parked, or done. -/
def ParksMaybeDone (f : Future Op Reply α) (h : Handler Op Reply S ε) (Stuck : X → S → Prop)
    (x : f.State ⊕ α) (s : S) : Prop :=
  ∃ l : List X, (∀ i ∈ l, Stuck i s) ∧
    ∀ s₁, (∀ i ∈ l, Stuck i s₁) → (f.pollMaybeDone x).run h s₁ = .ok (x, s₁)

theorem Patient.pollMaybeDone_permitted (hf : f.Patient h P G Stuck) (x : f.State ⊕ α) :
    (f.pollMaybeDone x).All P := by
  rcases x with st | a
  · refine (hf.permitted st).bind fun p => ?_
    cases p <;> trivial
  · trivial

theorem Patient.pollMaybeDone (hf : f.Patient h P G Stuck) {x x' : f.State ⊕ α} {s s' : S}
    (hs : G s) (hp : (f.pollMaybeDone x).run h s = .ok (x', s')) :
    f.ParksMaybeDone h Stuck x' s' := by
  obtain ⟨st, st₁, rfl, rfl, hr⟩ | ⟨a, rfl⟩ := run_pollMaybeDone_ok hp
  · obtain ⟨l, hl, hparked⟩ := hf.parks st s st₁ s' hs hr
    exact ⟨l, hl, fun s₁ h₁ => run_pollMaybeDone_suspended (hparked s₁ h₁)⟩
  · exact ⟨[], by simp, fun _ _ => rfl⟩

/-- Awaiting two futures at once: what the second does in its poll does not free the first. -/
theorem Patient.join (hu : Undisturbing h P G Stuck) (hf : f.Patient h P G Stuck)
    (hg : g.Patient h P G Stuck) : (f.join g).Patient h P G Stuck := by
  constructor
  · rintro ⟨x, y⟩
    refine (hf.pollMaybeDone_permitted x).bind fun x' =>
      (hg.pollMaybeDone_permitted y).bind fun y' => ?_
    rcases x' with st₁ | a <;> rcases y' with st₂ | b <;> trivial
  · rintro ⟨x, y⟩ s st' s' hs hp
    obtain ⟨x', y', s₁, hx, hy, rfl, hne⟩ := run_join_suspended.mp hp
    obtain ⟨l, hl, hparked⟩ := hf.pollMaybeDone hs hx
    obtain ⟨l', hl', hparked'⟩ :=
      hg.pollMaybeDone (hu.run_good (hf.pollMaybeDone_permitted x) hs hx) hy
    have hstuck := hu.run_stuck (hg.pollMaybeDone_permitted y) hl hy
    refine ⟨l ++ l', fun i hi => (List.mem_append.mp hi).elim (hstuck i) (hl' i), fun s₃ h₃ => ?_⟩
    exact run_join_suspended.mpr ⟨x', y', s₃,
      hparked s₃ fun i hi => h₃ i (List.mem_append_left _ hi),
      hparked' s₃ fun i hi => h₃ i (List.mem_append_right _ hi), rfl, hne⟩

end Future

end Interaction
