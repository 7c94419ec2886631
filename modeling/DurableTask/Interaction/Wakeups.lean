import DurableTask.Interaction.Future

/-! # Futures that wait to be woken

A future is wake-driven if a poll that suspends it has nothing left to do: until
something wakes it, every further poll is pending and changes nothing that can
be observed, or fails. The rules lift the property from the parts of a future
to the whole.
-/

namespace Interaction

/-- What can happen to the state of a handler without waking a future. -/
structure Unwoken {Op : Type} {Reply : Op → Type} {S ε : Type} (h : Handler Op Reply S ε)
    (R : S → S → Prop) : Prop where
  refl : ∀ s, R s s
  trans : ∀ {s₁ s₂ s₃}, R s₁ s₂ → R s₂ s₃ → R s₁ s₃
  step : ∀ o s r s', h o s = .ok (r, s') → R s s'

theorem Unwoken.run {Op : Type} {Reply : Op → Type} {α S ε : Type} {h : Handler Op Reply S ε}
    {R : S → S → Prop} (hR : Unwoken h R) {m : Prog Op Reply α} {s s' : S} {a : α}
    (hm : m.run h s = .ok (a, s')) : R s s' :=
  Prog.run_preserves (h := h) (I := R s)
    (fun o s₁ r s₂ hs ho => hR.trans hs (hR.step o s₁ r s₂ ho)) (hR.refl s) hm

namespace Future

variable {Op : Type} {Reply : Op → Type} {α β S ε X : Type} (h : Handler Op Reply S ε)
  (R : S → S → Prop) (obs : S → X)

/-- Until it is woken, a poll fails, or is pending again and changes nothing observable. -/
def Idle (f : Future Op Reply α) (st : f.State) (s : S) : Prop :=
  ∀ s₁, R s s₁ → (∃ e, (f.poll st).run h s₁ = .error e) ∨
    ∃ s₂, (f.poll st).run h s₁ = .ok (.suspended st, s₂) ∧ obs s₂ = obs s₁

/-- A poll that suspends the future leaves it idle. -/
def WakeDriven (f : Future Op Reply α) : Prop :=
  ∀ st s st' s', (f.poll st).run h s = .ok (.suspended st', s') → f.Idle h R obs st' s'

variable {h R obs} {f : Future Op Reply α} {g : Future Op Reply β}

theorem Idle.mono (hR : Unwoken h R) {st : f.State} {s s' : S} (hs : R s s')
    (hi : f.Idle h R obs st s) : f.Idle h R obs st s' := fun s₁ h₁ => hi s₁ (hR.trans hs h₁)

theorem WakeDriven.ready (a : α) : (ready a : Future Op Reply α).WakeDriven h R obs := by
  intro st s st' s' hp
  cases hp

theorem WakeDriven.map (hf : f.WakeDriven h R obs) (k : α → β) :
    (f.map k).WakeDriven h R obs := by
  intro st s st' s' hp s₁ h₁
  rcases hf st s st' s' (run_map_suspended.mp hp) s₁ h₁ with ⟨e, he⟩ | ⟨s₂, h₂, ho⟩
  · refine .inl ⟨e, (run_map k).trans ?_⟩
    rw [he]
    rfl
  · exact .inr ⟨s₂, run_map_suspended.mpr h₂, ho⟩

/-- Awaiting one future after the other. -/
theorem WakeDriven.bind {k : α → Future Op Reply β} (hf : f.WakeDriven h R obs)
    (hk : ∀ a, (k a).WakeDriven h R obs) : (f.bind k).WakeDriven h R obs := by
  have second (a : α) (st : (k a).State) {s s' : S} {st' : (f.bind k).State}
      (hp : ((f.bind k).poll (.inr ⟨a, st⟩)).run h s = .ok (.suspended st', s')) :
      (f.bind k).Idle h R obs st' s' := by
    obtain ⟨st₁, rfl, hr⟩ := run_bind_inr_suspended.mp hp
    intro s₁ h₁
    rcases hk a st s st₁ s' hr s₁ h₁ with ⟨e, he⟩ | ⟨s₂, h₂, ho⟩
    · refine .inl ⟨e, ?_⟩
      rw [poll_bind_inr, Prog.run_bind, he]
    · exact .inr ⟨s₂, run_bind_inr_suspended.mpr ⟨st₁, rfl, h₂⟩, ho⟩
  rintro (st | ⟨a, st⟩) s st' s' hp
  · obtain ⟨st₁, rfl, hr⟩ | ⟨a, s₂, hr, hp⟩ := run_bind_inl_suspended.mp hp
    · intro s₁ h₁
      rcases hf st s st₁ s' hr s₁ h₁ with ⟨e, he⟩ | ⟨s₂, h₂, ho⟩
      · refine .inl ⟨e, ?_⟩
        simp only [Future.bind, Prog.run_bind, he]
      · exact .inr ⟨s₂, run_bind_suspended h₂, ho⟩
    · exact second a (k a).state hp
  · exact second a st hp

/-- A future that may be done is idle, or done. -/
def IdleMaybeDone (f : Future Op Reply α) (h : Handler Op Reply S ε) (R : S → S → Prop)
    (obs : S → X) (s : S) : f.State ⊕ α → Prop
  | .inl st => f.Idle h R obs st s
  | .inr _ => True

theorem WakeDriven.pollMaybeDone (hf : f.WakeDriven h R obs) {x x' : f.State ⊕ α} {s s' : S}
    (hp : (f.pollMaybeDone x).run h s = .ok (x', s')) : f.IdleMaybeDone h R obs s' x' := by
  obtain ⟨st, st₁, rfl, rfl, hr⟩ | ⟨a, rfl⟩ := run_pollMaybeDone_ok hp
  · exact hf st s st₁ s' hr
  · trivial

theorem IdleMaybeDone.poll {x : f.State ⊕ α} {s s₁ : S} (hi : f.IdleMaybeDone h R obs s x)
    (h₁ : R s s₁) : (∃ e, (f.pollMaybeDone x).run h s₁ = .error e) ∨
      ∃ s₂, (f.pollMaybeDone x).run h s₁ = .ok (x, s₂) ∧ obs s₂ = obs s₁ := by
  rcases x with st | a
  · rcases hi s₁ h₁ with ⟨e, he⟩ | ⟨s₂, h₂, ho⟩
    · refine .inl ⟨e, ?_⟩
      simp only [Future.pollMaybeDone, Prog.run_bind, he]
    · exact .inr ⟨s₂, run_pollMaybeDone_suspended h₂, ho⟩
  · exact .inr ⟨s₁, rfl, rfl⟩

theorem WakeDriven.join (hR : Unwoken h R) (hf : f.WakeDriven h R obs)
    (hg : g.WakeDriven h R obs) : (f.join g).WakeDriven h R obs := by
  rintro ⟨x, y⟩ s st' s' hp
  obtain ⟨x', y', s₁, hx, hy, rfl, hne⟩ := run_join_suspended.mp hp
  intro s₃ h₃
  rcases (hf.pollMaybeDone hx).poll (hR.trans (hR.run hy) h₃) with ⟨e, he⟩ | ⟨s₄, h₄, ho₄⟩
  · refine .inl ⟨e, ?_⟩
    simp only [Future.join, Prog.run_bind, he]
  rcases (hg.pollMaybeDone hy).poll (hR.trans h₃ (hR.run h₄)) with ⟨e, he⟩ | ⟨s₅, h₅, ho₅⟩
  · refine .inl ⟨e, ?_⟩
    simp only [Future.join, Prog.run_bind, h₄, he]
  · exact .inr ⟨s₅, run_join_suspended.mpr ⟨x', y', s₄, h₄, h₅, rfl, hne⟩, ho₅.trans ho₄⟩

end Future

end Interaction
