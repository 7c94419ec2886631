import DurableTask.Interaction.Prog
import Mathlib.Algebra.Group.Basic
import Mathlib.Data.Set.Lattice
import Mathlib.Order.CompletePartialOrder

/-! # Programs that own things

A logic for programs that take turns on one state. A program owns some of the
things in the state: it may change these and make new ones, and leaves all
others as they are. So what one program does to its own things is proved apart
from the others, and the frame rule puts the proofs together.
-/

namespace Interaction

/--
Who may do what to the things in the state of a handler, and what the operations have cost. A
program that fails may do so only in the way that is provided for.
-/
structure Regime {Op : Type} {Reply : Op → Type} {S ε : Type} (h : Handler Op Reply S ε)
    (X M : Type) where
  things : S → Set X
  Good : S → Prop
  Fails : ε → Prop
  /-- The turn of a program that does not own the thing leaves it as it is. -/
  Same : X → S → S → Prop
  /-- What may become of a thing between two turns of its owner. -/
  Next : X → S → S → Prop
  /-- Until something happens to it, the thing keeps its owner waiting. -/
  Stuck : X → S → Prop
  /-- Its owner has no more use for the thing. -/
  Done : X → S → Prop
  cost : S → M
  same_refl : ∀ x s, Same x s s
  same_trans : ∀ {x s₁ s₂ s₃}, Same x s₁ s₂ → Same x s₂ s₃ → Same x s₁ s₃
  next_of_same : ∀ {x s s'}, Same x s s' → Next x s s'
  stuck_of_same : ∀ {x s s'}, Stuck x s → Same x s s' → Stuck x s'
  done_of_same : ∀ {x s s'}, Done x s → Same x s s' → Done x s'

namespace Regime

variable {Op : Type} {Reply : Op → Type} {S ε X M : Type} {h : Handler Op Reply S ε}
  (ρ : Regime h X M)

/-- The turn of a program that owns the things of `T`. -/
structure Keeps (T : Set X) (s s' : S) : Prop where
  good : ρ.Good s'
  grows : ρ.things s ⊆ ρ.things s'
  same : ∀ x ∈ ρ.things s, x ∉ T → ρ.Same x s s'

variable {ρ} {T T' U : Set X} {s s' s'' : S} {α β : Type}

theorem Keeps.refl (hs : ρ.Good s) : ρ.Keeps T s s :=
  ⟨hs, fun _ hx => hx, fun x _ _ => ρ.same_refl x s⟩

theorem Keeps.trans (hk : ρ.Keeps T s s') (hT : ∀ x ∈ T', x ∈ T ∨ x ∉ ρ.things s)
    (hk' : ρ.Keeps T' s' s'') : ρ.Keeps T s s'' where
  good := hk'.good
  grows := hk.grows.trans hk'.grows
  same x hx hxT := by
    have hxT' : x ∉ T' := fun hx' => (hT x hx').elim hxT fun hn => hn hx
    exact ρ.same_trans (hk.same x hx hxT) (hk'.same x (hk.grows hx) hxT')

theorem Keeps.mono (hk : ρ.Keeps T s s') (hT : T ⊆ T') : ρ.Keeps T' s s' where
  good := hk.good
  grows := hk.grows
  same x hx hxT := hk.same x hx fun hx' => hxT (hT hx')

section Outcome

variable [AddCommMonoid M]

variable (ρ) in
/--
The outcome of a turn of a program that owns `T` and has spent `m` so far: a failure that is
provided for, or a result, with the things that are owned and what is spent by then. What is owned
no more is done.
-/
inductive Outcome (T : Set X) (m : M) (s : S) (Post : α → Set X → M → S → Prop) :
    Except ε (α × S) → Prop where
  | error {e : ε} (he : ρ.Fails e) : Outcome T m s Post (.error e)
  | ok {a : α} {s' : S} (T' : Set X) (m' : M) (hk : ρ.Keeps T s s')
      (hT : ∀ x ∈ T', x ∈ T ∨ x ∉ ρ.things s)
      (hd : ∀ x ∈ ρ.things s', (x ∈ ρ.things s → x ∈ T) → x ∉ T' → ρ.Done x s')
      (hc : ρ.cost s' = ρ.cost s + m') (hp : Post a T' (m + m') s') :
    Outcome T m s Post (.ok (a, s'))

variable {m m₂ : M} {P : α → Set X → M → S → Prop} {Q : β → Set X → M → S → Prop}

theorem Outcome.pure {a : α} (hs : ρ.Good s) (hp : P a T m s) :
    ρ.Outcome T m s P ((Prog.pure a : Prog Op Reply α).run h s) :=
  .ok T 0 (.refl hs) (fun _ hx => .inl hx) (fun _ hx hxT hx' => absurd (hxT hx) hx')
    (add_zero _).symm ((add_zero m).symm ▸ hp)

theorem Outcome.mono {P' : α → Set X → M → S → Prop} {r : Except ε (α × S)}
    (hr : ρ.Outcome T m s P r) (hP : ∀ a T' m' s', ρ.Good s' → P a T' m' s' → P' a T' m' s') :
    ρ.Outcome T m s P' r := by
  cases hr with
  | error he => exact .error he
  | ok T' m' hk hT hd hc hp => exact .ok T' m' hk hT hd hc (hP _ _ _ _ hk.good hp)

theorem Outcome.after {r : Except ε (α × S)} (T' : Set X) (m' : M) (hk : ρ.Keeps T s s')
    (hT : ∀ x ∈ T', x ∈ T ∨ x ∉ ρ.things s)
    (hd : ∀ x ∈ ρ.things s', (x ∈ ρ.things s → x ∈ T) → x ∉ T' → ρ.Done x s')
    (hc : ρ.cost s' = ρ.cost s + m') (hr : ρ.Outcome T' (m + m') s' P r) :
    ρ.Outcome T m s P r := by
  cases hr with
  | error he => exact .error he
  | ok T'' m'' hk' hT' hd' hc' hp =>
    refine .ok T'' (m' + m'') (hk.trans hT hk') (fun x hx => ?_) (fun x hx hxT hx'' => ?_) ?_ ?_
    · rcases hT' x hx with hx' | hx'
      · exact hT x hx'
      · exact .inr fun hs => hx' (hk.grows hs)
    · by_cases hxs : x ∈ ρ.things s' ∧ x ∉ T'
      · -- it was given up in the first part, and the second leaves it as it is
        exact ρ.done_of_same (hd x hxs.1 hxT hxs.2) (hk'.same x hxs.1 hxs.2)
      · exact hd' x hx (fun hx' => not_not.mp fun hn => hxs ⟨hx', hn⟩) hx''
    · rw [hc', hc, add_assoc]
    · rwa [← add_assoc]

theorem Outcome.bind {p : Prog Op Reply α} {k : α → Prog Op Reply β}
    (hp : ρ.Outcome T m s P (p.run h s))
    (hk : ∀ a T' m' s', ρ.Good s' → P a T' m' s' → ρ.Outcome T' m' s' Q ((k a).run h s')) :
    ρ.Outcome T m s Q ((p.bind k).run h s) := by
  rw [Prog.run_bind]
  generalize p.run h s = r at hp
  cases hp with
  | error he => exact .error he
  | ok T' m' hkeeps hT hd hc hpost =>
    exact .after T' m' hkeeps hT hd hc (hk _ _ _ _ hkeeps.good hpost)

theorem Outcome.frame {r : Except ε (α × S)} (m₂ : M) (hr : ρ.Outcome T m s P r)
    (hU : U ⊆ ρ.things s) (hd : Disjoint T U) : ρ.Outcome (T ∪ U) (m + m₂) s (fun a V n s' =>
      ∃ T' m', V = T' ∪ U ∧ n = m' + m₂ ∧ Disjoint T' U ∧ U ⊆ ρ.things s' ∧ P a T' m' s' ∧
        ∀ x ∈ U, ρ.Same x s s') r := by
  cases hr with
  | error he => exact .error he
  | ok T' m' hk hT hdone hc hp =>
    refine .ok (T' ∪ U) m' (hk.mono Set.subset_union_left) (fun x hx => ?_)
      (fun x hx hxTU hx' => ?_) hc
      ⟨T', m + m', rfl, add_right_comm m m₂ m', ?_, hU.trans hk.grows, hp, fun x hx => ?_⟩
    · rcases hx with hx | hx
      · exact (hT x hx).imp_left .inl
      · exact .inl (.inr hx)
    · rw [Set.mem_union, not_or] at hx'
      exact hdone x hx (fun hxs => (hxTU hxs).resolve_right hx'.2) hx'.1
    · refine Set.disjoint_left.mpr fun x hx hxU => ?_
      exact (hT x hx).elim (fun hxT => Set.disjoint_left.mp hd hxT hxU) fun hn => hn (hU hxU)
    · exact hk.same x (hU hx) fun hxT => Set.disjoint_left.mp hd hxT hx

/-- Two programs take their turns one after the other, and neither disturbs the other. -/
theorem Outcome.both {γ : Type} {m₁ : M} {T₂ : Set X} {R : γ → Set X → M → S → Prop}
    {p : Prog Op Reply α} {q : Prog Op Reply β} {k : α → β → Prog Op Reply γ}
    (hp : ρ.Outcome T m₁ s P (p.run h s)) (hT₂ : T₂ ⊆ ρ.things s) (hd : Disjoint T T₂)
    (hq : ∀ s', ρ.Good s' → (∀ x ∈ T₂, ρ.Same x s s') → ρ.Outcome T₂ m₂ s' Q (q.run h s'))
    (howns : ∀ {a T m s}, P a T m s → T ⊆ ρ.things s)
    (hsame : ∀ {a T m s s'}, P a T m s → (∀ x ∈ T, ρ.Same x s s') → ρ.Good s' → P a T m s')
    (hk : ∀ {a b T₁ T₂ m₁ m₂ s}, ρ.Good s → Disjoint T₁ T₂ → P a T₁ m₁ s → Q b T₂ m₂ s →
      ρ.Outcome (T₁ ∪ T₂) (m₁ + m₂) s R ((k a b).run h s)) :
    ρ.Outcome (T ∪ T₂) (m₁ + m₂) s R ((p.bind fun a => q.bind fun b => k a b).run h s) := by
  refine (hp.frame m₂ hT₂ hd).bind fun a V n s' hs' ha => ?_
  obtain ⟨T₁', m₁', rfl, rfl, hd', -, hP, hsame₂⟩ := ha
  have hnext := (hq s' hs' hsame₂).frame m₁' (howns hP) hd'.symm
  rw [Set.union_comm, add_comm m₂] at hnext
  refine hnext.bind fun b V n s'' hs'' hb => ?_
  obtain ⟨T₂', m₂', rfl, rfl, hd'', -, hQ, hsame₁⟩ := hb
  rw [Set.union_comm, add_comm m₂']
  exact hk hs'' hd''.symm (hsame hP hsame₁ hs'') hQ

end Outcome

end Regime

end Interaction
