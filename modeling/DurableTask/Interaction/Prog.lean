import Mathlib.Logic.Basic

/-! # Interaction programs

A program issues operations of a signature and continues with their replies.
A handler gives the operations their meaning on a state and may fail. The rules
below lift facts about single operations to whole runs: preservation of an
invariant, where a failure can come from, and simulation between two handlers.
-/

namespace Interaction

universe u v w

/-- A finite program that issues operations and continues with their replies. -/
inductive Prog (Op : Type u) (Reply : Op → Type v) (α : Type w) where
  | pure (a : α)
  | step (o : Op) (k : Reply o → Prog Op Reply α)

/-- The meaning of each operation on a state, with failures. -/
abbrev Handler (Op : Type u) (Reply : Op → Type v) (S : Type w) (ε : Type*) :=
  (o : Op) → S → Except ε (Reply o × S)

namespace Prog

section Monad

variable {Op : Type u} {Reply : Op → Type v} {α β : Type w}

def bind : Prog Op Reply α → (α → Prog Op Reply β) → Prog Op Reply β
  | .pure a, f => f a
  | .step o k, f => .step o fun r => (k r).bind f

instance : Monad (Prog Op Reply) where
  pure := .pure
  bind := bind

end Monad

variable {Op : Type u} {Reply : Op → Type v} {α β : Type w} {S T ε : Type*}
  {h : Handler Op Reply S ε} {g : Handler Op Reply T ε}

def run (h : Handler Op Reply S ε) : Prog Op Reply α → S → Except ε (α × S)
  | .pure a, s => .ok (a, s)
  | .step o k, s =>
    match h o s with
    | .ok (r, s') => (k r).run h s'
    | .error e => .error e

@[simp] theorem run_pure (a : α) (s : S) :
    (Prog.pure a : Prog Op Reply α).run h s = .ok (a, s) := rfl

theorem run_step_ok {o : Op} {k : Reply o → Prog Op Reply α} {s s' : S} {r : Reply o}
    (ho : h o s = .ok (r, s')) : (Prog.step o k).run h s = (k r).run h s' := by
  simp only [run, ho]

theorem run_step_error {o : Op} {k : Reply o → Prog Op Reply α} {s : S} {e : ε}
    (ho : h o s = .error e) : (Prog.step o k).run h s = .error e := by
  simp only [run, ho]

theorem run_step_pure (o : Op) (s : S) :
    (Prog.step o .pure : Prog Op Reply (Reply o)).run h s = h o s := by
  simp only [run]
  cases h o s <;> rfl

theorem run_bind (m : Prog Op Reply α) (f : α → Prog Op Reply β) (s : S) :
    (m.bind f).run h s = match m.run h s with
      | .ok (a, s') => (f a).run h s'
      | .error e => .error e := by
  induction m generalizing s with
  | pure a => rfl
  | step o k ih =>
    cases ho : h o s with
    | error e => simp only [bind, run, ho]
    | ok p => simp only [bind, run, ho, ih]

theorem run_bind_ok {m : Prog Op Reply α} {f : α → Prog Op Reply β} {s s' : S} {a : α}
    (hm : m.run h s = .ok (a, s')) : (m.bind f).run h s = (f a).run h s' := by
  rw [run_bind, hm]

theorem run_preserves {I : S → Prop}
    (hI : ∀ o s r s', I s → h o s = .ok (r, s') → I s') {m : Prog Op Reply α} {s s' : S} {a : α}
    (hs : I s) (hm : m.run h s = .ok (a, s')) : I s' := by
  induction m generalizing s with
  | pure b =>
    cases hm
    exact hs
  | step o k ih =>
    cases ho : h o s with
    | error e => rw [run_step_error ho] at hm; cases hm
    | ok p =>
      rw [run_step_ok ho] at hm
      exact ih p.1 (hI o s p.1 p.2 hs ho) hm

/-- The run of a program comes to an operation, in a state. -/
inductive Reaches (h : Handler Op Reply S ε) : Prog Op Reply α → S → Op → S → Prop where
  | here (o : Op) (k : Reply o → Prog Op Reply α) (s : S) : Reaches h (.step o k) s o s
  | next {o o' : Op} {k : Reply o → Prog Op Reply α} {s s₁ s' : S} {r : Reply o}
      (ho : h o s = .ok (r, s₁)) (hk : Reaches h (k r) s₁ o' s') : Reaches h (.step o k) s o' s'

theorem Reaches.preserves {I : S → Prop} (hI : ∀ o s r s', I s → h o s = .ok (r, s') → I s')
    {m : Prog Op Reply α} {o : Op} {s s' : S} (hm : m.Reaches h s o s') (hs : I s) : I s' := by
  induction hm with
  | here o k s => exact hs
  | next ho _ ih => exact ih (hI _ _ _ _ hs ho)

/-- A run that fails does so at an operation that it comes to. -/
theorem run_error {m : Prog Op Reply α} {s : S} {e : ε} (hm : m.run h s = .error e) :
    ∃ o s', m.Reaches h s o s' ∧ h o s' = .error e := by
  induction m generalizing s with
  | pure b => cases hm
  | step o k ih =>
    cases ho : h o s with
    | error e' =>
      rw [run_step_error ho] at hm
      cases hm
      exact ⟨o, s, .here o k s, ho⟩
    | ok p =>
      rw [run_step_ok ho] at hm
      obtain ⟨o', s', hr, he⟩ := ih p.1 hm
      exact ⟨o', s', .next ho hr, he⟩

end Prog

/-- Two results agree: the same failure, or related values. -/
inductive Agree {α β ε : Type*} (R : α → β → Prop) : Except ε α → Except ε β → Prop where
  | ok {a : α} {b : β} : R a b → Agree R (.ok a) (.ok b)
  | error (e : ε) : Agree R (.error e) (.error e)

namespace Agree

variable {α β ε : Type*} {R : α → β → Prop} {x : Except ε α} {y : Except ε β}

theorem exists_ok {a : α} (h : Agree R x y) (hx : x = .ok a) : ∃ b, y = .ok b ∧ R a b := by
  cases h with
  | ok hR => cases hx; exact ⟨_, rfl, hR⟩
  | error e => cases hx

theorem meet {γ : Type*} {S : γ → β → Prop} {z : Except ε γ} (h : Agree R x y)
    (h' : Agree S z y) : Agree (fun a c => ∃ b, R a b ∧ S c b) x z := by
  cases h with
  | ok hR =>
    cases h' with
    | ok hS => exact .ok ⟨_, hR, hS⟩
  | error e =>
    cases h' with
    | error _ => exact .error e

theorem map {γ δ : Type*} {f : α → γ} {g : β → δ} {S : γ → δ → Prop} (h : Agree R x y)
    (hfg : ∀ a b, R a b → S (f a) (g b)) : Agree S (x.map f) (y.map g) := by
  cases h with
  | ok h => exact .ok (hfg _ _ h)
  | error e => exact .error e

end Agree

/-- The same value, in related states. -/
def SameValue {S T α : Type*} (R : S → T → Prop) (p : α × S) (q : α × T) : Prop :=
  p.1 = q.1 ∧ R p.2 q.2

/-- Handlers that agree on every operation agree on every program. -/
theorem Prog.run_agree {Op : Type u} {Reply : Op → Type v} {α : Type w} {S T ε : Type*}
    {h : Handler Op Reply S ε} {g : Handler Op Reply T ε} {R : S → T → Prop}
    (hR : ∀ o s t, R s t → Agree (SameValue R) (h o s) (g o t)) (m : Prog Op Reply α)
    {s : S} {t : T} (hs : R s t) : Agree (SameValue R) (m.run h s) (m.run g t) := by
  induction m generalizing s t with
  | pure a => exact .ok ⟨rfl, hs⟩
  | step o k ih =>
    have ho := hR o s t hs
    simp only [run]
    generalize h o s = x at ho ⊢
    generalize g o t = y at ho ⊢
    cases ho with
    | @ok p q hpq =>
      obtain ⟨r, s'⟩ := p
      obtain ⟨r', t'⟩ := q
      obtain ⟨rfl, hst⟩ := hpq
      exact ih _ hst
    | error e => exact .error e

end Interaction
