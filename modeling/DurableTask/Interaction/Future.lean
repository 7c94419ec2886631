import DurableTask.Interaction.Prog

/-! # Poll-driven futures

A future is a state machine that is driven from outside: each poll runs a
program and either suspends in a new state or is ready with a value. What a
suspended future waits for is not recorded; it finds out when it is polled.
-/

namespace Interaction

universe u

/-- How a poll of a future ends. -/
inductive Progress (σ α : Type) where
  | suspended (s : σ)
  | ready (a : α)
  deriving DecidableEq, Repr

def Progress.map {σ τ α β : Type} (g : σ → τ) (h : α → β) : Progress σ α → Progress τ β
  | .suspended s => .suspended (g s)
  | .ready a => .ready (h a)

/-- A future: a state, and the program that one poll runs from it. -/
structure Future (Op : Type) (Reply : Op → Type) (α : Type) where
  State : Type
  state : State
  poll : State → Prog Op Reply (Progress State α)

namespace Future

variable {Op : Type} {Reply : Op → Type} {α β : Type}

def resume (f : Future Op Reply α) (s : f.State) : Future Op Reply α := { f with state := s }

def map (g : α → β) (f : Future Op Reply α) : Future Op Reply β where
  State := f.State
  state := f.state
  poll s := (f.poll s).bind fun
    | .suspended s' => .pure (.suspended s')
    | .ready a => .pure (.ready (g a))

def ready (a : α) : Future Op Reply α where
  State := Unit
  state := ()
  poll _ := .pure (.ready a)

def pending : Future Op Reply α where
  State := Unit
  state := ()
  poll _ := .pure (.suspended ())

def bind (f : Future Op Reply α) (g : α → Future Op Reply β) : Future Op Reply β where
  State := f.State ⊕ (a : α) × (g a).State
  state := .inl f.state
  poll
    | .inl s => (f.poll s).bind fun
      | .suspended s' => .pure (.suspended (.inl s'))
      | .ready a => ((g a).poll (g a).state).bind fun
        | .suspended s' => .pure (.suspended (.inr ⟨a, s'⟩))
        | .ready b => .pure (.ready b)
    | .inr ⟨a, s⟩ => ((g a).poll s).bind fun
      | .suspended s' => .pure (.suspended (.inr ⟨a, s'⟩))
      | .ready b => .pure (.ready b)

def pollMaybeDone (f : Future Op Reply α) : f.State ⊕ α → Prog Op Reply (f.State ⊕ α)
  | .inl s => (f.poll s).bind fun
    | .suspended s' => .pure (.inl s')
    | .ready a => .pure (.inr a)
  | .inr a => .pure (.inr a)

def join (f : Future Op Reply α) (g : Future Op Reply β) : Future Op Reply (α × β) where
  State := (f.State ⊕ α) × (g.State ⊕ β)
  state := (.inl f.state, .inl g.state)
  poll s := (f.pollMaybeDone s.1).bind fun x => (g.pollMaybeDone s.2).bind fun y =>
    match x, y with
    | .inr a, .inr b => .pure (.ready (a, b))
    | x, y => .pure (.suspended (x, y))

section Polls

variable {f : Future Op Reply α}

theorem poll_map (g : α → β) (s : f.State) :
    (f.map g).poll s = (f.poll s).bind fun p => .pure (p.map id g) := by
  simp only [map]
  congr 1
  funext p
  cases p <;> rfl

theorem poll_bind_inr {g : α → Future Op Reply β} (a : α) (s : (g a).State) :
    (f.bind g).poll (.inr ⟨a, s⟩) =
      ((g a).poll s).bind fun p => .pure (p.map (fun s' => .inr ⟨a, s'⟩) id) := by
  simp only [bind]
  congr 1
  funext p
  cases p <;> rfl

section Run

variable {S ε : Type} {h : Handler Op Reply S ε} {w w' : S} {g : α → Future Op Reply β}
  {s s' : f.State} {a : α}

theorem run_bind_suspended (hp : (f.poll s).run h w = .ok (.suspended s', w')) :
    ((f.bind g).poll (.inl s)).run h w = .ok (.suspended (.inl s'), w') := by
  simp only [bind, Prog.run_bind_ok hp, Prog.run_pure]

theorem run_bind_ready (hp : (f.poll s).run h w = .ok (.ready a, w')) :
    ((f.bind g).poll (.inl s)).run h w =
      ((f.bind g).poll (.inr ⟨a, (g a).state⟩)).run h w' := by
  simp only [bind, Prog.run_bind_ok hp]

theorem run_map (v : α → β) : ((f.map v).poll s).run h w =
    ((f.poll s).run h w).map (Prod.map (Progress.map id v) id) := by
  have hrun : ((f.poll s).bind fun p => .pure (p.map id v)).run h w =
      ((f.poll s).run h w).map (Prod.map (Progress.map id v) id) := by
    rw [Prog.run_bind]
    cases (f.poll s).run h w <;> rfl
  exact (congrArg (Prog.run h · w) (poll_map v s)).trans hrun

theorem run_map_suspended {v : α → β} : ((f.map v).poll s).run h w = .ok (.suspended s', w') ↔
    (f.poll s).run h w = .ok (.suspended s', w') := by
  rw [run_map]
  constructor
  · intro hp
    rcases hr : (f.poll s).run h w with e | ⟨s₁ | a, w₁⟩ <;> rw [hr] at hp <;> cases hp
    rfl
  · intro hp
    rw [hp]
    rfl

theorem run_bind_inl_suspended {st : (f.bind g).State} :
    ((f.bind g).poll (.inl s)).run h w = .ok (.suspended st, w') ↔
      (∃ s', st = .inl s' ∧ (f.poll s).run h w = .ok (.suspended s', w')) ∨
        ∃ a w₁, (f.poll s).run h w = .ok (.ready a, w₁) ∧
          ((f.bind g).poll (.inr ⟨a, (g a).state⟩)).run h w₁ = .ok (.suspended st, w') := by
  constructor
  · intro hp
    rcases hr : (f.poll s).run h w with e | ⟨s₁ | a, w₁⟩
    · simp only [bind, Prog.run_bind (m := f.poll s), hr] at hp
      cases hp
    · rw [run_bind_suspended hr] at hp
      cases hp
      exact .inl ⟨s₁, rfl, rfl⟩
    · rw [run_bind_ready hr] at hp
      exact .inr ⟨a, w₁, rfl, hp⟩
  · rintro (⟨s₁, rfl, hr⟩ | ⟨a, w₁, hr, hp⟩)
    · exact run_bind_suspended hr
    · rw [run_bind_ready hr]
      exact hp

theorem run_bind_inr_suspended {t : (g a).State} {st : (f.bind g).State} :
    ((f.bind g).poll (.inr ⟨a, t⟩)).run h w = .ok (.suspended st, w') ↔
      ∃ t', st = .inr ⟨a, t'⟩ ∧ ((g a).poll t).run h w = .ok (.suspended t', w') := by
  rw [poll_bind_inr, Prog.run_bind]
  constructor
  · intro hp
    rcases hr : ((g a).poll t).run h w with e | ⟨t₁ | b, w₁⟩ <;> rw [hr] at hp <;> cases hp
    exact ⟨t₁, rfl, rfl⟩
  · rintro ⟨t', rfl, hr⟩
    rw [hr]
    rfl

theorem run_pollMaybeDone_suspended (hp : (f.poll s).run h w = .ok (.suspended s', w')) :
    (f.pollMaybeDone (.inl s)).run h w = .ok (.inl s', w') := by
  simp only [pollMaybeDone, Prog.run_bind_ok hp, Prog.run_pure]

theorem run_pollMaybeDone_ok {x x' : f.State ⊕ α}
    (hp : (f.pollMaybeDone x).run h w = .ok (x', w')) :
    (∃ s s', x = .inl s ∧ x' = .inl s' ∧ (f.poll s).run h w = .ok (.suspended s', w')) ∨
      ∃ a, x' = .inr a := by
  rcases x with s | a
  · simp only [pollMaybeDone, Prog.run_bind] at hp
    rcases hr : (f.poll s).run h w with e | ⟨s₁ | a, w₁⟩ <;> rw [hr] at hp <;> cases hp
    · exact .inl ⟨s, s₁, rfl, rfl, hr⟩
    · exact .inr ⟨a, rfl⟩
  · cases hp
    exact .inr ⟨a, rfl⟩

/-- A join is suspended by a part that is not done. -/
theorem run_join_suspended {f' : Future Op Reply β} {x : f.State ⊕ α} {y : f'.State ⊕ β}
    {st : (f.join f').State} :
    ((f.join f').poll (x, y)).run h w = .ok (.suspended st, w') ↔
      ∃ x' y' w₁, (f.pollMaybeDone x).run h w = .ok (x', w₁) ∧
        (f'.pollMaybeDone y).run h w₁ = .ok (y', w') ∧ st = (x', y') ∧
          ∀ a b, ¬(x' = .inr a ∧ y' = .inr b) := by
  simp only [join, Prog.run_bind]
  constructor
  · intro hp
    rcases hx : (f.pollMaybeDone x).run h w with e | ⟨x', w₁⟩ <;> rw [hx] at hp
    · cases hp
    rcases hy : (f'.pollMaybeDone y).run h w₁ with e | ⟨y', w₂⟩ <;> simp only [hy] at hp
    · cases hp
    refine ⟨x', y', w₁, rfl, ?_⟩
    rcases x' with s₁ | a <;> rcases y' with s₂ | b <;> cases hp <;>
      exact ⟨hy, rfl, by simp⟩
  · rintro ⟨x', y', w₁, hx, hy, rfl, hne⟩
    rw [hx]
    dsimp only
    rw [hy]
    rcases x' with s₁ | a <;> rcases y' with s₂ | b
    · rfl
    · rfl
    · rfl
    · exact absurd ⟨rfl, rfl⟩ (hne a b)

end Run

end Polls

end Future

end Interaction
