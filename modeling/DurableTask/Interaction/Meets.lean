import DurableTask.Interaction.JoinAll
import DurableTask.Interaction.Ownership
import Mathlib.Data.Fin.Tuple.Basic
import Mathlib.Data.Option.NAry

/-! # Futures that meet a specification

A specification relates what a future has spent to its value, if it is ready.
A future meets it if its polls have an invariant that others respect: what a
future owns changes between two polls only as it may. The rules derive that the
whole meets its specification from what its parts meet, also for parts that
are polled side by side.
-/

namespace Interaction

variable {Op : Type} {Reply : Op → Type} {α β S ε X M : Type} {h : Handler Op Reply S ε}

/-- What has been spent, and the value if there is one. -/
abbrev Spec (M α : Type) := M → Option α → Prop

/-- A future owns nothing more and is ready with a value, or all that it owns keeps it waiting. -/
def Regime.Polled {σ : Type} (ρ : Regime h X M) (Q : Spec M α)
    (I : σ → Set X → M → S → Prop) : Progress σ α → Set X → M → S → Prop
  | .suspended st, T, m, s => I st T m s ∧ Q m none ∧ ∀ x ∈ T, ρ.Stuck x s
  | .ready a, T, m, _ => T = ∅ ∧ Q m (some a)

namespace Future

variable [AddCommMonoid M] (ρ : Regime h X M)

/-- An invariant of the states of a future between its polls. -/
structure Invariant (f : Future Op Reply α) (Q : Spec M α) (I : f.State → Set X → M → S → Prop) :
    Prop where
  owns : ∀ {st T m s}, I st T m s → T ⊆ ρ.things s
  stable : ∀ {st T m s s'}, I st T m s → (∀ x ∈ T, ρ.Next x s s') → ρ.Good s' → I st T m s'
  poll : ∀ {st T m s}, I st T m s → ρ.Good s →
    ρ.Outcome T m s (ρ.Polled Q I) ((f.poll st).run h s)

/-- In the state, the future owns `T`, has spent `m` and goes on to meet the specification. -/
def Goes (f : Future Op Reply α) (Q : Spec M α) (st : f.State) (T : Set X) (m : M) (s : S) : Prop :=
  ∃ I, f.Invariant ρ Q I ∧ I st T m s

/-- The future meets the specification, wherever it is polled first. -/
def Meets (f : Future Op Reply α) (Q : Spec M α) : Prop :=
  ∀ s, ρ.Good s → f.Goes ρ Q f.state ∅ 0 s

variable {ρ} {f : Future Op Reply α} {Q : Spec M α} {st : f.State} {T : Set X} {m : M} {s s' : S}

theorem goes_invariant : f.Invariant ρ Q (f.Goes ρ Q) where
  owns := by
    rintro st T m s ⟨I, hI, hi⟩
    exact hI.owns hi
  stable := by
    rintro st T m s s' ⟨I, hI, hi⟩ hn hs
    exact ⟨I, hI, hI.stable hi hn hs⟩
  poll := by
    rintro st T m s ⟨I, hI, hi⟩ hs
    refine (hI.poll hi hs).mono fun p T' m' s' _ hp => ?_
    cases p with
    | suspended st' => exact hp.imp_left fun hi' => ⟨I, hI, hi'⟩
    | ready a => exact hp

theorem Goes.owns (hf : f.Goes ρ Q st T m s) : T ⊆ ρ.things s := goes_invariant.owns hf

theorem Goes.stable (hf : f.Goes ρ Q st T m s) (hn : ∀ x ∈ T, ρ.Next x s s') (hs : ρ.Good s') :
    f.Goes ρ Q st T m s' := goes_invariant.stable hf hn hs

theorem Goes.poll (hf : f.Goes ρ Q st T m s) (hs : ρ.Good s) :
    ρ.Outcome T m s (ρ.Polled Q (f.Goes ρ Q)) ((f.poll st).run h s) := goes_invariant.poll hf hs

theorem Goes.mono {Q' : Spec M α} (hf : f.Goes ρ Q st T m s) (hQ : ∀ m r, Q m r → Q' m r) :
    f.Goes ρ Q' st T m s := by
  refine ⟨f.Goes ρ Q, ⟨Goes.owns, Goes.stable, fun hi hs => ?_⟩, hf⟩
  refine (hi.poll hs).mono fun p T' m' s' _ hp => ?_
  cases p with
  | suspended st => exact ⟨hp.1, hQ _ _ hp.2.1, hp.2.2⟩
  | ready a => exact ⟨hp.1, hQ _ _ hp.2⟩

theorem Meets.mono {Q' : Spec M α} (hf : f.Meets ρ Q) (hQ : ∀ m r, Q m r → Q' m r) :
    f.Meets ρ Q' := fun s hs => (hf s hs).mono hQ

theorem Meets.ready {a : α} (hQ : Q 0 (some a)) :
    (ready a : Future Op Reply α).Meets ρ Q := by
  intro s _
  refine ⟨fun _ T m _ => T = ∅ ∧ m = 0, ⟨?_, ?_, ?_⟩, rfl, rfl⟩
  · rintro _ _ _ _ ⟨rfl, rfl⟩
    exact Set.empty_subset _
  · rintro _ _ _ _ _ ⟨rfl, rfl⟩ _ _
    exact ⟨rfl, rfl⟩
  · rintro _ _ _ s ⟨rfl, rfl⟩ hs
    exact .pure hs ⟨rfl, hQ⟩

theorem Meets.map {g : α → β} {Q' : Spec M β} (hf : f.Meets ρ Q)
    (hQ : ∀ m r, Q m r → Q' m (r.map g)) : (f.map g).Meets ρ Q' := by
  intro s hs
  refine ⟨f.Goes ρ Q, ⟨Goes.owns, Goes.stable, fun {st T m s} hi hs => ?_⟩, hf s hs⟩
  have hpoll : (f.map g).poll st = (f.poll st).bind fun p => .pure (p.map id g) := poll_map g st
  rw [hpoll]
  refine (Goes.poll hi hs).bind fun p T' m' s' hs' hp => .pure hs' ?_
  cases p with
  | suspended st => exact ⟨hp.1, hQ _ _ hp.2.1, hp.2.2⟩
  | ready a => exact ⟨hp.1, hQ _ _ hp.2⟩

section Bind

variable {k : α → Future Op Reply β} {Q' : Spec M β}

/-- A sequence goes on in its first part, or in its second with what the first has spent. -/
def BindGoes (ρ : Regime h X M) (f : Future Op Reply α) (k : α → Future Op Reply β)
    (Q : Spec M α) (Q' : Spec M β) : (f.bind k).State → Set X → M → S → Prop
  | .inl st, T, m, s => f.Goes ρ Q st T m s
  | .inr ⟨a, st⟩, T, m, s => ∃ m₁ m₂, m = m₁ + m₂ ∧
    (k a).Goes ρ (fun m' r => Q' (m₁ + m') r) st T m₂ s

theorem BindGoes.poll_second {a : α} {m₁ m₂ : M} {st : (k a).State}
    (hg : (k a).Goes ρ (fun m' r => Q' (m₁ + m') r) st T m₂ s) (hs : ρ.Good s) :
    ρ.Outcome T (m₁ + m₂) s (ρ.Polled Q' (BindGoes ρ f k Q Q'))
      (((f.bind k).poll (.inr ⟨a, st⟩)).run h s) := by
  rw [poll_bind_inr]
  have hframe := (hg.poll hs).frame m₁ (Set.empty_subset _) (Set.disjoint_empty T)
  rw [Set.union_empty, add_comm] at hframe
  refine hframe.bind fun p T' m' s' hs' hp => .pure hs' ?_
  obtain ⟨V, n, hV, hn, -, -, hp, -⟩ := hp
  rw [Set.union_empty] at hV
  subst hV hn
  rw [add_comm]
  cases p with
  | suspended st' => exact ⟨⟨m₁, n, rfl, hp.1⟩, hp.2⟩
  | ready b => exact hp

/-- Awaiting one future after the other. -/
theorem Meets.bind (hf : f.Meets ρ Q) (h0 : ∀ m, Q m none → Q' m none)
    (hk : ∀ m a, Q m (some a) → (k a).Meets ρ fun m' r => Q' (m + m') r) :
    (f.bind k).Meets ρ Q' := by
  intro s hs
  refine ⟨BindGoes ρ f k Q Q', ⟨?_, ?_, ?_⟩, hf s hs⟩
  · rintro (st | ⟨a, st⟩) T m s hi
    · exact Goes.owns hi
    · obtain ⟨m₁, m₂, -, hg⟩ := hi
      exact hg.owns
  · rintro (st | ⟨a, st⟩) T m s s' hi hn hs'
    · exact Goes.stable hi hn hs'
    · obtain ⟨m₁, m₂, rfl, hg⟩ := hi
      exact ⟨m₁, m₂, rfl, hg.stable hn hs'⟩
  · rintro (st | ⟨a, st⟩) T m s hi hs
    · refine (Goes.poll hi hs).bind fun p T' m' s' hs' hp => ?_
      cases p with
      | suspended st' => exact .pure hs' ⟨hp.1, h0 _ hp.2.1, hp.2.2⟩
      | ready a =>
        -- the second part starts with nothing of its own, in the same poll
        obtain ⟨rfl, hp⟩ := hp
        have hnext := BindGoes.poll_second (f := f) (Q := Q) (hk m' a hp s' hs') hs'
        rwa [add_zero] at hnext
    · obtain ⟨m₁, m₂, rfl, hg⟩ := hi
      exact BindGoes.poll_second hg hs

end Bind

section Join

/-- A future that may be done goes on, or owns nothing any more. -/
def GoesMaybeDone (ρ : Regime h X M) (f : Future Op Reply α) (Q : Spec M α) :
    f.State ⊕ α → Set X → M → S → Prop
  | .inl st, T, m, s => f.Goes ρ Q st T m s
  | .inr a, T, m, _ => T = ∅ ∧ Q m (some a)

/-- It was polled: it is done, or goes on when something happens to what it owns. -/
structure HeldUp (ρ : Regime h X M) (f : Future Op Reply α) (Q : Spec M α) (x : f.State ⊕ α)
    (T : Set X) (m : M) (s : S) : Prop where
  goes : f.GoesMaybeDone ρ Q x T m s
  spec : Q m x.getRight?
  stuck : ∀ i ∈ T, ρ.Stuck i s

variable {x : f.State ⊕ α}

theorem GoesMaybeDone.owns (hx : f.GoesMaybeDone ρ Q x T m s) : T ⊆ ρ.things s := by
  rcases x with st | a
  · exact Goes.owns hx
  · rw [hx.1]
    exact Set.empty_subset _

theorem GoesMaybeDone.stable (hx : f.GoesMaybeDone ρ Q x T m s) (hn : ∀ i ∈ T, ρ.Next i s s')
    (hs : ρ.Good s') : f.GoesMaybeDone ρ Q x T m s' := by
  rcases x with st | a
  · exact Goes.stable hx hn hs
  · exact hx

theorem HeldUp.same (hx : f.HeldUp ρ Q x T m s) (hn : ∀ i ∈ T, ρ.Same i s s') (hs : ρ.Good s') :
    f.HeldUp ρ Q x T m s' :=
  ⟨hx.goes.stable (fun i hi => ρ.next_of_same (hn i hi)) hs, hx.spec,
    fun i hi => ρ.stuck_of_same (hx.stuck i hi) (hn i hi)⟩

theorem GoesMaybeDone.poll (hx : f.GoesMaybeDone ρ Q x T m s) (hs : ρ.Good s) :
    ρ.Outcome T m s (f.HeldUp ρ Q) ((f.pollMaybeDone x).run h s) := by
  rcases x with st | a
  · refine (Goes.poll hx hs).bind fun p T' m' s' hs' hp => ?_
    cases p with
    | suspended st' => exact .pure hs' ⟨hp.1, hp.2.1, hp.2.2⟩
    | ready a =>
      obtain ⟨rfl, hp⟩ := hp
      exact .pure hs' ⟨⟨rfl, hp⟩, hp, fun i hi => hi.elim⟩
  · obtain ⟨rfl, hQ⟩ := hx
    exact .pure hs ⟨⟨rfl, hQ⟩, hQ, fun i hi => hi.elim⟩

variable {g : Future Op Reply β} {Q₂ : Spec M β} {Q' : Spec M (α × β)}

/-- Two futures side by side: what is owned and spent is divided between them. -/
def JoinGoes (ρ : Regime h X M) (f : Future Op Reply α) (g : Future Op Reply β) (Q : Spec M α)
    (Q₂ : Spec M β) (st : (f.join g).State) (T : Set X) (m : M) (s : S) : Prop :=
  (∀ a b, st ≠ (.inr a, .inr b)) ∧ ∃ T₁ T₂ m₁ m₂, T = T₁ ∪ T₂ ∧ m = m₁ + m₂ ∧ Disjoint T₁ T₂ ∧
    f.GoesMaybeDone ρ Q st.1 T₁ m₁ s ∧ g.GoesMaybeDone ρ Q₂ st.2 T₂ m₂ s

/-- Awaiting two futures at once. -/
theorem Meets.join (hf : f.Meets ρ Q) (hg : g.Meets ρ Q₂)
    (hQ : ∀ {m₁ m₂ r₁ r₂}, Q m₁ r₁ → Q₂ m₂ r₂ → Q' (m₁ + m₂) (Option.map₂ Prod.mk r₁ r₂)) :
    (f.join g).Meets ρ Q' := by
  intro s hs
  refine ⟨JoinGoes ρ f g Q Q₂, ⟨?_, ?_, ?_⟩, fun a b he => (by cases he), ∅, ∅, 0, 0,
    by simp, by simp, by simp, hf s hs, hg s hs⟩
  · rintro st T m s ⟨-, T₁, T₂, m₁, m₂, rfl, rfl, -, hx, hy⟩
    exact Set.union_subset hx.owns hy.owns
  · rintro st T m s s' ⟨hne, T₁, T₂, m₁, m₂, rfl, rfl, hd, hx, hy⟩ hn hs'
    exact ⟨hne, T₁, T₂, m₁, m₂, rfl, rfl, hd, hx.stable (fun i hi => hn i (.inl hi)) hs',
      hy.stable (fun i hi => hn i (.inr hi)) hs'⟩
  · rintro ⟨x, y⟩ T m s ⟨-, T₁, T₂, m₁, m₂, rfl, rfl, hd, hx, hy⟩ hs
    have hsecond (s' : S) (hs' : ρ.Good s') (hsame : ∀ i ∈ T₂, ρ.Same i s s') :
        ρ.Outcome T₂ m₂ s' (g.HeldUp ρ Q₂) ((g.pollMaybeDone y).run h s') :=
      (hy.stable (fun i hi => ρ.next_of_same (hsame i hi)) hs').poll hs'
    refine (hx.poll hs).both hy.owns hd hsecond (fun hx => hx.goes.owns) HeldUp.same ?_
    intro x' y' T₁ T₂ m₁ m₂ s hs hd hx hy
    have hspec := hQ hx.spec hy.spec
    have hstuck (i : X) (hi : i ∈ T₁ ∪ T₂) : ρ.Stuck i s := hi.elim (hx.stuck i) (hy.stuck i)
    have goes (hne : ∀ a b, (x', y') ≠ (.inr a, .inr b)) :
        JoinGoes ρ f g Q Q₂ (x', y') (T₁ ∪ T₂) (m₁ + m₂) s :=
      ⟨hne, T₁, T₂, m₁, m₂, rfl, rfl, hd, hx.goes, hy.goes⟩
    rcases x' with st₁ | a
    · exact .pure hs ⟨goes fun _ _ he => (by cases he), hspec, hstuck⟩
    · rcases y' with st₂ | b
      · exact .pure hs ⟨goes fun _ _ he => (by cases he), hspec, hstuck⟩
      · obtain ⟨⟨rfl, -⟩, -⟩ := hx
        obtain ⟨⟨rfl, -⟩, -⟩ := hy
        exact .pure hs ⟨Set.empty_union _, hspec⟩

end Join

section JoinAll

def allSpec : List (Spec M α) → Spec M (List α)
  | [], m, r => m = 0 ∧ r = some []
  | Q :: Qs, m, r => ∃ m₁ m₂ r₁ r₂, m = m₁ + m₂ ∧ r = Option.map₂ List.cons r₁ r₂ ∧ Q m₁ r₁ ∧
    allSpec Qs m₂ r₂

omit [AddCommMonoid M] in
theorem mapM_id_cons (r : Option α) (rs : List (Option α)) :
    (r :: rs).mapM id = Option.map₂ List.cons r (rs.mapM id) := by
  rw [List.mapM_cons]
  cases r with
  | none => rfl
  | some a => cases rs.mapM id <;> rfl

/-- What all have spent is the sum of what each has, and their values are a list. -/
theorem allSpec_ofFn {n : ℕ} {Qs : Fin n → Spec M α} {r : Option (List α)}
    (hr : allSpec (List.ofFn Qs) m r) : ∃ (ms : Fin n → M) (rs : Fin n → Option α),
      m = (List.ofFn ms).sum ∧ r = (List.ofFn rs).mapM id ∧ ∀ i, Qs i (ms i) (rs i) := by
  induction n generalizing m r with
  | zero =>
    rw [List.ofFn_zero] at hr
    refine ⟨Fin.elim0, Fin.elim0, ?_, ?_, fun i => i.elim0⟩
    · rw [List.ofFn_zero]
      exact hr.1
    · rw [List.ofFn_zero]
      exact hr.2
  | succ n ih =>
    rw [List.ofFn_succ] at hr
    obtain ⟨m₁, m₂, r₁, r₂, rfl, rfl, hQ, hQs⟩ := hr
    obtain ⟨ms, rs, rfl, rfl, hall⟩ := ih hQs
    refine ⟨Fin.cons m₁ ms, Fin.cons r₁ rs, ?_, ?_, Fin.cases hQ hall⟩
    · simp only [List.ofFn_succ, Fin.cons_zero, Fin.cons_succ, List.sum_cons]
    · simp only [List.ofFn_succ, Fin.cons_zero, Fin.cons_succ, mapM_id_cons]

/-- A list of futures, each with its specification. -/
abbrev Parts (Op : Type) (Reply : Op → Type) (M α : Type) := List (Future Op Reply α × Spec M α)

/-- Futures side by side: what is owned and spent is divided among them. -/
def GoesAll (ρ : Regime h X M) : (l : Parts Op Reply M α) → States (l.map Prod.fst) →
    Set X → M → S → Prop
  | [], _, T, m, _ => T = ∅ ∧ m = 0
  | p :: l, st, T, m, s => ∃ T₁ T₂ m₁ m₂, T = T₁ ∪ T₂ ∧ m = m₁ + m₂ ∧ Disjoint T₁ T₂ ∧
    p.1.GoesMaybeDone ρ p.2 st.1 T₁ m₁ s ∧ GoesAll ρ l st.2 T₂ m₂ s

/-- They were polled, and go on when something happens to what they own. -/
structure HeldUpAll (ρ : Regime h X M) (l : Parts Op Reply M α) (st : States (l.map Prod.fst))
    (T : Set X) (m : M) (s : S) : Prop where
  goes : GoesAll ρ l st T m s
  spec : allSpec (l.map Prod.snd) m (values _ st)
  stuck : ∀ i ∈ T, ρ.Stuck i s

variable {l : Parts Op Reply M α} {p : Future Op Reply α × Spec M α}

omit [AddCommMonoid M] in
theorem values_cons (x : p.1.State ⊕ α) (st : States (l.map Prod.fst)) :
    values ((p :: l).map Prod.fst) (.cons (f := p.1) x st) =
      Option.map₂ List.cons x.getRight? (values _ st) := by
  rcases x with st₁ | a
  · rfl
  · cases hv : values _ st with
    | none => exact values_cons_none hv
    | some as => exact values_cons_done hv

theorem GoesAll.owns {st : States (l.map Prod.fst)} (hl : GoesAll ρ l st T m s) :
    T ⊆ ρ.things s := by
  induction l generalizing T m with
  | nil =>
    rw [hl.1]
    exact Set.empty_subset _
  | cons p l ih =>
    obtain ⟨T₁, T₂, m₁, m₂, rfl, rfl, -, hx, hl⟩ := hl
    exact Set.union_subset hx.owns (ih hl)

theorem GoesAll.owns_nothing {st : States (l.map Prod.fst)} {as : List α}
    (hl : GoesAll ρ l st T m s) (hv : values _ st = some as) : T = ∅ := by
  induction l generalizing T m as with
  | nil => exact hl.1
  | cons p l ih =>
    obtain ⟨T₁, T₂, m₁, m₂, rfl, rfl, -, hx, hl⟩ := hl
    obtain ⟨a, as', ha, hrest, -⟩ :=
      Option.map₂_eq_some_iff.mp ((values_cons st.1 st.2).symm.trans hv)
    obtain ⟨x, rest⟩ := st
    rcases x with st₁ | b
    · cases ha
    · rw [hx.1, ih hl hrest, Set.empty_union]

theorem GoesAll.stable {st : States (l.map Prod.fst)} (hl : GoesAll ρ l st T m s)
    (hn : ∀ i ∈ T, ρ.Next i s s') (hs : ρ.Good s') : GoesAll ρ l st T m s' := by
  induction l generalizing T m with
  | nil => exact hl
  | cons p l ih =>
    obtain ⟨T₁, T₂, m₁, m₂, rfl, rfl, hd, hx, hl⟩ := hl
    exact ⟨T₁, T₂, m₁, m₂, rfl, rfl, hd, hx.stable (fun i hi => hn i (.inl hi)) hs,
      ih hl fun i hi => hn i (.inr hi)⟩

theorem GoesAll.poll {st : States (l.map Prod.fst)} (hl : GoesAll ρ l st T m s) (hs : ρ.Good s) :
    ρ.Outcome T m s (HeldUpAll ρ l) ((pollAll _ st).run h s) := by
  induction l generalizing T m s with
  | nil =>
    refine .pure hs ⟨hl, ⟨hl.2, rfl⟩, fun i hi => ?_⟩
    rw [hl.1] at hi
    exact hi.elim
  | cons p l ih =>
    obtain ⟨T₁, T₂, m₁, m₂, rfl, rfl, hd, hx, hl⟩ := hl
    have hrest (s' : S) (hs' : ρ.Good s') (hsame : ∀ i ∈ T₂, ρ.Same i s s') :
        ρ.Outcome T₂ m₂ s' (HeldUpAll ρ l) ((pollAll _ st.2).run h s') :=
      ih (GoesAll.stable hl (fun i hi => ρ.next_of_same (hsame i hi)) hs') hs'
    refine (hx.poll hs).both (GoesAll.owns hl) hd hrest (fun hx => hx.goes.owns) HeldUp.same ?_
    intro x' st' T₁ T₂ m₁ m₂ s hs hd hx hl
    refine .pure hs ⟨?_, ?_, fun i hi => hi.elim (hx.stuck i) (hl.stuck i)⟩
    · exact ⟨T₁, T₂, m₁, m₂, rfl, rfl, hd, hx.goes, hl.goes⟩
    · exact ⟨m₁, m₂, _, _, rfl, values_cons x' st', hx.spec, hl.spec⟩

theorem goesAll_initial (hl : ∀ p ∈ l, p.1.Meets ρ p.2) (hs : ρ.Good s) :
    GoesAll ρ l (initial _) ∅ 0 s := by
  induction l with
  | nil => exact ⟨rfl, rfl⟩
  | cons p l ih =>
    exact ⟨∅, ∅, 0, 0, by simp, by simp, by simp, hl p List.mem_cons_self s hs,
      ih fun q hq => hl q (List.mem_cons_of_mem p hq)⟩

theorem Meets.joinAll {Q' : Spec M (List α)} (hl : ∀ p ∈ l, p.1.Meets ρ p.2)
    (hQ : ∀ m r, allSpec (l.map Prod.snd) m r → Q' m r) :
    (Future.joinAll (l.map Prod.fst)).Meets ρ Q' := by
  intro s hs
  refine ⟨GoesAll ρ l, ⟨GoesAll.owns, GoesAll.stable, fun {st T m s} hi hs => ?_⟩,
    goesAll_initial hl hs⟩
  refine (GoesAll.poll hi hs).bind fun st' T' m' s' hs' hp => ?_
  have hspec := hQ m' _ hp.spec
  cases hv : values _ st' with
  | some as =>
    rw [hv] at hspec
    exact .pure hs' ⟨hp.goes.owns_nothing hv, hspec⟩
  | none =>
    rw [hv] at hspec
    exact .pure hs' ⟨hp.goes, hspec, hp.stuck⟩

end JoinAll

end Future

end Interaction
