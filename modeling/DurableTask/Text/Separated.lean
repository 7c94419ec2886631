import Mathlib.Data.List.Basic

/-! # Parts between separators

A separator that begins with a mark no part contains can be read back: where a
part ends is where the mark first occurs.
-/

namespace Text

variable {α : Type*} {c : α} {x y X Y : List α}

/-- The word is empty or begins with the mark. -/
def Marked (c : α) (X : List α) : Prop := X = [] ∨ ∃ Y, X = c :: Y

theorem Marked.nil : Marked c [] := .inl rfl

theorem Marked.cons (X : List α) : Marked c (c :: X) := .inr ⟨X, rfl⟩

theorem append_inj_of_marked (hx : c ∉ x) (hy : c ∉ y) (hX : Marked c X) (hY : Marked c Y)
    (h : x ++ X = y ++ Y) : x = y ∧ X = Y := by
  induction x generalizing y with
  | nil =>
    cases y with
    | nil => exact ⟨rfl, h⟩
    | cons b y =>
      obtain rfl | ⟨X, rfl⟩ := hX
      · cases h
      · obtain ⟨rfl, -⟩ := List.cons.inj h
        exact absurd List.mem_cons_self hy
  | cons a x ih =>
    cases y with
    | nil =>
      obtain rfl | ⟨Y, rfl⟩ := hY
      · cases h
      · obtain ⟨rfl, -⟩ := List.cons.inj h
        exact absurd List.mem_cons_self hx
    | cons b y =>
      obtain ⟨rfl, htail⟩ := List.cons.inj h
      obtain ⟨rfl, hXY⟩ := ih (fun hc => hx (List.mem_cons_of_mem _ hc))
        (fun hc => hy (List.mem_cons_of_mem _ hc)) htail
      exact ⟨rfl, hXY⟩

theorem marked_flatMap (sep : List α) (parts : List (List α)) :
    Marked c (parts.flatMap (c :: sep ++ ·)) := by
  cases parts with
  | nil => exact .nil
  | cons x parts => exact .cons _

theorem flatMap_separator_inj {sep : List α} : ∀ {parts parts' : List (List α)},
    (∀ x ∈ parts, c ∉ sep ++ x) → (∀ x ∈ parts', c ∉ sep ++ x) →
      parts.flatMap (c :: sep ++ ·) = parts'.flatMap (c :: sep ++ ·) → parts = parts'
  | [], [], _, _, _ => rfl
  | [], _ :: _, _, _, h => by simp at h
  | _ :: _, [], _, _, h => by simp at h
  | x :: parts, y :: parts', hx, hy, h => by
    obtain ⟨hxy, htail⟩ := append_inj_of_marked (hx x List.mem_cons_self)
      (hy y List.mem_cons_self) (marked_flatMap sep parts) (marked_flatMap sep parts')
      (by simpa using h)
    obtain rfl := List.append_cancel_left hxy
    have hparts := flatMap_separator_inj (fun z hz => hx z (List.mem_cons_of_mem _ hz))
      (fun z hz => hy z (List.mem_cons_of_mem _ hz)) htail
    exact congrArg (x :: ·) hparts

def separated (sep : List α) : List (List α) → List α
  | [] => []
  | x :: parts => x ++ parts.flatMap (sep ++ ·)

/-- Parts that are not empty and do not contain the mark are read back from their word. -/
theorem separated_inj {sep : List α} {parts parts' : List (List α)} (hsep : c ∉ sep)
    (hparts : ∀ x ∈ parts, x ≠ [] ∧ c ∉ x) (hparts' : ∀ x ∈ parts', x ≠ [] ∧ c ∉ x)
    (h : separated (c :: sep) parts = separated (c :: sep) parts') : parts = parts' := by
  have hfree {l : List (List α)} (hl : ∀ x ∈ l, x ≠ [] ∧ c ∉ x) (x : List α) (hx : x ∈ l) :
      c ∉ sep ++ x := by
    rintro hc
    obtain hc | hc := List.mem_append.mp hc
    · exact hsep hc
    · exact (hl x hx).2 hc
  cases parts with
  | nil =>
    cases parts' with
    | nil => rfl
    | cons y parts' =>
      exact absurd (List.append_eq_nil_iff.mp h.symm).1 (hparts' y List.mem_cons_self).1
  | cons x parts =>
    cases parts' with
    | nil => exact absurd (List.append_eq_nil_iff.mp h).1 (hparts x List.mem_cons_self).1
    | cons y parts' =>
      obtain ⟨rfl, htail⟩ := append_inj_of_marked (hparts x List.mem_cons_self).2
        (hparts' y List.mem_cons_self).2 (marked_flatMap sep parts)
        (marked_flatMap sep parts') h
      have hrest := flatMap_separator_inj
        (fun z hz => hfree hparts z (List.mem_cons_of_mem _ hz))
        (fun z hz => hfree hparts' z (List.mem_cons_of_mem _ hz)) htail
      exact congrArg (x :: ·) hrest

end Text
