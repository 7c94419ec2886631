import Mathlib.Data.List.AList

/-! # Maps of queues

A map from keys to queues in which a key is entered with its first element and
removed with its last. Looking a key up as a queue forgets whether an empty
queue is entered or absent.
-/

namespace Queues

variable {K α : Type*} [DecidableEq K]

/-- A finite map from keys to queues. -/
abbrev Keyed (K α : Type*) [DecidableEq K] := AList fun _ : K => List α

namespace Keyed

def get (qs : Keyed K α) (k : K) : List α := (qs.lookup k).getD []

def push (qs : Keyed K α) (k : K) (a : α) : Keyed K α := qs.insert k (qs.get k ++ [a])

/-- Take the front off the queue `q` of a key; the key goes with the last element. -/
def pop (qs : Keyed K α) (k : K) (q : List α) : Keyed K α :=
  if q.length > 1 then qs.insert k q.tail else qs.erase k

variable {qs : Keyed K α} {k j : K} {a : α} {q : List α}

@[simp] theorem get_empty : get (∅ : Keyed K α) k = [] := by simp [get]

theorem get_of_lookup (h : qs.lookup k = some q) : qs.get k = q := by simp [get, h]

theorem get_of_lookup_none (h : qs.lookup k = none) : qs.get k = [] := by simp [get, h]

@[simp] theorem get_push : (qs.push k a).get k = qs.get k ++ [a] := by simp [push, get]

theorem get_push_ne (h : j ≠ k) : (qs.push k a).get j = qs.get j := by
  simp [push, get, AList.lookup_insert_ne h]

@[simp] theorem get_pop : (qs.pop k q).get k = q.tail := by
  unfold pop
  split
  · simp [get]
  · rename_i h
    have : q.tail = [] := List.length_eq_zero_iff.mp (by rw [List.length_tail]; omega)
    simp [get, this]

theorem get_pop_ne (h : j ≠ k) : (qs.pop k q).get j = qs.get j := by
  unfold pop
  split
  · simp [get, AList.lookup_insert_ne h]
  · simp [get, AList.lookup_erase_ne h]

/-- No queue that is entered is empty. -/
def Filled (qs : Keyed K α) : Prop := ∀ k, qs.lookup k ≠ some []

theorem filled_empty : Filled (∅ : Keyed K α) := by
  intro k h
  cases h

theorem Filled.push (h : qs.Filled) : (qs.push k a).Filled := by
  intro j hj
  by_cases hjk : j = k
  · subst hjk
    simp [Keyed.push] at hj
  · rw [Keyed.push, AList.lookup_insert_ne hjk] at hj
    exact h j hj

theorem Filled.pop (h : qs.Filled) : (qs.pop k q).Filled := by
  intro j hj
  unfold Keyed.pop at hj
  split at hj
  · rename_i hlen
    by_cases hjk : j = k
    · subst hjk
      rw [AList.lookup_insert, Option.some.injEq] at hj
      have htail := congrArg List.length hj
      rw [List.length_tail, List.length_nil] at htail
      omega
    · rw [AList.lookup_insert_ne hjk] at hj
      exact h j hj
  · by_cases hjk : j = k
    · subst hjk
      rw [AList.lookup_erase] at hj
      cases hj
    · rw [AList.lookup_erase_ne hjk] at hj
      exact h j hj

/-- Every key that is entered satisfies a predicate. -/
def Within (P : K → Prop) (qs : Keyed K α) : Prop := ∀ k q, qs.lookup k = some q → P k

variable {P Q : K → Prop}

theorem within_empty : Within P (∅ : Keyed K α) := by
  intro k q h
  cases h

theorem Within.mono (h : qs.Within P) (hPQ : ∀ k q, qs.lookup k = some q → P k → Q k) :
    qs.Within Q :=
  fun k q hq => hPQ k q hq (h k q hq)

theorem Within.push (h : qs.Within P) (hk : P k) : (qs.push k a).Within P := by
  intro j q hj
  by_cases hjk : j = k
  · exact hjk ▸ hk
  · rw [Keyed.push, AList.lookup_insert_ne hjk] at hj
    exact h j q hj

theorem Within.pop (h : qs.Within P) (hk : P k) : (qs.pop k q).Within P := by
  intro j r hj
  by_cases hjk : j = k
  · exact hjk ▸ hk
  · unfold Keyed.pop at hj
    split at hj
    · rw [AList.lookup_insert_ne hjk] at hj
      exact h j r hj
    · rw [AList.lookup_erase_ne hjk] at hj
      exact h j r hj

theorem lookup_push_none (h : qs.lookup j = none) (hjk : j ≠ k) :
    (qs.push k a).lookup j = none := by
  rw [push, AList.lookup_insert_ne hjk, h]

theorem lookup_pop_none (h : qs.lookup j = none) (hjk : j ≠ k) :
    (qs.pop k q).lookup j = none := by
  unfold pop
  split
  · rw [AList.lookup_insert_ne hjk, h]
  · rw [AList.lookup_erase_ne hjk, h]

end Keyed

end Queues
