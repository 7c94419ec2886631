import Mathlib.Data.List.Basic

/-! # First-in first-out rendezvous

Requests and offers arrive in any interleaving and are paired in order of
arrival. Whichever side is ahead has its surplus queued: requests wait, offers
are stored. Both queues are functions of the two sequences alone, so the
pairing does not depend on the interleaving.
-/

namespace Queues

variable {α β : Type*}

/-- The queues that are left once requests and offers are paired in order of arrival. -/
structure Rendezvous (requests : List α) (offers : List β) (waiting : List α) (stored : List β) :
    Prop where
  waiting_eq : waiting = requests.drop offers.length
  stored_eq : stored = offers.drop requests.length

namespace Rendezvous

variable {requests waiting : List α} {offers stored : List β} {a : α} {b : β}

theorem nil : Rendezvous ([] : List α) ([] : List β) [] [] := ⟨rfl, rfl⟩

theorem request_wait (h : Rendezvous requests offers waiting []) :
    Rendezvous (requests ++ [a]) offers (waiting ++ [a]) [] := by
  have hle : offers.length ≤ requests.length := List.drop_eq_nil_iff.mp h.stored_eq.symm
  constructor
  · rw [h.waiting_eq, List.drop_append_of_le_length hle]
  · rw [List.drop_eq_nil_of_le (by simp; omega)]

theorem request_take (h : Rendezvous requests offers waiting (b :: stored)) :
    Rendezvous (requests ++ [a]) offers waiting stored ∧ waiting = [] ∧
      offers[requests.length]? = some b := by
  have hb : offers[requests.length]? = some b := by
    rw [← List.head?_drop, ← h.stored_eq]
    rfl
  have hlt : requests.length < offers.length := (List.getElem?_eq_some_iff.mp hb).1
  have hw : waiting = [] := by rw [h.waiting_eq, List.drop_eq_nil_of_le (Nat.le_of_lt hlt)]
  refine ⟨⟨?_, ?_⟩, hw, hb⟩
  · rw [hw, List.drop_eq_nil_of_le (by simp; omega)]
  · rw [List.length_append, List.length_singleton, ← List.drop_drop, ← h.stored_eq]
    rfl

theorem offer_store (h : Rendezvous requests offers [] stored) :
    Rendezvous requests (offers ++ [b]) [] (stored ++ [b]) := by
  have hle : requests.length ≤ offers.length := List.drop_eq_nil_iff.mp h.waiting_eq.symm
  constructor
  · rw [List.drop_eq_nil_of_le (by simp; omega)]
  · rw [h.stored_eq, List.drop_append_of_le_length hle]

/-- An offer that finds a request goes to the oldest one; it is the request of its own rank. -/
theorem offer_give (h : Rendezvous requests offers (a :: waiting) stored) :
    Rendezvous requests (offers ++ [b]) waiting stored ∧ stored = [] ∧
      requests[offers.length]? = some a := by
  have ha : requests[offers.length]? = some a := by
    rw [← List.head?_drop, ← h.waiting_eq]
    rfl
  have hlt : offers.length < requests.length := (List.getElem?_eq_some_iff.mp ha).1
  have hs : stored = [] := by rw [h.stored_eq, List.drop_eq_nil_of_le (Nat.le_of_lt hlt)]
  refine ⟨⟨?_, ?_⟩, hs, ha⟩
  · rw [List.length_append, List.length_singleton, ← List.drop_drop, ← h.waiting_eq]
    rfl
  · rw [hs, List.drop_eq_nil_of_le (by simp; omega)]

theorem mem_waiting (h : Rendezvous requests offers waiting stored) {k : ℕ}
    (ha : requests[k]? = some a) (hb : offers[k]? = none) : a ∈ waiting := by
  rw [h.waiting_eq]
  refine List.mem_iff_getElem?.mpr ⟨k - offers.length, ?_⟩
  rw [List.getElem?_drop, Nat.add_sub_cancel' (List.getElem?_eq_none_iff.mp hb), ha]

theorem lt_of_waiting (h : Rendezvous requests offers waiting stored) (ha : a ∈ waiting) :
    offers.length < requests.length := by
  rw [h.waiting_eq] at ha
  have hpos := List.length_pos_of_mem ha
  rw [List.length_drop] at hpos
  omega

end Rendezvous

end Queues
