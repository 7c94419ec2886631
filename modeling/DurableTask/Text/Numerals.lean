import Mathlib.Algebra.GroupWithZero.Nat
import Mathlib.Data.List.Basic

/-! # Numerals

Reading a bounded number in a given base, digit by digit. A decimal numeral that
is read in a larger base gives the number itself exactly when it has one digit.
-/

namespace Text

def digit (c : Char) : Option ℕ :=
  if c.isDigit then some (c.toNat - '0'.toNat)
  else if 'a' ≤ c ∧ c ≤ 'z' then some (c.toNat - 'a'.toNat + 10)
  else if 'A' ≤ c ∧ c ≤ 'Z' then some (c.toNat - 'A'.toNat + 10)
  else none

def readDigit (limit radix acc : ℕ) (c : Char) : Option ℕ := do
  let d ← (digit c).filter (· < radix)
  let n := acc * radix + d
  if n < limit then some n else none

/-- `from_str_radix` of an unsigned type with `limit` values: digits, maybe behind a plus sign. -/
def fromStrRadix (limit radix : ℕ) (src : String) : Option ℕ :=
  match src.toList with
  | [] => none
  | ['+'] => none
  | '+' :: digits => digits.foldlM (readDigit limit radix) 0
  | digits => digits.foldlM (readDigit limit radix) 0

variable {limit radix b acc n m d : ℕ}

theorem digit_digitChar : ∀ d < 16, digit d.digitChar = some d := by
  decide

theorem readDigit_digitChar_iff (hd : d < 16) (hradix : d < radix) :
    readDigit limit radix acc d.digitChar = some m ↔
      acc * radix + d < limit ∧ acc * radix + d = m := by
  have hfilter : (some d).filter (· < radix) = some d := by simp [hradix]
  rw [readDigit, digit_digitChar d hd, hfilter, Option.bind_eq_bind, Option.bind_some,
    Option.ite_none_right_eq_some, Option.some_inj]

theorem fromStrRadix_eq {src : String} (hne : src.toList ≠ []) (hplus : '+' ∉ src.toList) :
    fromStrRadix limit radix src = src.toList.foldlM (readDigit limit radix) 0 := by
  rw [fromStrRadix]
  split
  · exact absurd ‹_› hne
  · simp_all
  · simp_all
  · rfl

theorem lt_of_readDigit {c : Char} (h : readDigit limit radix acc c = some m) : m < limit := by
  obtain ⟨d, -, hd⟩ := Option.bind_eq_some_iff.mp h
  obtain ⟨hlt, hm⟩ := Option.ite_none_right_eq_some.mp hd
  obtain rfl := Option.some.inj hm
  exact hlt

theorem lt_of_foldlM_readDigit {digits : List Char} (hacc : acc < limit)
    (h : digits.foldlM (readDigit limit radix) acc = some m) : m < limit := by
  induction digits generalizing acc with
  | nil =>
    obtain rfl := Option.some.inj h
    exact hacc
  | cons c digits ih =>
    obtain ⟨n, hn, hrest⟩ := Option.bind_eq_some_iff.mp h
    exact ih (lt_of_readDigit hn) hrest

theorem lt_of_fromStrRadix {src : String} (hlimit : 0 < limit)
    (h : fromStrRadix limit radix src = some m) : m < limit := by
  rw [fromStrRadix] at h
  split at h
  · cases h
  · cases h
  · exact lt_of_foldlM_readDigit hlimit h
  · exact lt_of_foldlM_readDigit hlimit h

theorem foldlM_toDigits_of_base_le (hb : 1 < b) (h : b ≤ n) :
    (Nat.toDigits b n).foldlM (readDigit limit radix) 0 =
      ((Nat.toDigits b (n / b)).foldlM (readDigit limit radix) 0).bind
        (readDigit limit radix · (n % b).digitChar) := by
  rw [Nat.toDigits_of_base_le hb h, List.foldlM_append]
  refine congrArg _ (funext fun acc => ?_)
  rw [List.foldlM_cons]
  exact bind_pure _

theorem foldlM_toDigits_of_lt_base (h : n < b) :
    (Nat.toDigits b n).foldlM (readDigit limit radix) 0 =
      readDigit limit radix 0 n.digitChar := by
  rw [Nat.toDigits_of_lt_base h, List.foldlM_cons]
  exact bind_pure _

theorem foldlM_toDigits (hradix : 1 < radix) (hle : radix ≤ 16) (hn : n < limit) :
    (Nat.toDigits radix n).foldlM (readDigit limit radix) 0 = some n := by
  induction n using Nat.strongRecOn with
  | ind n ih =>
    obtain hlt | hge := Nat.lt_or_ge n radix
    · rw [foldlM_toDigits_of_lt_base hlt, readDigit_digitChar_iff (by omega) hlt]
      omega
    · have hmod := Nat.mod_lt n (by omega : 0 < radix)
      have hdiv := Nat.div_add_mod' n radix
      rw [foldlM_toDigits_of_base_le hradix hge,
        ih (n / radix) (Nat.div_lt_self (by omega) hradix)
          (Nat.lt_of_le_of_lt (Nat.div_le_self n radix) hn), Option.bind_some,
        readDigit_digitChar_iff (by omega) hmod]
      omega

theorem foldlM_replicate_zero (hradix : 0 < radix) (hlimit : 0 < limit) (k : ℕ) :
    (List.replicate k '0').foldlM (readDigit limit radix) 0 = some 0 := by
  induction k with
  | zero => rfl
  | succ k ih =>
    have hzero : readDigit limit radix 0 '0' = some 0 :=
      (readDigit_digitChar_iff (by decide : 0 < 16) hradix).mpr (by omega)
    rw [List.replicate_succ, List.foldlM_cons, hzero]
    exact ih

/-- Read in a base above ten, a decimal numeral gives at least its number, and more than it from
two digits on. -/
theorem le_of_foldlM_toDigits_ten (hradix : 10 < radix)
    (h : (Nat.toDigits 10 n).foldlM (readDigit limit radix) 0 = some m) :
    n ≤ m ∧ (10 ≤ n → n < m) := by
  induction n using Nat.strongRecOn generalizing m with
  | ind n ih =>
    obtain hlt | hge := Nat.lt_or_ge n 10
    · rw [foldlM_toDigits_of_lt_base hlt, readDigit_digitChar_iff (by omega) (by omega)] at h
      omega
    · have hmod := Nat.mod_lt n (by omega : 0 < 10)
      have hdiv := Nat.div_add_mod' n 10
      rw [foldlM_toDigits_of_base_le (by decide) hge, Option.bind_eq_some_iff] at h
      obtain ⟨q, hq, hm⟩ := h
      rw [readDigit_digitChar_iff (by omega) (by omega)] at hm
      have hle := (ih (n / 10) (by omega) hq).1
      have hmul : n / 10 * 11 ≤ q * radix := Nat.mul_le_mul hle hradix
      omega

/-- A decimal numeral means the same in a larger base exactly when it is a single digit. -/
theorem fromStrRadix_repr_iff (hradix : 10 < radix) (hn : n < limit) :
    fromStrRadix limit radix n.repr = some n ↔ n < 10 := by
  have hplus : '+' ∉ n.repr.toList := by
    rw [Nat.toList_repr]
    rintro hmem
    exact absurd (Nat.isDigit_of_mem_toDigits (by decide) (by decide) hmem) (by decide)
  rw [fromStrRadix_eq (by rw [Nat.toList_repr]; exact Nat.toDigits_ne_nil) hplus,
    Nat.toList_repr]
  constructor
  · rintro h
    by_contra hge
    exact absurd ((le_of_foldlM_toDigits_ten hradix h).2 (by omega)) (by omega)
  · rintro hlt
    rw [foldlM_toDigits_of_lt_base hlt, readDigit_digitChar_iff (by omega) (by omega)]
    omega

def fixedWidth (width radix n : ℕ) : String :=
  String.ofList (List.replicate (width - (Nat.toDigits radix n).length) '0' ++
    Nat.toDigits radix n)

theorem length_fixedWidth {width : ℕ} (hradix : 1 < radix) (hwidth : 0 < width)
    (hn : n < radix ^ width) : (fixedWidth width radix n).length = width := by
  have hle := (Nat.length_toDigits_le_iff hradix hwidth).mpr hn
  rw [fixedWidth, ← String.length_toList, String.toList_ofList, List.length_append,
    List.length_replicate]
  omega

def hexDigits : List Char :=
  ['0', '1', '2', '3', '4', '5', '6', '7', '8', '9', 'a', 'b', 'c', 'd', 'e', 'f']

theorem digitChar_mem_hexDigits : ∀ d < 16, Nat.digitChar d ∈ hexDigits := by
  decide

theorem mem_hexDigits_of_mem_toDigits (hradix : 1 < radix) (hle : radix ≤ 16) {c : Char}
    (hc : c ∈ Nat.toDigits radix n) : c ∈ hexDigits := by
  induction n using Nat.strongRecOn with
  | ind n ih =>
    obtain hlt | hge := Nat.lt_or_ge n radix
    · rw [Nat.toDigits_of_lt_base hlt, List.mem_singleton] at hc
      obtain rfl := hc
      exact digitChar_mem_hexDigits n (by omega)
    · have hmod := Nat.mod_lt n (by omega : 0 < radix)
      rw [Nat.toDigits_of_base_le hradix hge, List.mem_append, List.mem_singleton] at hc
      obtain hc | rfl := hc
      · exact ih (n / radix) (Nat.div_lt_self (by omega) hradix) hc
      · exact digitChar_mem_hexDigits _ (by omega)

theorem mem_hexDigits_of_mem_fixedWidth (hradix : 1 < radix) (hle : radix ≤ 16) {width : ℕ}
    {c : Char} (hc : c ∈ (fixedWidth width radix n).toList) : c ∈ hexDigits := by
  rw [fixedWidth, String.toList_ofList, List.mem_append] at hc
  obtain hc | hc := hc
  · obtain rfl := List.eq_of_mem_replicate hc
    decide
  · exact mem_hexDigits_of_mem_toDigits hradix hle hc

theorem fromStrRadix_fixedWidth (hradix : 1 < radix) (hle : radix ≤ 16) (hn : n < limit)
    (width : ℕ) : fromStrRadix limit radix (fixedWidth width radix n) = some n := by
  have hplus : '+' ∉ (fixedWidth width radix n).toList := by
    rintro hmem
    exact absurd (mem_hexDigits_of_mem_fixedWidth hradix hle hmem) (by decide)
  have hne : (fixedWidth width radix n).toList ≠ [] := by
    rw [fixedWidth, String.toList_ofList]
    exact List.append_ne_nil_of_right_ne_nil _ Nat.toDigits_ne_nil
  rw [fromStrRadix_eq hne hplus, fixedWidth, String.toList_ofList, List.foldlM_append,
    foldlM_replicate_zero (by omega) (by omega)]
  exact foldlM_toDigits hradix hle hn

end Text
