import Mathlib.Data.List.Basic

/-! # Trace states

A trace state is a list of keys and values. Its header joins them with commas,
and is read back member by member.
-/

namespace DurableTask

def strSplit (separator : Char) (s : String) : List String :=
  (s.toList.splitOn separator).map String.ofList

theorem strSplit_of_not_mem {separator : Char} {s : String} (h : separator ∉ s.toList) :
    strSplit separator s = [s] := by
  rw [strSplit, List.splitOn_eq_singleton h, List.map_singleton, String.ofList_toList]

theorem strSplit_append {separator : Char} {s t : String} (h : separator ∉ s.toList) :
    strSplit separator (s ++ String.singleton separator ++ t) = s :: strSplit separator t := by
  rw [strSplit, String.toList_append, String.toList_append, String.toList_singleton,
    List.append_assoc, List.singleton_append, List.splitOn_append_cons_self_of_not_mem h,
    List.map_cons, String.ofList_toList, strSplit]

def strSplitTerminator (separator : Char) (s : String) : List String :=
  let parts := strSplit separator s
  if parts.getLast? = some "" then parts.dropLast else parts

namespace TraceState

def isKeyStart (c : Char) : Bool := c.isLower || c.isDigit

def validKeyFrom (length : ℕ) : ℕ → Option ℕ → List Char → Bool
  | _, _, [] => true
  | i, vendorStart, c :: cs =>
    if !(isKeyStart c || c ∈ ['_', '-', '*', '/'] || c == '@') then false
    else if i == 0 && !isKeyStart c then false
    else if c == '@' then
      !(vendorStart.isSome || i + 14 < length) && validKeyFrom length (i + 1) (some i) cs
    else
      !(vendorStart.any fun start => i == start + 1 && !isKeyStart c) &&
        validKeyFrom length (i + 1) vendorStart cs

def validKey (key : String) : Bool :=
  key.utf8ByteSize ≤ 256 && validKeyFrom key.utf8ByteSize 0 none key.toList

def validValue (value : String) : Bool :=
  value.utf8ByteSize ≤ 256 && !(',' ∈ value.toList || '=' ∈ value.toList)

def readMember (member : String) : Option (String × String) :=
  let key := member.toList.takeWhile (· ≠ '=')
  let rest := member.toList.dropWhile (· ≠ '=')
  if rest = [] then none
  else some (String.ofList key, String.ofList (rest.dropWhile (· = '=')))

def showMember (entry : String × String) : String :=
  String.ofList (entry.1.toList ++ '=' :: entry.2.toList)

theorem not_mem_of_validKeyFrom {length i : ℕ} {vendorStart : Option ℕ} {cs : List Char}
    (h : validKeyFrom length i vendorStart cs) : ',' ∉ cs ∧ '=' ∉ cs := by
  induction cs generalizing i vendorStart with
  | nil => simp
  | cons c cs ih =>
    rw [validKeyFrom] at h
    split at h
    · cases h
    · rename_i hc
      have hne : c ≠ ',' ∧ c ≠ '=' := by
        constructor <;> rintro rfl <;> exact absurd hc (by decide)
      have hcs : ',' ∉ cs ∧ '=' ∉ cs := by
        split at h
        · cases h
        · split at h <;> exact ih (Bool.and_eq_true_iff.mp h).2
      simp [hne.1.symm, hne.2.symm, hcs]

theorem not_mem_of_validValue {value : String} (h : validValue value) :
    ',' ∉ value.toList ∧ '=' ∉ value.toList := by
  rw [validValue, Bool.and_eq_true] at h
  simpa using h.2

theorem readMember_showMember {entry : String × String} (hkey : validKey entry.1)
    (hvalue : validValue entry.2) : readMember (showMember entry) = some entry := by
  have hk := (not_mem_of_validKeyFrom (Bool.and_eq_true_iff.mp hkey).2).2
  have hv := (not_mem_of_validValue hvalue).2
  have hkeep : ∀ c ∈ entry.1.toList, (decide (c ≠ '=')) = true := by
    rintro c hc
    exact decide_eq_true fun he => hk (he ▸ hc)
  have hrest : (entry.2.toList.dropWhile (· = '=')) = entry.2.toList := by
    cases hcs : entry.2.toList with
    | nil => rfl
    | cons c cs =>
      have hne : c ≠ '=' := by
        rintro rfl
        exact hv (by simp [hcs])
      simp [hne]
  rw [readMember, showMember, String.toList_ofList, List.takeWhile_append_of_pos hkeep,
    List.dropWhile_append_of_pos hkeep]
  simp [hrest]

end TraceState

/-- Entries that the crate takes into a trace state. -/
abbrev TraceState : Type := {entries : List (String × String) //
  ∀ entry ∈ entries, TraceState.validKey entry.1 ∧ TraceState.validValue entry.2}

namespace TraceState

def empty : TraceState := ⟨[], by simp⟩

def header (traceState : TraceState) : String :=
  String.ofList ([','].intercalate (traceState.val.map fun entry => (showMember entry).toList))

def fromStr (s : String) : Option TraceState := do
  let entries ← (strSplitTerminator ',' s).mapM readMember
  if h : ∀ entry ∈ entries, validKey entry.1 ∧ validValue entry.2 then some ⟨entries, h⟩ else none

theorem comma_not_mem_showMember {entry : String × String} (hkey : validKey entry.1)
    (hvalue : validValue entry.2) : ',' ∉ (showMember entry).toList := by
  have hk := (not_mem_of_validKeyFrom (Bool.and_eq_true_iff.mp hkey).2).1
  have hv := (not_mem_of_validValue hvalue).1
  simp [showMember, hk, hv]

/-- The members of a header are those that it was made of. -/
theorem strSplitTerminator_header (traceState : TraceState) :
    strSplitTerminator ',' traceState.header = traceState.val.map showMember := by
  obtain ⟨entries, hvalid⟩ := traceState
  cases entries with
  | nil => rfl
  | cons entry entries =>
    have hsplit : strSplit ',' (header ⟨entry :: entries, hvalid⟩) =
        (entry :: entries).map showMember := by
      rw [strSplit, header, String.toList_ofList, List.splitOn_intercalate _ ?_ (by simp),
        List.map_map]
      · exact List.map_congr_left fun entry _ => String.ofList_toList
      · intro l hl
        obtain ⟨entry, hm, rfl⟩ := List.mem_map.mp hl
        exact comma_not_mem_showMember (hvalid entry hm).1 (hvalid entry hm).2
    have hlast : ((entry :: entries).map showMember).getLast? ≠ some "" := by
      intro he
      obtain ⟨entry', -, hempty⟩ := List.mem_map.mp (List.mem_of_getLast? he)
      have hlen := congrArg (fun s => s.toList.length) hempty
      simp [showMember] at hlen
    rw [strSplitTerminator, hsplit]
    exact if_neg hlast

theorem fromStr_header (traceState : TraceState) :
    fromStr traceState.header = some traceState := by
  have hread : (traceState.val.map showMember).mapM readMember = some traceState.val := by
    obtain ⟨entries, hvalid⟩ := traceState
    dsimp only
    induction entries with
    | nil => rfl
    | cons entry entries ih =>
      obtain ⟨hkey, hvalue⟩ := hvalid entry List.mem_cons_self
      rw [List.map_cons, List.mapM_cons, readMember_showMember hkey hvalue,
        ih fun entry hm => hvalid entry (List.mem_cons_of_mem _ hm)]
      rfl
  rw [fromStr, strSplitTerminator_header, hread]
  exact dif_pos traceState.property

end TraceState

end DurableTask
