import DurableTask.Text.Numerals

/-! # JSON strings

A string is written between quotes, with its quotes, backslashes and control
characters escaped, and is read back as it was. White space around the quotes
and escapes from `\ud800` on are not read.
-/

namespace Text

def jsonChar (c : Char) : List Char :=
  if c = '\"' then ['\\', '\"']
  else if c = '\\' then ['\\', '\\']
  else if c = '\n' then ['\\', 'n']
  else if c = '\r' then ['\\', 'r']
  else if c = '\t' then ['\\', 't']
  else if c.toNat = 8 then ['\\', 'b']
  else if c.toNat = 12 then ['\\', 'f']
  else if c.toNat < 32 then '\\' :: 'u' :: (fixedWidth 4 16 c.toNat).toList
  else [c]

/-- `serde_json::to_string` of a string. -/
def jsonString (s : String) : Except String String :=
  .ok (String.ofList ('\"' :: s.toList.flatMap jsonChar ++ ['\"']))

def unescape (c : Char) : Option Char :=
  if c = 'n' then some '\n'
  else if c = 'r' then some '\r'
  else if c = 't' then some '\t'
  else if c = 'b' then some (.ofNat 8)
  else if c = 'f' then some (.ofNat 12)
  else if c = '\"' ∨ c = '\\' ∨ c = '/' then some c
  else none

def readChars : List Char → Except String (List Char)
  | [] => .error "EOF while parsing a string"
  | ['\"'] => .ok []
  | '\"' :: _ => .error "trailing characters"
  | '\\' :: 'u' :: a :: b :: c :: d :: rest =>
    match [a, b, c, d].foldlM (readDigit 0xd800 16) 0 with
    | none => .error "invalid escape"
    | some n => (readChars rest).map (.ofNat n :: ·)
  | '\\' :: c :: rest =>
    match unescape c with
    | none => .error "invalid escape"
    | some c => (readChars rest).map (c :: ·)
  | c :: rest =>
    if c.toNat < 32 then .error "control character found while parsing a string"
    else (readChars rest).map (c :: ·)

/-- `serde_json::from_str` at a string. -/
def fromJsonString (s : String) : Except String String :=
  match s.toList with
  | '\"' :: rest => (readChars rest).map String.ofList
  | _ => .error "expected value"

example : fromJsonString "\"boom\"" = .ok "boom" ∧
    fromJsonString "boom" = .error "expected value" := by decide

theorem foldlM_fixedWidth {n width : ℕ} (hn : n < 0xd800) :
    (fixedWidth width 16 n).toList.foldlM (readDigit 0xd800 16) 0 = some n := by
  rw [fixedWidth, String.toList_ofList, List.foldlM_append,
    foldlM_replicate_zero (by omega) (by omega)]
  exact foldlM_toDigits (by omega) (by omega) hn

/-- An escape of four hexadecimal digits. -/
theorem readChars_numeral {l rest : List Char} {n : ℕ} (hl : l.length = 4)
    (hn : l.foldlM (readDigit 0xd800 16) 0 = some n) :
    readChars ('\\' :: 'u' :: (l ++ rest)) = (readChars rest).map (.ofNat n :: ·) := by
  obtain ⟨a, b, c, d, rfl⟩ := List.length_eq_four.mp hl
  simp only [List.cons_append, List.nil_append, readChars, hn]

theorem readChars_jsonChar (c : Char) (rest : List Char) :
    readChars (jsonChar c ++ rest) = (readChars rest).map (c :: ·) := by
  unfold jsonChar
  split_ifs with h₁ h₂ h₃ h₄ h₅ h₆ h₇ h₈
  · rw [h₁]; rfl
  · rw [h₂]; rfl
  · rw [h₃]; rfl
  · rw [h₄]; rfl
  · rw [h₅]; rfl
  · rw [show c = .ofNat 8 from h₆ ▸ (Char.ofNat_toNat c).symm]; rfl
  · rw [show c = .ofNat 12 from h₇ ▸ (Char.ofNat_toNat c).symm]; rfl
  · have hlen : (fixedWidth 4 16 c.toNat).toList.length = 4 :=
      length_fixedWidth (by omega) (by omega) (by omega)
    rw [List.cons_append, List.cons_append, readChars_numeral hlen
      (foldlM_fixedWidth (by omega)), Char.ofNat_toNat]
  · rw [List.singleton_append, readChars, if_neg h₈] <;> simp [h₁, h₂]

theorem readChars_flatMap (cs : List Char) :
    readChars (cs.flatMap jsonChar ++ ['\"']) = .ok cs := by
  induction cs with
  | nil => rfl
  | cons c cs ih => rw [List.flatMap_cons, List.append_assoc, readChars_jsonChar, ih]; rfl

theorem fromJsonString_jsonString (s : String) : (jsonString s).bind fromJsonString = .ok s := by
  simp only [jsonString, Except.bind, fromJsonString, String.toList_ofList, List.cons_append,
    readChars_flatMap, Except.map, String.ofList_toList]

end Text
