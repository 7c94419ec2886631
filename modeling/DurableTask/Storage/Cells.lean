import Mathlib.Data.List.Induction
import Mathlib.Data.Sigma.Basic
import Mathlib.Logic.Function.Basic

/-! # Cells

Cells that are written one at a time, each with values of a type of its own.
What a cell holds in the end depends only on the writes to that cell.
-/

namespace Storage

/-- What each of the cells holds, if anything. -/
abbrev Contents {C : Type*} (El : C → Type*) := (c : C) → Option (El c)

/-- A cell and a value for it. -/
abbrev Write {C : Type*} (El : C → Type*) := Σ c, El c

variable {C : Type*} [DecidableEq C] {El : C → Type*}

namespace Contents

def empty : Contents El := fun _ => none

def write (s : Contents El) (w : Write El) : Contents El := Function.update s w.1 (some w.2)

variable {s : Contents El} {c : C}

@[simp] theorem write_self {x : El c} : s.write ⟨c, x⟩ c = some x := Function.update_self ..

theorem write_of_ne {w : Write El} (h : w.1 ≠ c) : s.write w c = s c :=
  Function.update_of_ne h.symm ..

theorem write_congr {s' : Contents El} {w : Write El} (h : s c = s' c) :
    s.write w c = s'.write w c := by
  by_cases hc : w.1 = c
  · obtain ⟨_, x⟩ := w
    subst hc
    rw [write_self, write_self]
  · rw [write_of_ne hc, write_of_ne hc, h]

end Contents

def latest (ws : List (Write El)) : Contents El := ws.foldl Contents.write .empty

variable {ws ws' : List (Write El)} {c : C}

theorem latest_concat (w : Write El) : latest (ws ++ [w]) = (latest ws).write w := by
  rw [latest, List.foldl_append]
  rfl

theorem latest_filter : latest (ws.filter (·.1 = c)) c = latest ws c := by
  induction ws using List.reverseRec with
  | nil => rfl
  | append_singleton ws w ih =>
    rw [List.filter_append, latest_concat]
    by_cases hc : w.1 = c
    · rw [List.filter_cons_of_pos (by simpa using hc), List.filter_nil, latest_concat]
      exact Contents.write_congr ih
    · rw [List.filter_cons_of_neg (by simpa using hc), List.filter_nil, List.append_nil, ih,
        Contents.write_of_ne hc]

theorem latest_congr (h : ∀ c, ws.filter (·.1 = c) = ws'.filter (·.1 = c)) :
    latest ws = latest ws' := by
  funext c
  rw [← latest_filter, h, latest_filter]

theorem latest_map {El' : C → Type*} (f : ∀ c, El c → El' c) :
    latest (ws.map (Sigma.map id f)) c = (latest ws c).map (f c) := by
  induction ws using List.reverseRec with
  | nil => rfl
  | append_singleton ws w ih =>
    rw [List.map_append, List.map_singleton, latest_concat, latest_concat]
    by_cases hc : w.1 = c
    · obtain ⟨_, x⟩ := w
      subst hc
      rw [Contents.write_self]
      exact Contents.write_self
    · rw [Contents.write_of_ne hc, ← ih]
      exact Contents.write_of_ne hc

section Operations

variable {σ α : Type*} {step : σ → α → σ} {effect : α → Option (Write El)}

theorem view_foldl (view : σ → Contents El)
    (hwrite : ∀ s a w, effect a = some w → view (step s a) = (view s).write w)
    (hskip : ∀ s a, effect a = none → view (step s a) = view s) {s₀ : σ}
    (h₀ : view s₀ = .empty) (as : List α) :
    view (as.foldl step s₀) = latest (as.filterMap effect) := by
  induction as using List.reverseRec with
  | nil => exact h₀
  | append_singleton as a ih =>
    rw [List.foldl_append, List.filterMap_append]
    cases ha : effect a with
    | none => simpa [ha] using (hskip _ a ha).trans ih
    | some w =>
      have hstep := hwrite (as.foldl step s₀) a w ha
      rw [ih, ← latest_concat] at hstep
      simpa [ha] using hstep

/-- The order of operations on different keys does not matter. -/
theorem latest_filterMap_congr {K : Type*} [DecidableEq K] {key : α → K} (k : C → K)
    (hkey : ∀ a w, effect a = some w → key a = k w.1) {as as' : List α}
    (h : ∀ k, as.filter (key · = k) = as'.filter (key · = k)) :
    latest (as.filterMap effect) = latest (as'.filterMap effect) := by
  have hfilter (c : C) (as : List α) : (as.filterMap effect).filter (·.1 = c) =
      ((as.filter (key · = k c)).filterMap effect).filter (·.1 = c) := by
    rw [List.filterMap_filter, List.filter_filterMap, List.filter_filterMap]
    congr 1
    funext a
    cases ha : effect a with
    | none => simp
    | some w =>
      by_cases hc : w.1 = c
      · simp [hkey a w ha, hc]
      · have hw : Option.filter (·.1 = c) (some w) = none := by
          rw [Option.filter_some, if_neg (by simpa using hc)]
        split <;> simp [hw]
  refine latest_congr fun c => ?_
  rw [hfilter, h, ← hfilter]

end Operations

end Storage
