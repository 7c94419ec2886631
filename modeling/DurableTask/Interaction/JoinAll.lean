import DurableTask.Interaction.Future

/-! # Joining a list of futures

Each poll of the join polls those of its futures that are not done, in order;
it is ready once all of them are, with their values in order.
-/

namespace Interaction

namespace Future

variable {Op : Type} {Reply : Op → Type} {α : Type}

/-- The states of futures each of which may be done already. -/
def States : List (Future Op Reply α) → Type
  | [] => Unit
  | f :: fs => (f.State ⊕ α) × States fs

def States.cons {f : Future Op Reply α} {fs : List (Future Op Reply α)} (x : f.State ⊕ α)
    (s : States fs) : States (f :: fs) := (x, s)

def initial : (fs : List (Future Op Reply α)) → States fs
  | [] => ()
  | f :: fs => .cons (.inl f.state) (initial fs)

def pollAll : (fs : List (Future Op Reply α)) → States fs → Prog Op Reply (States fs)
  | [], s => .pure s
  | f :: fs, s => (f.pollMaybeDone s.1).bind fun x =>
    (pollAll fs s.2).bind fun xs => .pure (.cons x xs)

def values : (fs : List (Future Op Reply α)) → States fs → Option (List α)
  | [], _ => some []
  | _ :: fs, s =>
    match s.1, values fs s.2 with
    | .inr a, some as => some (a :: as)
    | _, _ => none

def joinAll (fs : List (Future Op Reply α)) : Future Op Reply (List α) where
  State := States fs
  state := initial fs
  poll s := (pollAll fs s).bind fun s =>
    match values fs s with
    | some as => .pure (.ready as)
    | none => .pure (.suspended s)

section Values

variable {f : Future Op Reply α} {fs : List (Future Op Reply α)} {s : States fs}

theorem values_cons_done {a : α} {as : List α} (h : values fs s = some as) :
    values (f :: fs) (.cons (.inr a) s) = some (a :: as) := by
  simp only [values, States.cons, h]

theorem values_cons_suspended (s' : f.State) : values (f :: fs) (.cons (.inl s') s) = none := rfl

theorem values_cons_none {x : f.State ⊕ α} (h : values fs s = none) :
    values (f :: fs) (.cons x s) = none := by
  simp only [values, States.cons, h]

end Values

section Run

variable {S ε : Type} {h : Handler Op Reply S ε} {w w' w'' : S} {f : Future Op Reply α}
  {fs : List (Future Op Reply α)} {x x' : f.State ⊕ α} {s s' : States fs}

theorem pollAll_cons : pollAll (f :: fs) (.cons x s) =
    (f.pollMaybeDone x).bind fun x => (pollAll fs s).bind fun xs => .pure (.cons x xs) := rfl

theorem run_pollAll_cons (hx : (f.pollMaybeDone x).run h w = .ok (x', w'))
    (hs : (pollAll fs s).run h w' = .ok (s', w'')) :
    (pollAll (f :: fs) (.cons x s)).run h w = .ok (.cons x' s', w'') := by
  rw [pollAll_cons, Prog.run_bind_ok hx, Prog.run_bind_ok hs, Prog.run_pure]

theorem run_pollAll_cons_ok {p : States (f :: fs)}
    (hr : (pollAll (f :: fs) (.cons x s)).run h w = .ok (p, w'')) :
    ∃ x' w' s', (f.pollMaybeDone x).run h w = .ok (x', w') ∧
      (pollAll fs s).run h w' = .ok (s', w'') ∧ p = .cons x' s' := by
  rw [pollAll_cons, Prog.run_bind] at hr
  cases hx : (f.pollMaybeDone x).run h w with
  | error e =>
    rw [hx] at hr
    cases hr
  | ok q =>
    rw [hx] at hr
    dsimp only at hr
    rw [Prog.run_bind] at hr
    cases hs : (pollAll fs s).run h q.2 with
    | error e =>
      rw [hs] at hr
      cases hr
    | ok q' =>
      rw [hs] at hr
      cases hr
      exact ⟨q.1, q.2, q'.1, rfl, hs, rfl⟩

theorem run_joinAll_suspended (hs : (pollAll fs s).run h w = .ok (s', w'))
    (hv : values fs s' = none) :
    ((joinAll fs).poll s).run h w = .ok (.suspended s', w') := by
  simp only [joinAll, Prog.run_bind_ok hs, hv, Prog.run_pure]

theorem run_joinAll_ready {as : List α} (hs : (pollAll fs s).run h w = .ok (s', w'))
    (hv : values fs s' = some as) : ((joinAll fs).poll s).run h w = .ok (.ready as, w') := by
  simp only [joinAll, Prog.run_bind_ok hs, hv, Prog.run_pure]

theorem run_joinAll_ok {p : Progress (States fs) (List α)}
    (hr : ((joinAll fs).poll s).run h w = .ok (p, w')) :
    ∃ s', (pollAll fs s).run h w = .ok (s', w') ∧
      (p = .suspended s' ∧ values fs s' = none ∨ ∃ as, p = .ready as ∧ values fs s' = some as) := by
  simp only [joinAll, Prog.run_bind] at hr
  cases hs : (pollAll fs s).run h w with
  | error e =>
    rw [hs] at hr
    cases hr
  | ok q =>
    rw [hs] at hr
    dsimp only at hr
    cases hv : values fs q.1 with
    | none =>
      rw [hv] at hr
      cases hr
      exact ⟨q.1, rfl, .inl ⟨rfl, hv⟩⟩
    | some as =>
      rw [hv] at hr
      cases hr
      exact ⟨q.1, rfl, .inr ⟨as, rfl, hv⟩⟩

end Run

end Future

end Interaction
