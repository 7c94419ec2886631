import DurableTask.Interaction.JoinAll
import DurableTask.Runtime.Calls
import Mathlib.Algebra.BigOperators.Fin
import Mathlib.Algebra.Order.BigOperators.Group.Finset
import Mathlib.Algebra.Order.Group.Multiset
import Mathlib.Data.Option.NAry

/-! # Flows

A flow is an orchestrator that is built from the calls of the API: one after the
other, side by side, or all of a list at once. Its future is what the executor
polls. Its meaning is a direct execution, in which every call is answered on the
spot and the program is never suspended.
-/

namespace DurableTask

open Interaction

/-- What is asked for when a task is created; the time of a timer is left to the clock. -/
inductive TaskRequest where
  | activity (name : String) (input : Option String)
  | subOrchestration (name instanceId : String) (input : Option String)
  | timer
  | signal (name : String)
  deriving DecidableEq, Repr

def OrchestratorAction.request? (a : OrchestratorAction) : Option TaskRequest :=
  match a.orchestratorActionType with
  | some (.scheduleTask t) => some (.activity t.name t.input)
  | some (.createSubOrchestration t) => some (.subOrchestration t.name t.instanceId t.input)
  | some (.createTimer _) => some .timer
  | _ => none

def Origin.request? : Origin → Option TaskRequest
  | .action a => a.request?
  | .signal name => some (.signal name)

theorem Origin.request?_signal {o : Origin} {name : String} :
    o.request? = some (.signal name) ↔ o = .signal name := by
  cases o with
  | signal name' => simp [Origin.request?]
  | action a =>
    refine ⟨fun h => ?_, fun h => by cases h⟩
    simp only [Origin.request?, OrchestratorAction.request?] at h
    split at h <;> cases h

def World.requests (w : World) : List TaskRequest := w.cells.filterMap (·.origin.request?)

/-- The answers that a request may get. -/
abbrev Service := TaskRequest → String → Prop

/-- A call of the API that is awaited. -/
inductive ApiCall : Type → Type 1 where
  | activity {A R : Type} (encode : Encoder A) (decode : Decoder R)
      (typeName activityType : String) (input : A) : ApiCall (Except String R)
  | subOrchestrator {A R : Type} (encode : Encoder A) (decode : Decoder R)
      (typeName orchestratorType instanceId : String) (input : A) : ApiCall (Except String R)
  | signal {R : Type} (decode : Decoder R) (name : String) : ApiCall (Except String R)
  | timer (fireAfterMillis : ℕ) : ApiCall String

namespace ApiCall

def future : {α : Type} → ApiCall α → TaskFuture α
  | _, .activity encode decode typeName activityType input =>
    callActivity encode decode typeName activityType input
  | _, .subOrchestrator encode decode typeName orchestratorType instanceId input =>
    callSubOrchestrator encode decode typeName orchestratorType instanceId input
  | _, .signal decode name => awaitSignalEvent decode name
  | _, .timer fireAfterMillis => createTimer fireAfterMillis

def request? (toLowercase : String → String) : {α : Type} → ApiCall α → Option TaskRequest
  | _, .activity encode _ typeName activityType input =>
    (encode input).toOption.map fun s =>
      .activity (if activityType = "" then typeName else activityType) (some s)
  | _, .subOrchestrator encode _ typeName orchestratorType instanceId input =>
    (encode input).toOption.map fun s => .subOrchestration
      (if orchestratorType = "" then typeName else orchestratorType) instanceId (some s)
  | _, .signal _ name => some (.signal (toLowercase name))
  | _, .timer _ => some .timer

def result? : {α : Type} → ApiCall α → String → Option α
  | _, .activity _ decode _ _ _, payload => (decode payload).toOption.map .ok
  | _, .subOrchestrator _ decode _ _ _ _, payload => (decode payload).toOption.map .ok
  | _, .signal decode _, payload => (decode payload).toOption.map .ok
  | _, .timer _, payload => some payload

end ApiCall

/-- An orchestrator that is built from calls of the API. -/
inductive Flow : Type → Type 1 where
  | done {α : Type} (a : α) : Flow α
  | call {α : Type} (c : ApiCall α) : Flow α
  | map {α β : Type} (g : α → β) (f : Flow α) : Flow β
  | andThen {α β : Type} (f : Flow α) (k : α → Flow β) : Flow β
  | join {α β : Type} (f : Flow α) (g : Flow β) : Flow (α × β)
  | joinAll {α : Type} (n : ℕ) (fs : Fin n → Flow α) : Flow (List α)

namespace Flow

def future : {α : Type} → Flow α → TaskFuture α
  | _, .done a => .ready a
  | _, .call c => c.future
  | _, .map g f => f.future.map g
  | _, .andThen f k => f.future.bind fun a => (k a).future
  | _, .join f g => f.future.join g.future
  | _, .joinAll _ fs => .joinAll (List.ofFn fun i => (fs i).future)

/--
A direct execution of a flow, which answers each request as the service may: the requests that are
made, and the value if the execution does not stop before the end.
-/
inductive Runs (toLowercase : String → String) (service : Service) :
    {α : Type} → Flow α → Multiset TaskRequest → Option α → Prop where
  | start {α : Type} (f : Flow α) : Runs toLowercase service f 0 none
  | done {α : Type} (a : α) : Runs toLowercase service (.done a) 0 (some a)
  | ask {α : Type} {c : ApiCall α} {q : TaskRequest} (hq : c.request? toLowercase = some q) :
    Runs toLowercase service (.call c) {q} none
  | answer {α : Type} {c : ApiCall α} {q : TaskRequest} {payload : String} {a : α}
      (hq : c.request? toLowercase = some q) (hs : service q payload)
      (ha : c.result? payload = some a) : Runs toLowercase service (.call c) {q} (some a)
  | map {α β : Type} {g : α → β} {f : Flow α} {m : Multiset TaskRequest} {r : Option α}
      (hf : Runs toLowercase service f m r) : Runs toLowercase service (.map g f) m (r.map g)
  | first {α β : Type} {f : Flow α} {k : α → Flow β} {m : Multiset TaskRequest}
      (hf : Runs toLowercase service f m none) : Runs toLowercase service (.andThen f k) m none
  | second {α β : Type} {f : Flow α} {k : α → Flow β} {m₁ m₂ : Multiset TaskRequest} {a : α}
      {r : Option β} (hf : Runs toLowercase service f m₁ (some a))
      (hk : Runs toLowercase service (k a) m₂ r) :
    Runs toLowercase service (.andThen f k) (m₁ + m₂) r
  | join {α β : Type} {f : Flow α} {g : Flow β} {m₁ m₂ : Multiset TaskRequest} {r₁ : Option α}
      {r₂ : Option β} (hf : Runs toLowercase service f m₁ r₁)
      (hg : Runs toLowercase service g m₂ r₂) :
    Runs toLowercase service (.join f g) (m₁ + m₂) (Option.map₂ Prod.mk r₁ r₂)
  | joinAll {α : Type} {n : ℕ} {fs : Fin n → Flow α} (m : Fin n → Multiset TaskRequest)
      (r : Fin n → Option α) (hfs : ∀ i, Runs toLowercase service (fs i) (m i) (r i)) :
    Runs toLowercase service (.joinAll n fs) (List.ofFn m).sum ((List.ofFn r).mapM id)

/--
A direct execution of a flow that stops nowhere but at requests that are not answered: those that
were, those that it waits for, and the value if it waits for none.
-/
inductive Halts (toLowercase : String → String) (service : Service) :
    {α : Type} → Flow α → Multiset TaskRequest → Multiset TaskRequest → Option α → Prop where
  | done {α : Type} (a : α) : Halts toLowercase service (.done a) 0 0 (some a)
  | ask {α : Type} {c : ApiCall α} {q : TaskRequest} (hq : c.request? toLowercase = some q) :
    Halts toLowercase service (.call c) 0 {q} none
  | answer {α : Type} {c : ApiCall α} {q : TaskRequest} {payload : String} {a : α}
      (hq : c.request? toLowercase = some q) (hs : service q payload)
      (ha : c.result? payload = some a) : Halts toLowercase service (.call c) {q} 0 (some a)
  | map {α β : Type} {g : α → β} {f : Flow α} {m u : Multiset TaskRequest} {r : Option α}
      (hf : Halts toLowercase service f m u r) : Halts toLowercase service (.map g f) m u (r.map g)
  | first {α β : Type} {f : Flow α} {k : α → Flow β} {m u : Multiset TaskRequest}
      (hf : Halts toLowercase service f m u none) :
    Halts toLowercase service (.andThen f k) m u none
  | second {α β : Type} {f : Flow α} {k : α → Flow β} {m₁ m₂ u : Multiset TaskRequest} {a : α}
      {r : Option β} (hf : Halts toLowercase service f m₁ 0 (some a))
      (hk : Halts toLowercase service (k a) m₂ u r) :
    Halts toLowercase service (.andThen f k) (m₁ + m₂) u r
  | join {α β : Type} {f : Flow α} {g : Flow β} {m₁ m₂ u₁ u₂ : Multiset TaskRequest}
      {r₁ : Option α} {r₂ : Option β} (hf : Halts toLowercase service f m₁ u₁ r₁)
      (hg : Halts toLowercase service g m₂ u₂ r₂) :
    Halts toLowercase service (.join f g) (m₁ + m₂) (u₁ + u₂) (Option.map₂ Prod.mk r₁ r₂)
  | joinAll {α : Type} {n : ℕ} {fs : Fin n → Flow α} (m u : Fin n → Multiset TaskRequest)
      (r : Fin n → Option α) (hfs : ∀ i, Halts toLowercase service (fs i) (m i) (u i) (r i)) :
    Halts toLowercase service (.joinAll n fs) (List.ofFn m).sum (List.ofFn u).sum
      ((List.ofFn r).mapM id)

/--
A direct execution of a flow panics: an input cannot be encoded, or an answer of the service cannot
be decoded.
-/
inductive Panics (toLowercase : String → String) (service : Service) :
    {α : Type} → Flow α → Panic → Prop where
  | unencoded {α : Type} {c : ApiCall α} (hq : c.request? toLowercase = none) :
    Panics toLowercase service (.call c) (.program "input serialization failed")
  | undecoded {α : Type} {c : ApiCall α} {q : TaskRequest} {payload : String}
      (hq : c.request? toLowercase = some q) (hs : service q payload)
      (ha : c.result? payload = none) :
    Panics toLowercase service (.call c) (.program "output deserialization failed")
  | map {α β : Type} {g : α → β} {f : Flow α} {p : Panic}
      (hf : Panics toLowercase service f p) : Panics toLowercase service (.map g f) p
  | first {α β : Type} {f : Flow α} {k : α → Flow β} {p : Panic}
      (hf : Panics toLowercase service f p) : Panics toLowercase service (.andThen f k) p
  | second {α β : Type} {f : Flow α} {k : α → Flow β} {m : Multiset TaskRequest} {a : α} {p : Panic}
      (hf : Runs toLowercase service f m (some a)) (hk : Panics toLowercase service (k a) p) :
    Panics toLowercase service (.andThen f k) p
  | left {α β : Type} {f : Flow α} {g : Flow β} {p : Panic}
      (hf : Panics toLowercase service f p) : Panics toLowercase service (.join f g) p
  | right {α β : Type} {f : Flow α} {g : Flow β} {p : Panic}
      (hg : Panics toLowercase service g p) : Panics toLowercase service (.join f g) p
  | joinAll {α : Type} {n : ℕ} {fs : Fin n → Flow α} {p : Panic} (i : Fin n)
      (hf : Panics toLowercase service (fs i) p) : Panics toLowercase service (.joinAll n fs) p

/-- Every input can be encoded, and every answer of the service decoded. -/
def Total (toLowercase : String → String) (service : Service) : {α : Type} → Flow α → Prop
  | _, .done _ => True
  | _, .call c => ∃ q, c.request? toLowercase = some q ∧
    ∀ payload, service q payload → (c.result? payload).isSome
  | _, .map _ f => f.Total toLowercase service
  | _, .andThen f k => f.Total toLowercase service ∧ ∀ a, (k a).Total toLowercase service
  | _, .join f g => f.Total toLowercase service ∧ g.Total toLowercase service
  | _, .joinAll _ fs => ∀ i, (fs i).Total toLowercase service

theorem Total.not_panics {toLowercase : String → String} {service : Service} {α : Type} {f : Flow α}
    {p : Panic} (h : f.Total toLowercase service) : ¬f.Panics toLowercase service p := by
  intro hp
  induction hp with
  | unencoded hq =>
    obtain ⟨q, hq', -⟩ := h
    rw [hq] at hq'
    cases hq'
  | undecoded hq hs ha =>
    obtain ⟨q, hq', hdecode⟩ := h
    rw [hq] at hq'
    cases hq'
    have hsome := hdecode _ hs
    rw [ha] at hsome
    cases hsome
  | map _ ih => exact ih h
  | first _ ih => exact ih h.1
  | second _ _ ih => exact ih (h.2 _)
  | left _ ih => exact ih h.1
  | right _ ih => exact ih h.2
  | joinAll i _ ih => exact ih (h i)

section Inversion

variable {toLowercase : String → String} {service : Service} {α β : Type}
  {m : Multiset TaskRequest}

theorem Runs.of_call {c : ApiCall α} {a : α}
    (h : (Flow.call c).Runs toLowercase service m (some a)) : ∃ q payload,
      c.request? toLowercase = some q ∧ service q payload ∧ c.result? payload = some a := by
  cases h with
  | answer hq hs ha => exact ⟨_, _, hq, hs, ha⟩

theorem Runs.of_andThen {f : Flow α} {k : α → Flow β} {b : β}
    (h : (f.andThen k).Runs toLowercase service m (some b)) : ∃ m₁ m₂ a, m = m₁ + m₂ ∧
      f.Runs toLowercase service m₁ (some a) ∧ (k a).Runs toLowercase service m₂ (some b) := by
  cases h with
  | second hf hk => exact ⟨_, _, _, rfl, hf, hk⟩

end Inversion

theorem mapM_id_ofFn {α : Type} {n : ℕ} {r : Fin n → Option α} :
    ((List.ofFn r).mapM id).isSome ↔ ∀ i, (r i).isSome := by
  induction n with
  | zero => simp
  | succ n ih =>
    rw [List.ofFn_succ, List.mapM_cons, Fin.forall_fin_succ, ← ih]
    cases r 0 with
    | none => simp
    | some a => cases (List.ofFn fun i : Fin n => r i.succ).mapM id <;> simp

section Halts

variable {toLowercase : String → String} {service : Service} {α : Type} {f : Flow α}
  {m u : Multiset TaskRequest} {r : Option α}

theorem Halts.runs (h : f.Halts toLowercase service m u r) :
    f.Runs toLowercase service (m + u) r := by
  induction h with
  | done a => exact .done a
  | ask hq =>
    rw [zero_add]
    exact .ask hq
  | answer hq hs ha => exact .answer hq hs ha
  | map _ ih => exact .map ih
  | first _ ih => exact .first ih
  | second _ _ ihf ihk =>
    rw [add_zero] at ihf
    rw [add_assoc]
    exact .second ihf ihk
  | join _ _ ihf ihg =>
    rw [add_add_add_comm]
    exact .join ihf ihg
  | joinAll m u r _ ih =>
    have hsum : (List.ofFn m).sum + (List.ofFn u).sum = (List.ofFn fun i => m i + u i).sum := by
      simp only [List.sum_ofFn, Finset.sum_add_distrib]
    rw [hsum]
    exact .joinAll _ r ih

theorem Halts.isSome_iff (h : f.Halts toLowercase service m u r) : r.isSome ↔ u = 0 := by
  induction h with
  | done a => simp
  | ask hq => simp
  | answer hq hs ha => simp
  | map _ ih => simpa using ih
  | first _ ih => exact ih
  | second _ _ _ ihk => exact ihk
  | @join _ _ _ _ _ _ _ _ r₁ r₂ _ _ ihf ihg =>
    rw [add_eq_zero, ← ihf, ← ihg]
    cases r₁ <;> cases r₂ <;> simp
  | joinAll m u r _ ih =>
    rw [mapM_id_ofFn, List.sum_ofFn, Finset.sum_eq_zero_iff]
    simp [ih]

end Halts

theorem Runs.mono {toLowercase : String → String} {service service' : Service} {α : Type}
    {f : Flow α} {m : Multiset TaskRequest} {r : Option α} (h : f.Runs toLowercase service m r)
    (hs : ∀ q v, service q v → service' q v) : f.Runs toLowercase service' m r := by
  induction h with
  | start f => exact .start f
  | done a => exact .done a
  | ask hq => exact .ask hq
  | answer hq hv ha => exact .answer hq (hs _ _ hv) ha
  | map _ ih => exact .map ih
  | first _ ih => exact .first ih
  | second _ _ ihf ihk => exact .second ihf ihk
  | join _ _ ihf ihg => exact .join ihf ihg
  | joinAll m r _ ih => exact .joinAll m r ih

end Flow

def answeredBy (answer : TaskRequest → Option String) : Service := fun q v => answer q = some v

instance (answer : TaskRequest → Option String) (q : TaskRequest) (v : String) :
    Decidable (answeredBy answer q v) :=
  inferInstanceAs (Decidable (answer q = some v))

namespace Flow

/--
The direct execution of a flow where every request has one answer at most: the requests that are
made, and the value if there is one.
-/
def eval (toLowercase : String → String) (answer : TaskRequest → Option String) :
    {α : Type} → Flow α → Multiset TaskRequest × Option α
  | _, .done a => (0, some a)
  | _, .call c =>
    match c.request? toLowercase with
    | none => (0, none)
    | some q => ({q}, (answer q).bind c.result?)
  | _, .map g f => ((f.eval toLowercase answer).1, (f.eval toLowercase answer).2.map g)
  | _, .andThen f k =>
    match f.eval toLowercase answer with
    | (m, none) => (m, none)
    | (m, some a) =>
      (m + ((k a).eval toLowercase answer).1, ((k a).eval toLowercase answer).2)
  | _, .join f g =>
    ((f.eval toLowercase answer).1 + (g.eval toLowercase answer).1,
      Option.map₂ Prod.mk (f.eval toLowercase answer).2 (g.eval toLowercase answer).2)
  | _, .joinAll _ fs =>
    ((List.ofFn fun i => ((fs i).eval toLowercase answer).1).sum,
      (List.ofFn fun i => ((fs i).eval toLowercase answer).2).mapM id)

variable {toLowercase : String → String} {answer : TaskRequest → Option String} {α : Type}
  {f : Flow α} {m : Multiset TaskRequest} {r : Option α}

/-- Any other direct execution is a part of this one, and none that is complete is different. -/
theorem Runs.eval (h : f.Runs toLowercase (answeredBy answer) m r) :
    m ≤ (f.eval toLowercase answer).1 ∧
      ∀ a, r = some a → f.eval toLowercase answer = (m, some a) := by
  induction h with
  | start f => exact ⟨Multiset.zero_le _, fun a ha => by cases ha⟩
  | done a => exact ⟨le_rfl, fun a ha => by cases ha; rfl⟩
  | ask hq => exact ⟨by simp [Flow.eval, hq], fun a ha => by cases ha⟩
  | answer hq hs ha =>
    refine ⟨by simp [Flow.eval, hq], fun a' ha' => ?_⟩
    cases ha'
    simp [Flow.eval, hq, show answer _ = some _ from hs, ha]
  | map _ ih =>
    refine ⟨ih.1, fun b hb => ?_⟩
    obtain ⟨a, rfl, rfl⟩ := Option.map_eq_some_iff.mp hb
    simp [Flow.eval, ih.2 a rfl]
  | @first _ _ f k m _ ih =>
    refine ⟨ih.1.trans ?_, fun b hb => by cases hb⟩
    simp only [Flow.eval]
    rcases f.eval toLowercase answer with ⟨m', _ | a⟩
    · exact le_rfl
    · exact Multiset.le_add_right _ _
  | second _ _ ihf ihk =>
    have hf := ihf.2 _ rfl
    refine ⟨?_, fun b hb => ?_⟩
    · simp only [Flow.eval, hf]
      exact add_le_add_right ihk.1 _
    · simp [Flow.eval, hf, ihk.2 b hb]
  | join _ _ ihf ihg =>
    refine ⟨add_le_add ihf.1 ihg.1, fun p hp => ?_⟩
    obtain ⟨a, b, ha, hb, rfl⟩ := Option.map₂_eq_some_iff.mp hp
    simp [Flow.eval, ihf.2 a ha, ihg.2 b hb]
  | @joinAll _ n fs m r _ ih =>
    refine ⟨?_, fun l hl => ?_⟩
    · simp only [Flow.eval, List.sum_ofFn]
      exact Finset.sum_le_sum fun i _ => (ih i).1
    · have heval (i : Fin n) : (fs i).eval toLowercase answer = (m i, r i) := by
        obtain ⟨a, ha⟩ := Option.isSome_iff_exists.mp
          (mapM_id_ofFn.mp (Option.isSome_of_eq_some hl) i)
        rw [ha]
        exact (ih i).2 a ha
      simp only [Flow.eval, heval, hl]

theorem eval_runs (f : Flow α) : f.Runs toLowercase (answeredBy answer)
    (f.eval toLowercase answer).1 (f.eval toLowercase answer).2 := by
  induction f with
  | done a => exact .done a
  | call c =>
    cases hq : c.request? toLowercase with
    | none =>
      simp only [Flow.eval, hq]
      exact .start _
    | some q =>
      simp only [Flow.eval, hq]
      cases hr : (answer q).bind c.result? with
      | none => exact .ask hq
      | some a =>
        obtain ⟨v, hv, ha⟩ := Option.bind_eq_some_iff.mp hr
        exact .answer hq hv ha
  | map g f ih => exact .map ih
  | andThen f k ihf ihk =>
    simp only [Flow.eval]
    generalize f.eval toLowercase answer = x at ihf
    rcases x with ⟨m, _ | a⟩
    · exact .first ihf
    · exact .second ihf (ihk a)
  | join f g ihf ihg => exact .join ihf ihg
  | joinAll n fs ih => exact .joinAll _ _ ih

theorem runs_iff {a : α} : f.Runs toLowercase (answeredBy answer) m (some a) ↔
    f.eval toLowercase answer = (m, some a) := by
  constructor
  · exact fun h => h.eval.2 a rfl
  · intro h
    have hruns : f.Runs toLowercase (answeredBy answer) _ _ := f.eval_runs
    rwa [h] at hruns

end Flow

end DurableTask
