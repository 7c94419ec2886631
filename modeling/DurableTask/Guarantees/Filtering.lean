import DurableTask.Telemetry.ReplayFilter
import Mathlib.Data.List.Induction

/-! # What the replay filter follows

The filter looks at the flag of the outermost span. The flag is what the last
callback on that span gave to `replaying`, and a callback that gives nothing
clears it.
-/

namespace DurableTask

namespace ReplayFilter

def replayingValue (field : String × FieldValue) : Option Bool :=
  match field.2 with
  | .bool value => if field.1 = "replaying" then some value else none
  | .debug _ => none

def replayingValues (fields : Fields) : List Bool := fields.filterMap replayingValue

theorem recordField_eq (visitor : Bool) (field : String × FieldValue) :
    recordField visitor field = (replayingValue field).getD visitor := by
  obtain ⟨name, value | text⟩ := field
  · by_cases hname : name = "replaying"
    · simp [recordField, replayingValue, hname]
    · simp [recordField, replayingValue, hname]
  · rfl

theorem recordFields_append (fields : Fields) (field : String × FieldValue) :
    recordFields (fields ++ [field]) = recordField (recordFields fields) field :=
  List.foldl_concat _ _ _ _

theorem recordFields_eq (fields : Fields) :
    recordFields fields = (replayingValues fields).getLast?.getD false := by
  induction fields using List.reverseRecOn with
  | nil => rfl
  | append_singleton fields field ih =>
    rw [recordFields_append, recordField_eq, ih, replayingValues, replayingValues,
      List.filterMap_append]
    cases h : replayingValue field with
    | none => simp [h]
    | some value => simp [h]

end ReplayFilter

open ReplayFilter

variable {Id : Type} [DecidableEq Id]

namespace Callback

def id : Callback Id → Id
  | .newSpan id _ _ => id
  | .record id _ => id

def fields : Callback Id → Fields
  | .newSpan _ _ attrs => attrs
  | .record _ values => values

/-- The callback creates a span, or records none of the values of `replaying`. -/
def IsOther : Callback Id → Prop
  | .newSpan _ _ _ => True
  | .record _ values => replayingValues values = []

end Callback

namespace ReplayFilter

variable {spans : List (SpanData Id)} {span : SpanData Id} {callbacks past : List (Callback Id)}
  {c : Callback Id} {id root : Id}

/-- The latest value given to `replaying` on the span. -/
def latest (callbacks : List (Callback Id)) (id : Id) : Option Bool :=
  ((callbacks.filter (·.id = id)).flatMap (replayingValues ·.fields)).getLast?

def ids (spans : List (SpanData Id)) : List Id := spans.map (·.id)

/-- A new span has an id of its own and a parent that exists; records are made on spans. -/
def Possible (spans : List (SpanData Id)) : Callback Id → Prop
  | .newSpan id parent _ => id ∉ ids spans ∧ ∀ p ∈ parent, p ∈ ids spans
  | .record id _ => id ∈ ids spans

/-- Every callback is possible when it comes. -/
def Valid (callbacks : List (Callback Id)) : Prop :=
  ∀ past c later, callbacks = past ++ c :: later → Possible (run past) c

/-- The span is the outermost one of its own scope. -/
def Outermost (spans : List (SpanData Id)) (id : Id) : Prop :=
  (scope spans id).getLast? = some id

/-- An event in a span is rejected exactly when the latest value given to `replaying` on the
outermost span of its scope is true. -/
def Right (callbacks : List (Callback Id)) : Prop :=
  ∀ id root, (scope (run callbacks) id).getLast? = some root →
    (eventEnabled (run callbacks) (some id) = false ↔ latest callbacks root = some true)

/-- The filter is right after every callback, and creating spans or recording other fields does
not change its answer for any span. -/
def Followed (callbacks : List (Callback Id)) : Prop :=
  (∀ past later, callbacks = past ++ later → Right past) ∧
    ∀ past c later, callbacks = past ++ c :: later → c.IsOther →
      ∀ id ∈ ids (run past),
        eventEnabled (run (past ++ [c])) (some id) = eventEnabled (run past) (some id)

/-- A record on an outermost span gives a value to `replaying` if the latest value is true. -/
def Kept (callbacks : List (Callback Id)) : Prop :=
  ∀ past id values later, callbacks = past ++ .record id values :: later →
    Outermost (run past) id → latest past id = some true → replayingValues values ≠ []

@[simp] theorem run_append (callbacks : List (Callback Id)) (c : Callback Id) :
    run (callbacks ++ [c]) = step (run callbacks) c :=
  List.foldl_concat _ _ _ _

theorem latest_append (callbacks : List (Callback Id)) (c : Callback Id) (id : Id) :
    latest (callbacks ++ [c]) id =
      if c.id = id then (replayingValues c.fields).getLast?.or (latest callbacks id)
      else latest callbacks id := by
  rw [latest, List.filter_append]
  by_cases h : c.id = id
  · rw [if_pos h]
    simp [h, latest, List.getLast?_append]
  · rw [if_neg h]
    simp [h, latest]

theorem latest_append_self (callbacks : List (Callback Id)) (c : Callback Id) :
    latest (callbacks ++ [c]) c.id =
      (replayingValues c.fields).getLast?.or (latest callbacks c.id) := by
  rw [latest_append, if_pos rfl]

theorem latest_append_of_ne (callbacks : List (Callback Id)) (h : c.id ≠ id) :
    latest (callbacks ++ [c]) id = latest callbacks id := by
  rw [latest_append, if_neg h]

omit [DecidableEq Id] in
theorem ids_onNewSpan (id : Id) (parent : Option Id) (attrs : Fields)
    (spans : List (SpanData Id)) : ids (onNewSpan id parent attrs spans) = id :: ids spans := rfl

theorem ids_onRecord (values : Fields) (spans : List (SpanData Id)) (id : Id) :
    ids (onRecord id values spans) = ids spans := by
  rw [ids, ids, onRecord, List.map_map]
  refine List.map_congr_left fun span _ => ?_
  by_cases h : span.id = id
  · simp [h]
  · simp [h]

theorem scope_onRecord (values : Fields) (spans : List (SpanData Id)) (id id' : Id) :
    scope (onRecord id values spans) id' = scope spans id' := by
  induction spans generalizing id' with
  | nil => rfl
  | cons span older ih =>
    have hspan : onRecord id values (span :: older) =
        (if span.id = id then { span with replayField := recordFields values } else span) ::
          onRecord id values older := rfl
    have hscope : scope (onRecord id values older) = scope older := funext ih
    rw [hspan]
    by_cases h : span.id = id
    · rw [if_pos h, scope, scope, hscope]
    · rw [if_neg h, scope, scope, hscope]

theorem scope_onNewSpan {id' : Id} (h : id' ≠ id) (parent : Option Id) (attrs : Fields) :
    scope (onNewSpan id parent attrs spans) id' = scope spans id' := by
  rw [onNewSpan, scope, if_neg (Ne.symm h)]

theorem mem_ids_of_mem_scope (h : root ∈ scope spans id) : root ∈ ids spans := by
  induction spans generalizing id with
  | nil => cases h
  | cons span older ih =>
    rw [scope] at h
    split at h
    · rename_i hid
      obtain rfl | h := List.mem_cons.mp h
      · exact List.mem_cons.mpr (.inl hid.symm)
      · cases hparent : span.parent with
        | none =>
          rw [hparent] at h
          cases h
        | some parent =>
          rw [hparent] at h
          exact List.mem_cons_of_mem _ (ih h)
    · exact List.mem_cons_of_mem _ (ih h)

/-- The last span of a scope is the outermost one of its own scope. -/
theorem outermost_of_getLast? (hnodup : (ids spans).Nodup)
    (h : (scope spans id).getLast? = some root) : Outermost spans root := by
  induction spans generalizing id with
  | nil => cases h
  | cons span older ih =>
    obtain ⟨hnew, hnodup⟩ := List.nodup_cons.mp hnodup
    have hlift {id : Id} (hlast : (scope older id).getLast? = some root) :
        Outermost (span :: older) root := by
      have hne : span.id ≠ root := by
        rintro rfl
        exact hnew (mem_ids_of_mem_scope (List.mem_of_getLast? hlast))
      rw [Outermost, scope, if_neg hne]
      exact ih hnodup hlast
    rw [scope] at h
    split at h
    · rename_i hid
      obtain rfl := hid
      cases htail : span.parent.elim [] (scope older) with
      | nil =>
        rw [htail, List.getLast?_singleton] at h
        obtain rfl := Option.some.inj h
        rw [Outermost, scope, if_pos rfl, htail, List.getLast?_singleton]
      | cons id' rest =>
        rw [htail, List.getLast?_cons_cons, ← htail] at h
        cases hparent : span.parent with
        | none =>
          rw [hparent] at h
          cases h
        | some parent =>
          rw [hparent] at h
          exact hlift h
    · exact hlift h

theorem find?_id (hnodup : (ids spans).Nodup) (hspan : span ∈ spans) :
    spans.find? (·.id = span.id) = some span := by
  induction spans with
  | nil => cases hspan
  | cons first older ih =>
    obtain ⟨hnew, hnodup⟩ := List.nodup_cons.mp hnodup
    obtain rfl | hspan := List.mem_cons.mp hspan
    · exact List.find?_cons_of_pos (decide_eq_true rfl)
    · have hne : first.id ≠ span.id := by
        rintro heq
        exact hnew (List.mem_map.mpr ⟨span, hspan, heq.symm⟩)
      rw [List.find?_cons_of_neg (by simpa using hne)]
      exact ih hnodup hspan

theorem eventEnabled_eq (hnodup : (ids spans).Nodup) (hspan : span ∈ spans)
    (h : (scope spans id).getLast? = some span.id) :
    eventEnabled spans (some id) = !span.replayField := by
  rw [eventEnabled, Option.map_some, Option.bind_some, h]
  simp [find?_id hnodup hspan]

theorem exists_span_of_getLast? (h : (scope spans id).getLast? = some root) :
    ∃ span ∈ spans, span.id = root :=
  List.mem_map.mp (mem_ids_of_mem_scope (List.mem_of_getLast? h))

theorem Valid.of_append {later : List (Callback Id)} (h : Valid (past ++ later)) :
    Valid past := by
  rintro past' c later' rfl
  exact h past' c (later' ++ later) (by simp)

theorem Valid.possible (h : Valid (callbacks ++ [c])) : Possible (run callbacks) c :=
  h callbacks c [] rfl

theorem Kept.of_append {later : List (Callback Id)} (h : Kept (past ++ later)) : Kept past := by
  rintro past' id values later' rfl
  exact h past' id values (later' ++ later) (by simp)

theorem Valid.nodup (h : Valid callbacks) : (ids (run callbacks)).Nodup := by
  induction callbacks using List.reverseRecOn with
  | nil => exact .nil
  | append_singleton past c ih =>
    rw [run_append]
    cases c with
    | newSpan id parent attrs =>
      rw [step, ids_onNewSpan, List.nodup_cons]
      exact ⟨h.possible.1, ih h.of_append⟩
    | record id values =>
      rw [step, ids_onRecord]
      exact ih h.of_append

theorem latest_eq_none (h : Valid callbacks) (hid : id ∉ ids (run callbacks)) :
    latest callbacks id = none := by
  induction callbacks using List.reverseRecOn with
  | nil => rfl
  | append_singleton past c ih =>
    rw [run_append] at hid
    cases c with
    | newSpan id' parent attrs =>
      rw [step, ids_onNewSpan, List.mem_cons, not_or] at hid
      rw [latest_append_of_ne past (Ne.symm hid.1)]
      exact ih h.of_append hid.2
    | record id' values =>
      rw [step, ids_onRecord] at hid
      have hne : (Callback.record id' values).id ≠ id := by
        rintro rfl
        exact hid h.possible
      rw [latest_append_of_ne past hne]
      exact ih h.of_append hid

theorem flag_of_values {fields : Fields} {value : Option Bool}
    (h : replayingValues fields = [] → value ≠ some true) :
    recordFields fields = true ↔ (replayingValues fields).getLast?.or value = some true := by
  rw [recordFields_eq]
  cases hlast : (replayingValues fields).getLast? with
  | none => simpa using h (List.getLast?_eq_none_iff.mp hlast)
  | some given => simp

/-- While records keep what is true, the flag of an outermost span is the latest value. -/
theorem flag_iff_latest (h : Valid callbacks) (hkept : Kept callbacks)
    (hspan : span ∈ run callbacks) (hout : Outermost (run callbacks) span.id) :
    span.replayField = true ↔ latest callbacks span.id = some true := by
  induction callbacks using List.reverseRecOn generalizing span with
  | nil => cases hspan
  | append_singleton past c ih =>
    have hnodup := h.of_append.nodup
    have hpossible := h.possible
    rw [run_append] at hspan hout
    cases c with
    | newSpan id parent attrs =>
      obtain rfl | hold := List.mem_cons.mp hspan
      · have hnone := latest_eq_none h.of_append hpossible.1
        have hself := latest_append_self past (.newSpan id parent attrs)
        refine Iff.trans ?_ (Eq.to_iff (congrArg (· = some true) hself.symm))
        refine flag_of_values ?_
        rintro -
        simp [Callback.id, hnone]
      · have hne : span.id ≠ id := by
          rintro rfl
          exact hpossible.1 (List.mem_map_of_mem hold)
        rw [latest_append_of_ne past (Ne.symm hne)]
        rw [Outermost, step, scope_onNewSpan hne] at hout
        exact ih h.of_append hkept.of_append hold hout
    | record id values =>
      obtain ⟨old, hold, rfl⟩ := List.mem_map.mp hspan
      rw [Outermost, step, scope_onRecord] at hout
      by_cases hid : old.id = id
      · obtain rfl := hid
        rw [if_pos rfl] at hout ⊢
        have hself := latest_append_self past (.record old.id values)
        refine Iff.trans ?_ (Eq.to_iff (congrArg (· = some true) hself.symm))
        refine flag_of_values ?_
        rintro hnil htrue
        exact hkept past old.id values [] rfl hout htrue hnil
      · rw [if_neg hid] at hout ⊢
        rw [latest_append_of_ne past (Ne.symm hid)]
        exact ih h.of_append hkept.of_append hold hout

theorem Valid.nil : Valid ([] : List (Callback Id)) := by
  rintro past c later hnil
  cases past <;> cases hnil

theorem Valid.append (h : Valid callbacks) (hc : Possible (run callbacks) c) :
    Valid (callbacks ++ [c]) := by
  rintro past c' later heq
  obtain rfl | ⟨later, last, rfl⟩ := List.eq_nil_or_concat later
  · obtain ⟨rfl, hlast⟩ := List.append_inj' heq rfl
    obtain rfl := List.singleton_inj.mp hlast
    exact hc
  · rw [List.concat_eq_append, ← List.cons_append, ← List.append_assoc] at heq
    obtain ⟨rfl, -⟩ := List.append_inj' heq rfl
    exact h past c' later rfl

theorem right_of_kept (h : Valid callbacks) (hkept : Kept callbacks) : Right callbacks := by
  rintro id root hroot
  obtain ⟨span, hspan, rfl⟩ := exists_span_of_getLast? hroot
  rw [eventEnabled_eq h.nodup hspan hroot, Bool.not_eq_false']
  exact flag_iff_latest h hkept hspan (outermost_of_getLast? h.nodup hroot)

theorem scope_step (hc : Possible spans c) (hid : id ∈ ids spans) :
    scope (step spans c) id = scope spans id := by
  cases c with
  | newSpan id' parent attrs =>
    have hne : id ≠ id' := by
      rintro rfl
      exact hc.1 hid
    exact scope_onNewSpan hne parent attrs
  | record id' values => exact scope_onRecord values spans id' id

theorem latest_append_of_isOther (hc : Possible (run past) c) (hother : c.IsOther)
    (hid : id ∈ ids (run past)) : latest (past ++ [c]) id = latest past id := by
  by_cases hsame : c.id = id
  · obtain rfl := hsame
    cases c with
    | newSpan id' parent attrs => exact absurd hid hc.1
    | record id' values =>
      have hnil : replayingValues values = [] := hother
      have hself := latest_append_self past (.record id' values)
      rw [Callback.fields, hnil] at hself
      exact hself
  · exact latest_append_of_ne past hsame

theorem eventEnabled_congr_of_right (hright : Right past) (hright' : Right (past ++ [c]))
    (hc : Possible (run past) c) (hother : c.IsOther) (hid : id ∈ ids (run past)) :
    eventEnabled (run (past ++ [c])) (some id) = eventEnabled (run past) (some id) := by
  have hscope : scope (run (past ++ [c])) id = scope (run past) id := by
    rw [run_append]
    exact scope_step hc hid
  cases hlast : (scope (run past) id).getLast? with
  | none =>
    rw [eventEnabled, eventEnabled, Option.map_some, Option.map_some, Option.bind_some,
      Option.bind_some, hscope, hlast]
  | some root =>
    have hroot := mem_ids_of_mem_scope (List.mem_of_getLast? hlast)
    have hiff := hright id root hlast
    have hiff' := hright' id root (by rw [hscope, hlast])
    rw [latest_append_of_isOther hc hother hroot, ← hiff] at hiff'
    cases henabled : eventEnabled (run past) (some id) with
    | false => exact hiff'.mpr henabled
    | true =>
      rw [henabled] at hiff'
      simpa using hiff'

/-- The filter follows the latest value through a run exactly when no record on an outermost span
whose latest value is true leaves `replaying` out. -/
theorem followed_iff_kept (h : Valid callbacks) : Followed callbacks ↔ Kept callbacks := by
  constructor
  · rintro ⟨hright, -⟩ past id values later rfl hout htrue hnil
    have happ : past ++ .record id values :: later = (past ++ [.record id values]) ++ later :=
      List.append_cons past _ later
    have hpossible : id ∈ ids (run past) := h past _ later rfl
    rw [happ] at h
    have hvalid := h.of_append
    obtain ⟨old, hold, rfl⟩ := List.mem_map.mp hpossible
    have hspan : { old with replayField := recordFields values } ∈
        run (past ++ [.record old.id values]) := by
      rw [run_append]
      exact List.mem_map.mpr ⟨old, hold, if_pos rfl⟩
    have hlast : (scope (run (past ++ [.record old.id values])) old.id).getLast? =
        some old.id := by
      rw [run_append, step, scope_onRecord]
      exact hout
    have hlatest : latest (past ++ [.record old.id values]) old.id = some true := by
      rw [latest_append_of_isOther (c := .record old.id values) hpossible hnil hpossible, htrue]
    have hrejected := (hright _ later happ old.id old.id hlast).mpr hlatest
    rw [eventEnabled_eq hvalid.nodup hspan hlast, recordFields_eq, hnil] at hrejected
    cases hrejected
  · rintro hkept
    have hrights : ∀ past later, callbacks = past ++ later → Right past := by
      rintro past later rfl
      exact right_of_kept h.of_append hkept.of_append
    refine ⟨hrights, ?_⟩
    rintro past c later rfl hother id hid
    exact eventEnabled_congr_of_right (hrights past (c :: later) rfl)
      (hrights (past ++ [c]) later (by simp)) (h past c later rfl) hother hid

def replaySpan (values : Fields) : List (Callback ℕ) :=
  [.newSpan 0 none [("replaying", .bool true)], .record 0 values]

theorem replaySpan_valid (values : Fields) : Valid (replaySpan values) := by
  have hnew : Possible (run []) (.newSpan 0 none [("replaying", .bool true)]) := by
    refine ⟨List.not_mem_nil, ?_⟩
    rintro p hp
    cases hp
  exact (Valid.nil.append hnew).append (List.mem_singleton.mpr rfl)

theorem replaySpan_followed : Followed (replaySpan [("replaying", .bool false)]) := by
  refine (followed_iff_kept (replaySpan_valid _)).mpr ?_
  rintro past id values later heq - - hnil
  have hmem : Callback.record id values ∈ replaySpan [("replaying", .bool false)] := by
    simp [heq]
  simp only [replaySpan, List.mem_cons, reduceCtorEq, Callback.record.injEq, List.not_mem_nil,
    or_false, false_or] at hmem
  rw [hmem.2] at hnil
  cases hnil

/-- A record of another field on the span of a replay lets its events pass. -/
theorem replaySpan_lost :
    ¬ (∀ callbacks : List (Callback ℕ), Valid callbacks → Followed callbacks) ∧
      latest (replaySpan [("retries", .debug "1")]) 0 = some true ∧
      eventEnabled (run (replaySpan [("retries", .debug "1")])) (some 0) = true := by
  refine ⟨?_, by decide, by decide⟩
  rintro h
  have hright := (h _ (replaySpan_valid [("retries", .debug "1")])).1 _ [] (List.append_nil _).symm
  exact absurd ((hright 0 0 (by decide)).mpr (by decide)) (by decide)

end ReplayFilter

end DurableTask
