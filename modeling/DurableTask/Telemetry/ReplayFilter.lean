import Mathlib.Data.List.Basic

/-! # The replay filter

Spans carry a flag that the filter keeps among their extensions. It is set from
the fields that a span is created with, and again at each `record`.
-/

namespace DurableTask

/-- A recorded value; only booleans reach a visitor that does not print. -/
inductive FieldValue where
  | bool (value : Bool)
  | debug (text : String)
  deriving DecidableEq, Repr

/-- The fields that one call records, with their names. -/
abbrev Fields : Type := List (String × FieldValue)

def recordField (visitor : Bool) (field : String × FieldValue) : Bool :=
  match field.2 with
  | .bool value => if field.1 = "replaying" then value else visitor
  | .debug _ => visitor

def recordFields (fields : Fields) : Bool := fields.foldl recordField false

/-- A span with its parent and the `ReplayField` among its extensions. -/
structure SpanData (Id : Type) where
  id : Id
  parent : Option Id
  replayField : Bool
  deriving DecidableEq, Repr

/-- What the subscriber reports to the filter. -/
inductive Callback (Id : Type) where
  | newSpan (id : Id) (parent : Option Id) (attrs : Fields)
  | record (id : Id) (values : Fields)
  deriving DecidableEq, Repr

namespace ReplayFilter

variable {Id : Type} [DecidableEq Id]

def scope : List (SpanData Id) → Id → List Id
  | [], _ => []
  | span :: older, id =>
    if span.id = id then id :: span.parent.elim [] (scope older)
    else scope older id

def onNewSpan (id : Id) (parent : Option Id) (attrs : Fields) (spans : List (SpanData Id)) :
    List (SpanData Id) :=
  ⟨id, parent, recordFields attrs⟩ :: spans

def onRecord (id : Id) (values : Fields) (spans : List (SpanData Id)) : List (SpanData Id) :=
  spans.map fun span =>
    if span.id = id then { span with replayField := recordFields values } else span

def eventEnabled (spans : List (SpanData Id)) (current : Option Id) : Bool :=
  match (current.map (scope spans)).bind List.getLast? with
  | none => true
  | some root =>
    match spans.find? (·.id = root) with
    | none => true
    | some span => !span.replayField

def step (spans : List (SpanData Id)) : Callback Id → List (SpanData Id)
  | .newSpan id parent attrs => onNewSpan id parent attrs spans
  | .record id values => onRecord id values spans

def run (callbacks : List (Callback Id)) : List (SpanData Id) := callbacks.foldl step []

end ReplayFilter

end DurableTask
