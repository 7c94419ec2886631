import DurableTask.Telemetry.TraceState
import DurableTask.Text.Numerals

/-! # Trace contexts

A span's trace context travels as text: `trace_parent` holds the version, the
ids and the flags between dashes, and `trace_state` a header of its own.
-/

namespace DurableTask

/-- A span context, with the flags as the byte that they are. -/
structure SpanContext (TraceId SpanId TraceState : Type) where
  traceId : TraceId
  spanId : SpanId
  traceFlags : UInt8
  isRemote : Bool
  traceState : TraceState
  deriving DecidableEq

def SpanContext.isSampled {TraceId SpanId TraceState : Type}
    (sc : SpanContext TraceId SpanId TraceState) : Bool :=
  sc.traceFlags &&& 1 == 1

/-- The message, without the fields that no function here reads. -/
structure TraceContext where
  traceParent : String
  spanId : String
  traceState : Option String
  deriving DecidableEq, Repr

/-- What the trace context functions use of `opentelemetry`: how ids and trace states are printed
and read, and where a context keeps its span context. -/
structure Opentelemetry (TraceId SpanId TraceState Context : Type) where
  traceIdFromHex : String → Option TraceId
  spanIdFromHex : String → Option SpanId
  showTraceId : TraceId → String
  showSpanId : SpanId → String
  traceStateFromStr : String → Option TraceState
  header : TraceState → String
  traceStateDefault : TraceState
  withRemoteSpanContext : Context → SpanContext TraceId SpanId TraceState → Context
  spanContext : Context → SpanContext TraceId SpanId TraceState

/-- Why decoding gives no span context: an `Err(())`, or one of the two panics of `unwrap`. -/
inductive DecodeFailure where
  | err
  | missingPart
  | malformedTraceState
  deriving DecidableEq, Repr

/-- `map_err(|_| ())?`. -/
def okOrErr {α : Type} : Option α → Except DecodeFailure α
  | none => .error .err
  | some a => .ok a

/-- `unwrap`, with the panic that it raises. -/
def unwrapOr {α : Type} (panic : DecodeFailure) : Option α → Except DecodeFailure α
  | none => .error panic
  | some a => .ok a

@[simp] theorem okOrErr_none_bind {α β : Type} (f : α → Except DecodeFailure β) :
    okOrErr none >>= f = .error .err := rfl

@[simp] theorem okOrErr_some_bind {α β : Type} (a : α) (f : α → Except DecodeFailure β) :
    okOrErr (some a) >>= f = f a := rfl

@[simp] theorem unwrapOr_none_bind {α β : Type} (panic : DecodeFailure)
    (f : α → Except DecodeFailure β) : unwrapOr panic none >>= f = .error panic := rfl

@[simp] theorem unwrapOr_some_bind {α β : Type} (panic : DecodeFailure) (a : α)
    (f : α → Except DecodeFailure β) : unwrapOr panic (some a) >>= f = f a := rfl

def traceFlagsFromHex (src : String) : Option UInt8 :=
  (Text.fromStrRadix 256 16 src).map UInt8.ofNat

/-- A byte is read back from its decimal form exactly when that is a single digit. -/
theorem traceFlagsFromHex_toString_iff (traceFlags : UInt8) :
    traceFlagsFromHex (toString traceFlags) = some traceFlags ↔ traceFlags < 10 := by
  have hrepr : toString traceFlags = traceFlags.toNat.repr := rfl
  have hten : (10 : UInt8).toNat = 10 := rfl
  rw [UInt8.lt_iff_toNat_lt, hten,
    ← Text.fromStrRadix_repr_iff (by decide : 10 < 16) (UInt8.toNat_lt traceFlags), hrepr]
  constructor
  · rintro h
    obtain ⟨n, hn, hflags⟩ := Option.map_eq_some_iff.mp h
    have hlt : n < 256 := Text.lt_of_fromStrRadix (by decide) hn
    rw [hn, ← hflags, UInt8.toNat_ofNat', Nat.mod_eq_of_lt hlt]
  · rintro h
    rw [traceFlagsFromHex, h, Option.map_some, UInt8.ofNat_toNat]

namespace Opentelemetry

variable {TraceId SpanId TraceState Context : Type}
  (api : Opentelemetry TraceId SpanId TraceState Context)

def spanContextFromTraceContext (tc : TraceContext) :
    Except DecodeFailure (SpanContext TraceId SpanId TraceState) :=
  let parts := strSplit '-' tc.traceParent
  match parts with
  | [_, part1, part2, part3] => do
    let traceId ← okOrErr (api.traceIdFromHex part1)
    let spanId ← okOrErr (api.spanIdFromHex part2)
    let traceFlags ← okOrErr (traceFlagsFromHex part3)
    match tc.traceState with
    | some traceState => do
      let traceState ← unwrapOr .malformedTraceState (api.traceStateFromStr traceState)
      .ok ⟨traceId, spanId, traceFlags, true, traceState⟩
    | none => .ok ⟨traceId, spanId, traceFlags, true, api.traceStateDefault⟩
  -- backwards compatibility, entered at every other number of parts
  | parts => do
    let traceId ← okOrErr (api.traceIdFromHex tc.traceParent)
    let spanId ← okOrErr (api.spanIdFromHex tc.spanId)
    let part3 ← unwrapOr .missingPart parts[3]?
    let traceFlags ← okOrErr (traceFlagsFromHex part3)
    .ok ⟨traceId, spanId, traceFlags, true, api.traceStateDefault⟩

def contextFromTraceContext (ctx : Context) (tc : TraceContext) : Except DecodeFailure Context :=
  match tc.traceState with
  | none => .ok ctx
  | some _ => do
    let spanContext ← api.spanContextFromTraceContext tc
    .ok (api.withRemoteSpanContext ctx spanContext)

def traceContextFromSpan (span : Option (SpanContext TraceId SpanId TraceState)) :
    Option TraceContext :=
  match span with
  | none => none
  | some spanContext =>
    if spanContext.isSampled = false then none
    else
      let traceParent := "00-" ++ api.showTraceId spanContext.traceId ++ "-" ++
        api.showSpanId spanContext.spanId ++ "-" ++ toString spanContext.traceFlags
      let traceState :=
        if api.header spanContext.traceState ≠ "" then some (api.header spanContext.traceState)
        else none
      some ⟨traceParent, "", traceState⟩

/-- What is relied on: ids print as lower-case hexadecimal and are read back, a trace state is read
back from a header that is not empty, and a context holds the remote span context it was given. -/
structure Lawful (api : Opentelemetry TraceId SpanId TraceState Context) : Prop where
  showTraceId_hex : ∀ id, ∀ c ∈ (api.showTraceId id).toList, c ∈ Text.hexDigits
  traceIdFromHex_show : ∀ id, api.traceIdFromHex (api.showTraceId id) = some id
  showSpanId_hex : ∀ id, ∀ c ∈ (api.showSpanId id).toList, c ∈ Text.hexDigits
  spanIdFromHex_show : ∀ id, api.spanIdFromHex (api.showSpanId id) = some id
  traceStateFromStr_header : ∀ traceState, api.header traceState ≠ "" →
    api.traceStateFromStr (api.header traceState) = some traceState
  spanContext_withRemote : ∀ ctx sc, api.spanContext (api.withRemoteSpanContext ctx sc) = sc

variable {api} {tc : TraceContext}

theorem spanContextFromTraceContext_of_four {version part1 part2 part3 : String}
    (h : strSplit '-' tc.traceParent = [version, part1, part2, part3]) :
    api.spanContextFromTraceContext tc = (do
      let traceId ← okOrErr (api.traceIdFromHex part1)
      let spanId ← okOrErr (api.spanIdFromHex part2)
      let traceFlags ← okOrErr (traceFlagsFromHex part3)
      match tc.traceState with
      | some traceState => do
        let traceState ← unwrapOr .malformedTraceState (api.traceStateFromStr traceState)
        .ok ⟨traceId, spanId, traceFlags, true, traceState⟩
      | none => .ok ⟨traceId, spanId, traceFlags, true, api.traceStateDefault⟩) := by
  rw [spanContextFromTraceContext, h]

theorem spanContextFromTraceContext_of_ne_four (h : (strSplit '-' tc.traceParent).length ≠ 4) :
    api.spanContextFromTraceContext tc = (do
      let traceId ← okOrErr (api.traceIdFromHex tc.traceParent)
      let spanId ← okOrErr (api.spanIdFromHex tc.spanId)
      let part3 ← unwrapOr .missingPart (strSplit '-' tc.traceParent)[3]?
      let traceFlags ← okOrErr (traceFlagsFromHex part3)
      .ok ⟨traceId, spanId, traceFlags, true, api.traceStateDefault⟩) := by
  rw [spanContextFromTraceContext]
  split
  · rename_i hparts
    rw [hparts] at h
    exact absurd rfl h
  · rfl

end Opentelemetry

abbrev HexSpanContext : Type := SpanContext (Fin (2 ^ 128)) (Fin (2 ^ 64)) TraceState

def hexTelemetry : Opentelemetry (Fin (2 ^ 128)) (Fin (2 ^ 64)) TraceState HexSpanContext where
  traceIdFromHex src := (Text.fromStrRadix (2 ^ 128) 16 src).map (Fin.ofNat _)
  spanIdFromHex src := (Text.fromStrRadix (2 ^ 64) 16 src).map (Fin.ofNat _)
  showTraceId id := Text.fixedWidth 32 16 id
  showSpanId id := Text.fixedWidth 16 16 id
  traceStateFromStr := TraceState.fromStr
  header := TraceState.header
  traceStateDefault := .empty
  withRemoteSpanContext _ sc := sc
  spanContext ctx := ctx

theorem fin_fromHex_fixedWidth {n : ℕ} [NeZero n] (width : ℕ) (id : Fin n) :
    (Text.fromStrRadix n 16 (Text.fixedWidth width 16 id)).map (Fin.ofNat n) = some id := by
  rw [Text.fromStrRadix_fixedWidth (by decide) (by decide) id.isLt, Option.map_some,
    Fin.ofNat_val_eq_self]

theorem hexTelemetry_lawful : hexTelemetry.Lawful where
  showTraceId_hex id c hc := Text.mem_hexDigits_of_mem_fixedWidth (by decide) (by decide) hc
  traceIdFromHex_show id := by
    simp only [hexTelemetry]
    exact fin_fromHex_fixedWidth 32 id
  showSpanId_hex id c hc := Text.mem_hexDigits_of_mem_fixedWidth (by decide) (by decide) hc
  spanIdFromHex_show id := by
    simp only [hexTelemetry]
    exact fin_fromHex_fixedWidth 16 id
  traceStateFromStr_header traceState _ := traceState.fromStr_header
  spanContext_withRemote ctx sc := rfl

def sampledSpan (traceFlags : UInt8) (traceState : TraceState) : HexSpanContext :=
  ⟨1, 1, traceFlags, false, traceState⟩

def noSpan : HexSpanContext := ⟨0, 0, 0, false, .empty⟩

def vendorState : TraceState := ⟨[("vendor", "1")], by decide⟩

end DurableTask
