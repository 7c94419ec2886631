import DurableTask.Telemetry.TraceContext

/-! # Trace contexts that travel

What becomes of a trace context on the way from one worker to the next: which
texts the decoder accepts, and which span contexts come back from it.
-/

namespace DurableTask

namespace Opentelemetry

variable {TraceId SpanId TraceState Context : Type}
  {api : Opentelemetry TraceId SpanId TraceState Context} {tc : TraceContext}

/-- The current format: four parts, the last three of them in hexadecimal. -/
structure CurrentFormat (api : Opentelemetry TraceId SpanId TraceState Context)
    (tc : TraceContext) (traceId : TraceId) (spanId : SpanId) (traceFlags : UInt8) : Prop where
  parts : ∃ version part1 part2 part3,
    strSplit '-' tc.traceParent = [version, part1, part2, part3] ∧
      api.traceIdFromHex part1 = some traceId ∧ api.spanIdFromHex part2 = some spanId ∧
      traceFlagsFromHex part3 = some traceFlags

/-- The older format: a bare trace id, and the span id in a field of its own. -/
structure OlderFormat (api : Opentelemetry TraceId SpanId TraceState Context)
    (tc : TraceContext) (traceId : TraceId) (spanId : SpanId) : Prop where
  bare : '-' ∉ tc.traceParent.toList
  traceId_eq : api.traceIdFromHex tc.traceParent = some traceId
  spanId_eq : api.spanIdFromHex tc.spanId = some spanId

/-- There is a trace state that cannot be read. -/
def Malformed (api : Opentelemetry TraceId SpanId TraceState Context) (tc : TraceContext) : Prop :=
  ∃ traceState ∈ tc.traceState, api.traceStateFromStr traceState = none

/-- Decoding does not panic and accepts both formats; a malformed trace state gives an error or
is ignored. -/
structure Accepts (api : Opentelemetry TraceId SpanId TraceState Context) (tc : TraceContext) :
    Prop where
  no_panic : ∀ failure, api.spanContextFromTraceContext tc = .error failure → failure = .err
  current : ∀ traceId spanId traceFlags, api.CurrentFormat tc traceId spanId traceFlags →
    (∃ sc, api.spanContextFromTraceContext tc = .ok sc ∧ sc.traceId = traceId ∧
        sc.spanId = spanId ∧ sc.traceFlags = traceFlags) ∨
      api.Malformed tc ∧ api.spanContextFromTraceContext tc = .error .err
  older : ∀ traceId spanId, api.OlderFormat tc traceId spanId →
    ∃ sc, api.spanContextFromTraceContext tc = .ok sc ∧ sc.traceId = traceId ∧
      sc.spanId = spanId

/-- Both ids are read, and there is no part that could be the flags. -/
def LacksFlags (api : Opentelemetry TraceId SpanId TraceState Context) (tc : TraceContext) :
    Prop :=
  (strSplit '-' tc.traceParent).length < 4 ∧ (∃ traceId, api.traceIdFromHex tc.traceParent =
    some traceId) ∧ ∃ spanId, api.spanIdFromHex tc.spanId = some spanId

theorem of_currentFormat {traceId : TraceId} {spanId : SpanId} {traceFlags : UInt8}
    (h : api.CurrentFormat tc traceId spanId traceFlags) :
    api.Malformed tc ∧ api.spanContextFromTraceContext tc = .error .malformedTraceState ∨
      ¬ api.Malformed tc ∧ ∃ traceState, api.spanContextFromTraceContext tc =
        .ok ⟨traceId, spanId, traceFlags, true, traceState⟩ := by
  obtain ⟨version, part1, part2, part3, hparts, htraceId, hspanId, hflags⟩ := h.parts
  rw [spanContextFromTraceContext_of_four hparts, htraceId, hspanId, hflags, okOrErr_some_bind,
    okOrErr_some_bind, okOrErr_some_bind]
  cases hstate : tc.traceState with
  | none =>
    refine .inr ⟨?_, _, rfl⟩
    rintro ⟨traceState, hmem, -⟩
    rw [hstate] at hmem
    cases hmem
  | some text =>
    cases hread : api.traceStateFromStr text with
    | none =>
      refine .inl ⟨⟨text, hstate, hread⟩, ?_⟩
      simp [hread]
    | some traceState =>
      refine .inr ⟨?_, traceState, ?_⟩
      · rintro ⟨text', hmem, hnone⟩
        rw [hstate] at hmem
        obtain rfl := Option.some.inj hmem
        rw [hread] at hnone
        cases hnone
      · simp [hread]

theorem of_length_eq_four (api : Opentelemetry TraceId SpanId TraceState Context)
    (h : (strSplit '-' tc.traceParent).length = 4) :
    api.spanContextFromTraceContext tc = .error .err ∨
      ∃ traceId spanId traceFlags, api.CurrentFormat tc traceId spanId traceFlags := by
  obtain ⟨version, part1, part2, part3, hparts⟩ := List.length_eq_four.mp h
  rw [spanContextFromTraceContext_of_four hparts]
  cases htraceId : api.traceIdFromHex part1 with
  | none => exact .inl rfl
  | some traceId =>
    cases hspanId : api.spanIdFromHex part2 with
    | none => exact .inl rfl
    | some spanId =>
      cases hflags : traceFlagsFromHex part3 with
      | none => exact .inl rfl
      | some traceFlags =>
        exact .inr ⟨traceId, spanId, traceFlags,
          ⟨version, part1, part2, part3, hparts, htraceId, hspanId, hflags⟩⟩

theorem of_length_ne_four (api : Opentelemetry TraceId SpanId TraceState Context)
    (h : (strSplit '-' tc.traceParent).length ≠ 4) :
    api.LacksFlags tc ∧ api.spanContextFromTraceContext tc = .error .missingPart ∨
      ¬ api.LacksFlags tc ∧
        ∀ failure, api.spanContextFromTraceContext tc = .error failure → failure = .err := by
  rw [spanContextFromTraceContext_of_ne_four h]
  cases htraceId : api.traceIdFromHex tc.traceParent with
  | none =>
    refine .inr ⟨?_, ?_⟩
    · rintro ⟨-, ⟨traceId, htrace⟩, -⟩
      rw [htraceId] at htrace
      cases htrace
    · rintro failure ⟨⟩
      rfl
  | some traceId =>
    cases hspanId : api.spanIdFromHex tc.spanId with
    | none =>
      refine .inr ⟨?_, ?_⟩
      · rintro ⟨-, -, spanId, hspan⟩
        rw [hspanId] at hspan
        cases hspan
      · rintro failure ⟨⟩
        rfl
    | some spanId =>
      rw [okOrErr_some_bind, okOrErr_some_bind]
      cases hpart : (strSplit '-' tc.traceParent)[3]? with
      | none =>
        have hlen := List.getElem?_eq_none_iff.mp hpart
        exact .inl ⟨⟨by omega, ⟨traceId, htraceId⟩, spanId, hspanId⟩, rfl⟩
      | some part3 =>
        have hlen := (List.getElem?_eq_some_iff.mp hpart).1
        refine .inr ⟨?_, ?_⟩
        · rintro ⟨hlt, -⟩
          omega
        · rw [unwrapOr_some_bind]
          rintro failure hfailure
          cases hflags : traceFlagsFromHex part3 with
          | none =>
            rw [hflags] at hfailure
            cases hfailure
            rfl
          | some traceFlags =>
            rw [hflags] at hfailure
            cases hfailure

theorem OlderFormat.lacksFlags {traceId : TraceId} {spanId : SpanId}
    (h : api.OlderFormat tc traceId spanId) : api.LacksFlags tc := by
  refine ⟨?_, ⟨traceId, h.traceId_eq⟩, spanId, h.spanId_eq⟩
  rw [strSplit_of_not_mem h.bare]
  exact (by decide : 1 < 4)

/-- Decoding is as it should be exactly when flags are not missing and a trace state next to
readable ids and flags can be read too. -/
theorem accepts_iff : api.Accepts tc ↔
    ¬ api.LacksFlags tc ∧
      ¬ (api.Malformed tc ∧ ∃ traceId spanId traceFlags,
        api.CurrentFormat tc traceId spanId traceFlags) := by
  constructor
  · rintro h
    constructor
    · rintro hlacks
      obtain ⟨-, hpanic⟩ | ⟨hnot, -⟩ := of_length_ne_four api (Nat.ne_of_lt hlacks.1)
      · cases h.no_panic _ hpanic
      · exact hnot hlacks
    · rintro ⟨hmalformed, traceId, spanId, traceFlags, hformat⟩
      obtain ⟨-, hpanic⟩ | ⟨hnot, -⟩ := of_currentFormat hformat
      · cases h.no_panic _ hpanic
      · exact hnot hmalformed
  · rintro ⟨hlacks, hstate⟩
    refine ⟨?_, ?_, ?_⟩
    · rintro failure hfailure
      by_cases hlen : (strSplit '-' tc.traceParent).length = 4
      · obtain herr | ⟨traceId, spanId, traceFlags, hformat⟩ := of_length_eq_four api hlen
        · rw [herr] at hfailure
          cases hfailure
          rfl
        · obtain ⟨hmalformed, -⟩ | ⟨-, traceState, hok⟩ := of_currentFormat hformat
          · exact absurd ⟨hmalformed, traceId, spanId, traceFlags, hformat⟩ hstate
          · rw [hok] at hfailure
            cases hfailure
      · obtain ⟨hyes, -⟩ | ⟨-, herr⟩ := of_length_ne_four api hlen
        · exact absurd hyes hlacks
        · exact herr failure hfailure
    · rintro traceId spanId traceFlags hformat
      obtain ⟨hmalformed, -⟩ | ⟨-, traceState, hok⟩ := of_currentFormat hformat
      · exact absurd ⟨hmalformed, traceId, spanId, traceFlags, hformat⟩ hstate
      · exact .inl ⟨_, hok, rfl, rfl, rfl⟩
    · rintro traceId spanId hformat
      exact absurd hformat.lacksFlags hlacks

theorem decoding_panics :
    ¬ (∀ tc, hexTelemetry.Accepts tc) ∧
      hexTelemetry.spanContextFromTraceContext
          ⟨"4bf92f3577b34da6a3ce929d0e0e4736", "00f067aa0ba902b7", none⟩ =
        .error .missingPart ∧
      hexTelemetry.spanContextFromTraceContext
          ⟨"00-4bf92f3577b34da6a3ce929d0e0e4736-00f067aa0ba902b7-01", "", some "vendor"⟩ =
        .error .malformedTraceState := by
  have holder : hexTelemetry.spanContextFromTraceContext
      ⟨"4bf92f3577b34da6a3ce929d0e0e4736", "00f067aa0ba902b7", none⟩ =
        .error .missingPart := by
    rfl
  refine ⟨?_, holder, rfl⟩
  rintro h
  cases (h _).no_panic _ holder

variable {sc : SpanContext TraceId SpanId TraceState} {ctx : Context}

/-- The context has a remote span context with the ids, flags and trace state of this one. -/
def Carries (api : Opentelemetry TraceId SpanId TraceState Context) (ctx : Context)
    (sc : SpanContext TraceId SpanId TraceState) : Prop :=
  api.spanContext ctx = { sc with isRemote := true }

/-- The trace context made from the span gives a context that carries the span's. -/
def Survives (api : Opentelemetry TraceId SpanId TraceState Context) (ctx : Context)
    (sc : SpanContext TraceId SpanId TraceState) : Prop :=
  ∃ tc, api.traceContextFromSpan (some sc) = some tc ∧
    ∃ ctx', api.contextFromTraceContext ctx tc = .ok ctx' ∧ api.Carries ctx' sc

def traceParentOf (api : Opentelemetry TraceId SpanId TraceState Context)
    (sc : SpanContext TraceId SpanId TraceState) : String :=
  "00-" ++ api.showTraceId sc.traceId ++ "-" ++ api.showSpanId sc.spanId ++ "-" ++
    toString sc.traceFlags

theorem traceContextFromSpan_of_sampled (hsampled : sc.isSampled = true) :
    api.traceContextFromSpan (some sc) = some ⟨api.traceParentOf sc, "",
      if api.header sc.traceState ≠ "" then some (api.header sc.traceState) else none⟩ := by
  rw [traceContextFromSpan, if_neg (by rw [hsampled]; decide)]
  rfl

theorem dash_not_mem_toString (traceFlags : UInt8) : '-' ∉ (toString traceFlags).toList := by
  have hrepr : (toString traceFlags).toList = Nat.toDigits 10 traceFlags.toNat :=
    Nat.toList_repr
  rw [hrepr]
  rintro hmem
  exact absurd (Nat.isDigit_of_mem_toDigits (by decide) (by decide) hmem) (by decide)

theorem strSplit_traceParentOf (hlaw : api.Lawful) (sc : SpanContext TraceId SpanId TraceState) :
    strSplit '-' (api.traceParentOf sc) =
      ["00", api.showTraceId sc.traceId, api.showSpanId sc.spanId, toString sc.traceFlags] := by
  have htrace : '-' ∉ (api.showTraceId sc.traceId).toList := by
    rintro hmem
    exact absurd (hlaw.showTraceId_hex _ _ hmem) (by decide)
  have hspan : '-' ∉ (api.showSpanId sc.spanId).toList := by
    rintro hmem
    exact absurd (hlaw.showSpanId_hex _ _ hmem) (by decide)
  have hshape : api.traceParentOf sc =
      "00" ++ String.singleton '-' ++ (api.showTraceId sc.traceId ++ String.singleton '-' ++
        (api.showSpanId sc.spanId ++ String.singleton '-' ++ toString sc.traceFlags)) := by
    have hversion : "00-" = "00" ++ String.singleton '-' := rfl
    have hdash : "-" = String.singleton '-' := rfl
    rw [traceParentOf, hversion, hdash]
    simp only [String.append_assoc]
  rw [hshape, strSplit_append (by decide), strSplit_append htrace, strSplit_append hspan,
    strSplit_of_not_mem (dash_not_mem_toString _)]

theorem spanContext_of_traceParentOf (hlaw : api.Lawful) {traceState : TraceState}
    (hheader : api.header traceState ≠ "") :
    api.spanContextFromTraceContext ⟨api.traceParentOf sc, "", some (api.header traceState)⟩ =
      (do
        let traceFlags ← okOrErr (traceFlagsFromHex (toString sc.traceFlags))
        .ok ⟨sc.traceId, sc.spanId, traceFlags, true, traceState⟩) := by
  have hparts : strSplit '-' (TraceContext.mk (api.traceParentOf sc) ""
      (some (api.header traceState))).traceParent = _ := strSplit_traceParentOf hlaw sc
  rw [spanContextFromTraceContext_of_four hparts, hlaw.traceIdFromHex_show,
    hlaw.spanIdFromHex_show, okOrErr_some_bind, okOrErr_some_bind]
  simp only [hlaw.traceStateFromStr_header traceState hheader, unwrapOr_some_bind]

/-- A span context comes back exactly when its trace state is not empty and its flags are below
ten, or its trace state is empty and the base context had it already. -/
theorem survives_iff (hlaw : api.Lawful) (hsampled : sc.isSampled = true) :
    api.Survives ctx sc ↔
      api.header sc.traceState ≠ "" ∧ sc.traceFlags < 10 ∨
        api.header sc.traceState = "" ∧ api.Carries ctx sc := by
  rw [Survives, traceContextFromSpan_of_sampled hsampled]
  by_cases hheader : api.header sc.traceState = ""
  · rw [if_neg (not_not.mpr hheader)]
    constructor
    · rintro ⟨tc, htc, ctx', hctx', hcarries⟩
      obtain rfl := Option.some.inj htc
      obtain rfl : ctx = ctx' := Except.ok.inj hctx'
      exact .inr ⟨hheader, hcarries⟩
    · rintro (⟨hne, -⟩ | ⟨-, hcarries⟩)
      · exact absurd hheader hne
      · exact ⟨_, rfl, ctx, rfl, hcarries⟩
  · rw [if_pos hheader, ← traceFlagsFromHex_toString_iff]
    constructor
    · rintro ⟨tc, htc, ctx', hctx', hcarries⟩
      obtain rfl := Option.some.inj htc
      refine .inl ⟨hheader, ?_⟩
      rw [contextFromTraceContext, spanContext_of_traceParentOf hlaw hheader] at hctx'
      cases hflags : traceFlagsFromHex (toString sc.traceFlags) with
      | none =>
        rw [hflags] at hctx'
        cases hctx'
      | some traceFlags =>
        rw [hflags] at hctx'
        obtain rfl := Except.ok.inj hctx'
        rw [Carries, hlaw.spanContext_withRemote] at hcarries
        exact congrArg some (congrArg SpanContext.traceFlags hcarries)
    · rintro (⟨-, hflags⟩ | ⟨hempty, -⟩)
      · refine ⟨_, rfl, api.withRemoteSpanContext ctx { sc with isRemote := true }, ?_, ?_⟩
        · rw [contextFromTraceContext, spanContext_of_traceParentOf hlaw hheader, hflags]
          rfl
        · exact hlaw.spanContext_withRemote _ _
      · exact absurd hempty hheader

theorem sampledSpan_survives :
    hexTelemetry.Survives noSpan (sampledSpan 1 vendorState) :=
  (Opentelemetry.survives_iff hexTelemetry_lawful rfl).mpr
    (.inl ⟨by decide, by decide⟩)

theorem sampledSpan_lost :
    ¬ (∀ ctx sc, sc.isSampled = true → hexTelemetry.Survives ctx sc) ∧
      ¬ hexTelemetry.Survives noSpan (sampledSpan 1 .empty) ∧
      ¬ hexTelemetry.Survives noSpan (sampledSpan 11 vendorState) := by
  have hempty : ¬ hexTelemetry.Survives noSpan (sampledSpan 1 .empty) := by
    rintro ⟨tc, htc, ctx', hctx', hcarries⟩
    obtain rfl := Option.some.inj htc
    obtain rfl := Except.ok.inj hctx'
    exact absurd (congrArg SpanContext.traceId hcarries) (by decide)
  refine ⟨?_, hempty, ?_⟩
  · rintro h
    exact hempty (h noSpan _ rfl)
  · rintro ⟨tc, htc, ctx', hctx', hcarries⟩
    obtain rfl := Option.some.inj htc
    have hdecoded : hexTelemetry.contextFromTraceContext noSpan
        ⟨hexTelemetry.traceParentOf (sampledSpan 11 vendorState), "",
          some "vendor=1"⟩ = .ok ⟨1, 1, 17, true, vendorState⟩ := rfl
    obtain rfl := Except.ok.inj (hdecoded.symm.trans hctx')
    exact absurd (congrArg SpanContext.traceFlags hcarries) (by decide)

end Opentelemetry

end DurableTask
