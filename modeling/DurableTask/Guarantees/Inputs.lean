import DurableTask.Guarantees.Failures
import DurableTask.Runtime.Sequence

/-! # Inputs of sub-orchestrators

A parent encodes the whole optional input, so that there always is an input
string; the child decodes the string at the type of the value alone.
-/

namespace DurableTask

open Interaction

/-- `Serialize` of an option: `None` is null, and a value is written as it is. -/
def Encoder.option {A : Type} (encode : Encoder A) : Encoder (Option A)
  | none => .ok "null"
  | some a => encode a

/-- The function that is registered through `into_orchestrator` is called with this argument when
the orchestrator is started with the input. -/
def CalledWith {A : Type} (decode : Decoder A) (input : Option String) (x : Option A) : Prop :=
  ∀ (O : Type) (toJson : O → Except String String)
    (f : String → Option A → TaskFuture (OrchestratorResult O)) (instanceId : String),
    (intoOrchestrator decode toJson f).call instanceId input =
      (OrchestratorFunction.new toJson fun instanceId _ => f instanceId x).call instanceId input

def restartWithout {A : Type} (_ : String) : Option A → TaskFuture (OrchestratorResult Unit)
  | none => .ready (.ok .continueAsNew)
  | some _ => .ready (.error "unexpected input")

def TaskFuture.readyValue {α : Type} (f : TaskFuture α) : Option α :=
  match f.poll f.state with
  | .pure (.ready a) => some a
  | _ => none

variable {A R : Type} {encode : Encoder A} {decode : Decoder A} {decodeResult : Decoder R}
  {env : Env} {w : World} {s : String} {x : Option A} {a : A}

theorem calledWith_of_decode (h : decode s = .ok a) : CalledWith decode (some s) (some a) := by
  rintro O toJson f instanceId
  simp only [intoOrchestrator, OrchestratorFunction.new, OrchestratorContext.decodedInput,
    OrchestratorContext.new, h]
  rfl

theorem CalledWith.isSome (h : CalledWith decode (some s) x) : x.isSome = true := by
  cases x with
  | some a => rfl
  | none =>
    have hready := congrArg TaskFuture.readyValue
      (h Unit (fun _ => .ok "") restartWithout "")
    cases hdecode : decode s with
    | ok a =>
      have herror : ((intoOrchestrator decode (fun _ => .ok "") restartWithout).call ""
          (some s)).readyValue = some (.error "unexpected input") := by
        simp only [intoOrchestrator, OrchestratorFunction.new,
          OrchestratorContext.decodedInput, OrchestratorContext.new, hdecode]
        rfl
      rw [herror] at hready
      cases hready
    | error e =>
      have herror : ((intoOrchestrator decode (fun _ => .ok "") restartWithout).call ""
          (some s)).readyValue = some (.error e) := by
        simp only [intoOrchestrator, OrchestratorFunction.new,
          OrchestratorContext.decodedInput, OrchestratorContext.new, hdecode]
        rfl
      rw [herror] at hready
      cases hready

theorem callSubOrchestrator_first {B : Type} {encode : Encoder B} {input : B}
    {typeName orchestratorType instanceId : String} (hs : encode input = .ok s) :
    ((callSubOrchestrator encode decodeResult typeName orchestratorType instanceId input).poll
        none).run (handle env) w =
      .ok (.suspended (some w.cells.length),
        (w.scheduleSubOrchestrator (if orchestratorType = "" then typeName else orchestratorType)
          instanceId (some s)).2) := by
  have hp : World.pollTask (w.scheduleSubOrchestrator
      (if orchestratorType = "" then typeName else orchestratorType) instanceId (some s)).2
        w.cells.length = .ok (.pending, _) := World.pollTask_issue
  simp only [callSubOrchestrator, taskCall, encodeInput, hs]
  exact awaitTask_pending hp

/-- The parent's call with input `x` creates a sub-orchestration, and the child that is started with
the input string of its action is called with `x`. -/
def ChildReceives (env : Env) (w : World) (encode : Encoder A) (decode : Decoder A)
    (decodeResult : Decoder R) (typeName orchestratorType instanceId : String) (x : Option A) :
    Prop :=
  ∃ progress w' id action,
    ((callSubOrchestrator (Encoder.option encode) decodeResult typeName orchestratorType instanceId
        x).poll none).run (handle env) w = .ok (progress, w') ∧
      w'.octx.actionsTx =
        w.octx.actionsTx ++ [(id, ⟨id, some (.createSubOrchestration action)⟩)] ∧
      CalledWith decode action.input x

theorem childReceives_iff_of_encode {typeName orchestratorType instanceId : String}
    (hs : Encoder.option encode x = .ok s) :
    ChildReceives env w encode decode decodeResult typeName orchestratorType instanceId x ↔
      CalledWith decode (some s) x := by
  have hfirst : ((callSubOrchestrator (Encoder.option encode) decodeResult typeName
      orchestratorType instanceId x).poll none).run (handle env) w = _ :=
    callSubOrchestrator_first hs
  constructor
  · rintro ⟨progress, w', id, action, hrun, hsent, hcalled⟩
    obtain ⟨-, rfl⟩ := Prod.mk.inj (Except.ok.inj (hfirst.symm.trans hrun))
    have haction := List.append_cancel_left hsent
    simp only [newCreateSubOrchestrationAction, List.cons.injEq, Prod.mk.injEq,
      OrchestratorAction.mk.injEq, Option.some.injEq,
      OrchestratorActionType.createSubOrchestration.injEq, and_true] at haction
    obtain ⟨-, -, rfl⟩ := haction
    exact hcalled
  · rintro hcalled
    exact ⟨_, _, _, _, hfirst, rfl, hcalled⟩

/-- A child receives the input that its parent passed exactly when there is one. -/
theorem childReceives_iff {typeName orchestratorType instanceId : String}
    (hdecode : ∀ a, ∃ s, encode a = .ok s ∧ decode s = .ok a) :
    ChildReceives env w encode decode decodeResult typeName orchestratorType instanceId x ↔
      x.isSome = true := by
  cases x with
  | none =>
    rw [childReceives_iff_of_encode (x := none) (s := "null") rfl]
    constructor
    · rintro h
      exact h.isSome
    · rintro h
      cases h
  | some a =>
    obtain ⟨s, hs, ha⟩ := hdecode a
    rw [childReceives_iff_of_encode (x := some a) (s := s) hs]
    constructor
    · rintro -
      rfl
    · rintro -
      exact calledWith_of_decode ha

def encodeBool : Encoder Bool
  | true => .ok "true"
  | false => .ok "false"

def parentWorld : World := (OrchestrationExecutorContext.new none).world

theorem true_received : ChildReceives plainEnv parentWorld encodeBool decodeBool decodeBool
    "ask" "" "sub-test" (some true) :=
  (childReceives_iff (by
    rintro (_ | _)
    · exact ⟨"false", rfl, rfl⟩
    · exact ⟨"true", rfl, rfl⟩)).mpr rfl

theorem nothing_not_received :
    ¬ (∀ x : Option Bool, ChildReceives plainEnv parentWorld encodeBool decodeBool decodeBool
        "ask" "" "sub-test" x) ∧
      (OrchestratorContext.new "sub-test" (some "null")).decodedInput decodeBool =
        .error "expected a boolean" := by
  refine ⟨?_, by decide⟩
  rintro h
  have hcalled := (childReceives_iff_of_encode (x := none) (s := "null") rfl).mp (h none)
  cases hcalled.isSome

end DurableTask
