import DurableTask.Guarantees.Gathering

/-! # Fan-in in any order

The acknowledgements and the completions of the calls may come in any order: the
results are returned in the order of the calls, and the completion has the id
after theirs. A history that has no value for some call, and no termination,
completes nothing.
-/

namespace DurableTask

open Interaction OrchestrationExecutorContext Text

namespace OrchestrationExecutorFuture

variable {R : Type} {toJson : List R → Except String String} {decode : Decoder R}
  {calls : List ActivityCall} {result : ℕ → String} {value : ℕ → R}
  {self : OrchestrationExecutorFuture} {events : List HistoryEvent}

theorem arrives_of_perm {scheduled completed : ℕ → HistoryEvent} {U L : List ℕ}
    (hs : ∀ j ∈ U, IsScheduled calls j (scheduled j))
    (hc : ∀ j ∈ L, IsCompleted result j (completed j))
    (hp : events.Perm (U.map scheduled ++ L.map completed)) :
    ∃ unacked left, unacked.Perm U ∧ left.Perm L ∧ Arrives calls result unacked left events := by
  induction events generalizing U L with
  | nil =>
    have hnil := hp.symm.eq_nil
    rw [List.append_eq_nil_iff, List.map_eq_nil_iff, List.map_eq_nil_iff] at hnil
    obtain ⟨rfl, rfl⟩ := hnil
    exact ⟨[], [], .nil, .nil, .nil⟩
  | cons e events ih =>
    rcases List.mem_append.mp (hp.subset List.mem_cons_self) with hm | hm
    · obtain ⟨j, hj, rfl⟩ := List.mem_map.mp hm
      have hU := List.perm_cons_erase hj
      have hp' : events.Perm ((U.erase j).map scheduled ++ L.map completed) :=
        (hp.trans ((hU.map scheduled).append_right _)).cons_inv
      obtain ⟨unacked, left, hunacked, hleft, ha⟩ :=
        ih (fun i hi => hs i (List.mem_of_mem_erase hi)) hc hp'
      exact ⟨j :: unacked, left, (hunacked.cons j).trans hU.symm, hleft, .scheduled (hs j hj) ha⟩
    · obtain ⟨j, hj, rfl⟩ := List.mem_map.mp hm
      have hL := List.perm_cons_erase hj
      have hp' : events.Perm (U.map scheduled ++ (L.erase j).map completed) :=
        (hp.trans (((hL.map completed).append_left _).trans List.perm_middle)).cons_inv
      obtain ⟨unacked, left, hunacked, hleft, ha⟩ :=
        ih hs (fun i hi => hc i (List.mem_of_mem_erase hi)) hp'
      exact ⟨unacked, j :: left, hunacked, (hleft.cons j).trans hL.symm, .completed (hc j hj) ha⟩

/-- The events are the `TaskScheduled` and the `TaskCompleted` of every call, in any order. -/
def InAnyOrder (calls : List ActivityCall) (result : ℕ → String) (events : List HistoryEvent) :
    Prop :=
  ∃ scheduled completed : ℕ → HistoryEvent,
    (∀ j < calls.length, IsScheduled calls j (scheduled j)) ∧
    (∀ j < calls.length, IsCompleted result j (completed j)) ∧
    events.Perm ((List.range calls.length).map scheduled ++
      (List.range calls.length).map completed)

/--
The orchestrator returns the results of its calls in their order, whatever the order of arrival,
and it does not complete on a history that lacks a call.
-/
structure FansIn (executor : OrchestrationExecutorFuture) (name : String)
    (toJson : List R → Except String String) (decode : Decoder R) (calls : List ActivityCall)
    (lacks : ℕ → List HistoryEvent → Prop) : Prop where
  completes : ∀ (input : Option String) (start : HistoryEvent) (result : ℕ → String)
    (value : ℕ → R) (json : String) (events oldEvents newEvents : List HistoryEvent),
    start.eventType = some (.executionStarted ⟨name, input⟩) → InAnyOrder calls result events →
    (∀ j < calls.length, decode (result j) = .ok (value j)) →
    toJson ((List.range calls.length).map value) = .ok json →
    oldEvents ++ newEvents = start :: events → executor.execute oldEvents newEvents =
      .ok [newCompleteOrchestrationAction (calls.length + 1) .completed (some json) [] none]
  blocks : ∀ (i : ℕ) (oldEvents newEvents : List HistoryEvent) (actions : List OrchestratorAction),
    i < calls.length →
    (∀ e ∈ oldEvents ++ newEvents, executor.StartsOnly (fanOut toJson decode calls) e) →
    lacks i (oldEvents ++ newEvents) → executor.execute oldEvents newEvents = .ok actions →
    ∀ a ∈ actions, a.isComplete = false

/-- The history has no `TaskCompleted` of the call. -/
def LacksCompletion (i : ℕ) (history : List HistoryEvent) : Prop :=
  ∀ e ∈ history, ∀ result, ¬IsCompleted result i e

/-- The history is not terminated and has no event of any kind with a payload for the call. -/
def LacksValue (i : ℕ) (history : List HistoryEvent) : Prop :=
  ∀ e ∈ history, e.kind ≠ .terminate ∧ e.kind.completion (i + 1) = none

theorem replay_inAnyOrder {name json : String} {input : Option String} {start : HistoryEvent}
    (hreg : self.registry.getOrchestrator name = some (fanOut toJson decode calls))
    (hb : self.env.budget = none) (hne : calls ≠ [])
    (hstart : start.eventType = some (.executionStarted ⟨name, input⟩))
    (ha : InAnyOrder calls result events)
    (hv : ∀ j < calls.length, decode (result j) = .ok (value j))
    (hjson : toJson ((List.range calls.length).map value) = .ok json) :
    ∃ ctx, self.replay (start :: events) = .ok ctx ∧
      Gathered (newCompleteOrchestrationAction (calls.length + 1) .completed (some json) [] none)
        [] ctx := by
  obtain ⟨scheduled, completed, hs, hc, hp⟩ := ha
  obtain ⟨unacked, left, hunacked, hleft, ha⟩ := arrives_of_perm
    (fun j hj => hs j (List.mem_range.mp hj)) (fun j hj => hc j (List.mem_range.mp hj)) hp
  obtain ⟨ctx, hr, hg⟩ := replay_gathers value hreg hstart hb hne
    (hleft.nodup_iff.mpr List.nodup_range) (fun j => hunacked.mem_iff.trans List.mem_range)
    fun j => hleft.mem_iff.trans List.mem_range
  have hne' : left ≠ [] := by
    rintro rfl
    have hlen := hleft.length_eq
    rw [List.length_range, List.length_nil] at hlen
    exact hne (List.length_eq_zero_iff.mp hlen.symm)
  obtain ⟨ctx', hrun, hg'⟩ := hg.run self ha hne' hv hjson
  refine ⟨ctx', ?_, hg'⟩
  rw [← List.singleton_append, replay, processEvents_append_ok hr, hrun]

/--
Fan-in does not depend on the order of arrival, and an orchestrator that is not terminated waits
for a value for each of its calls.
-/
theorem fanOut_fansIn {name : String}
    (hreg : self.registry.getOrchestrator name = some (fanOut toJson decode calls))
    (hb : self.env.budget = none) (hne : calls ≠ []) :
    self.FansIn name toJson decode calls LacksValue := by
  constructor
  · intro input start result value json events oldEvents newEvents hstart ha hv hjson hsplit
    obtain ⟨ctx, hr, hg⟩ := replay_inAnyOrder hreg hb hne hstart ha hv hjson
    exact hg.execute (hsplit ▸ hr)
  · intro i oldEvents newEvents actions hi hstart hlacks hx a ha
    obtain ⟨ctx, hr, rfl⟩ := execute_ok hx
    obtain ⟨id, hl⟩ := mem_getActions.mp ha
    exact (replay_blocked hr hi hstart (fun e he => (hlacks e he).1)
      fun e he => (hlacks e he).2).2 id a hl

/-- `call_activity` at string arguments. -/
def testCall (input : String) : ActivityCall :=
  ⟨String, jsonString, "test_activity", "test", input, _, rfl⟩

def stringArray (rs : List String) : Except String String :=
  .ok ("[\"" ++ String.intercalate "\",\"" rs ++ "\"]")

def gatherOrchestration (inputs : List String) : OrchestratorFunction :=
  fanOut stringArray fromJsonString (inputs.map testCall)

def gatherExecutor (inputs : List String) : OrchestrationExecutorFuture :=
  { executorOf (gatherOrchestration inputs) with env := { plainEnv with budget := none } }

theorem gatherOrchestration_registered (inputs : List String) :
    (gatherExecutor inputs).registry.getOrchestrator "test" =
      some (fanOut stringArray fromJsonString (inputs.map testCall)) :=
  executorOf_registered (gatherOrchestration inputs)

theorem gatherOrchestration_starts {inputs : List String} (e : HistoryEvent) :
    (gatherExecutor inputs).StartsOnly (gatherOrchestration inputs) e := by
  intro s func hs hfunc
  exact eq_of_registered hfunc

/-- The `TaskScheduled` of a call. -/
def testScheduled (id : Int) (input : String) : HistoryEvent :=
  ⟨id, none, some (.taskScheduled ⟨"test", some input⟩)⟩

theorem gatherOrchestration_fansIn :
    (gatherExecutor ["test 1", "test 2"]).execute
        [executionStarted, testScheduled 2 "\"test 2\""]
        [taskCompleted 2 (some "\"b\""), testScheduled 1 "\"test 1\"",
          taskCompleted 1 (some "\"a\"")] =
      .ok [newCompleteOrchestrationAction 3 .completed
        (some ("[\"" ++ String.intercalate "\",\"" ["a", "b"] ++ "\"]")) [] none] ∧
    ∀ actions, (gatherExecutor ["test 1", "test 2"]).execute
      [executionStarted] [taskCompleted 2 (some "\"b\"")] = .ok actions →
        ∀ a ∈ actions, a.isComplete = false := by
  have h := fanOut_fansIn (gatherOrchestration_registered ["test 1", "test 2"]) rfl (by simp)
  have two {P : ℕ → Prop} (h₀ : P 0) (h₁ : P 1) : ∀ j < 2, P j := by
    rintro (_ | _ | j) hj
    · exact h₀
    · exact h₁
    · omega
  constructor
  · refine h.completes none executionStarted (fun j => ["\"a\"", "\"b\""].getD j "")
      (fun j => ["a", "b"].getD j "") _ _ _ _ rfl
      ⟨fun j => testScheduled (j + 1) (["\"test 1\"", "\"test 2\""].getD j ""),
        fun j => taskCompleted (j + 1) (some (["\"a\"", "\"b\""].getD j "")), ?_, ?_, ?_⟩ ?_ rfl rfl
    · exact two ⟨_, rfl, rfl, rfl⟩ ⟨_, rfl, rfl, rfl⟩
    · exact two rfl rfl
    · decide
    · exact two rfl rfl
  · intro actions hx
    refine h.blocks 0 _ _ actions (by simp) (fun e _ => gatherOrchestration_starts e) ?_ hx
    unfold LacksValue
    decide

theorem gatherOrchestration_completes :
    ¬(gatherExecutor ["test"]).FansIn "test" stringArray fromJsonString
      [testCall "test"] LacksCompletion ∧
    ¬(gatherExecutor ["test"]).FansIn "test" stringArray fromJsonString
      [testCall "test"] (fun i history => LacksCompletion i history ∧
        ∀ e ∈ history, e.kind ≠ .terminate) ∧
    ¬(gatherExecutor ["test"]).FansIn "test" stringArray fromJsonString
      [testCall "test"] (fun i history => LacksCompletion i history ∧
        ∀ e ∈ history, e.kind.completion (i + 1) = none) := by
  have fails {lacks : ℕ → List HistoryEvent → Prop} {history : List HistoryEvent}
      (hx : ((gatherExecutor ["test"]).execute [] history).map
        (fun l => l.any OrchestratorAction.isComplete) = .ok true) (hl : lacks 0 history) :
      ¬(gatherExecutor ["test"]).FansIn "test" stringArray fromJsonString
        [testCall "test"] lacks := by
    intro h
    obtain ⟨actions, hx, hany⟩ := Except.exists_of_map hx
    obtain ⟨a, ha, hc⟩ := List.any_eq_true.mp hany
    rw [h.blocks 0 [] history actions (by simp) (fun e _ => gatherOrchestration_starts e) hl hx a
      ha] at hc
    cases hc
  have terminated : LacksCompletion 0 [executionStarted, executionTerminatedEvent] := by
    simp [LacksCompletion, IsCompleted, executionStarted, executionTerminatedEvent, historyEvent]
  have returned : LacksCompletion 0 [executionStarted,
      historyEvent (.subOrchestrationInstanceCompleted ⟨1, some "\"a\""⟩)] := by
    simp [LacksCompletion, IsCompleted, executionStarted, historyEvent]
  refine ⟨fails (by decide) terminated, fails (by decide) ⟨returned, ?_⟩,
    fails (by decide) ⟨terminated, ?_⟩⟩
  all_goals decide

end OrchestrationExecutorFuture

end DurableTask
