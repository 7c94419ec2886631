import DurableTask.Guarantees.Failures
import DurableTask.Invariants.Queued

/-! # Payloads of events

An orchestrator receives payloads in three places, and in each the code unwraps
what it finds. A payload that does not decode is a panic, and so is a signal
without a payload: where it meets a task it is unwrapped by the task, where it
was buffered by the await that takes it out.
-/

namespace DurableTask

open Interaction Queues OrchestrationExecutorContext OrchestrationExecutorFuture Text

/-- The functions of the orchestrator's API that receive a payload. -/
inductive Await where
  | call (call : Call)
  | signal (name : String)

namespace Await

variable {A R : Type}

def future (encode : Encoder A) (decode : Decoder R) (input : A) :
    Await → TaskFuture (Except String R)
  | .call c => c.future encode decode input
  | .signal name => awaitSignalEvent decode name

def state (encode : Encoder A) (decode : Decoder R) (input : A) (task : Option TaskRef) :
    (await : Await) → (await.future encode decode input).State
  | .call (.activity _ _) => task
  | .call (.subOrchestrator _ _ _) => task
  | .signal _ => task

def polled (await : Await) (env : Env) (encode : Encoder A) (decode : Decoder R) (input : A)
    (task : Option TaskRef) (w : World) :
    Except Panic (Progress (await.future encode decode input).State (Except String R) × World) :=
  ((await.future encode decode input).poll (await.state encode decode input task)).run
    (handle env) w

/-- The poll of the await returns a result. -/
def Returns (await : Await) (env : Env) (encode : Encoder A) (decode : Decoder R) (input : A)
    (task : Option TaskRef) (w : World) (r : Except String R) : Prop :=
  ∃ w', await.polled env encode decode input task w = .ok (.ready r, w')

/-- What an await should make of a payload: the value it decodes to, or an error. -/
structure Decodes (await : Await) (env : Env) (encode : Encoder A) (decode : Decoder R) (input : A)
    (task : Option TaskRef) (w : World) (payload : String) : Prop where
  ok : ∀ v, decode payload = .ok v → await.Returns env encode decode input task w (.ok v)
  error : ∀ err, decode payload = .error err →
    ∃ msg, await.Returns env encode decode input task w (.error msg)

theorem returns_task {await : Await} {env : Env} {encode : Encoder A} {decode : Decoder R}
    {input : A} {t : TaskRef} {w : World} {r : Except String R} :
    await.Returns env encode decode input (some t) w r ↔
      ∃ w', (awaitTask decode t).run (handle env) w = .ok (.ready r, w') := by
  cases await with
  | call c => cases c <;> rfl
  | signal name => rfl

end Await

/--
An event delivers its payload to an await that is polled in a world: its task was resolved by the
event, or the event was buffered and has come to the front when the signal is first awaited.
-/
inductive Delivers (self : OrchestrationExecutorFuture) (ctx : OrchestrationExecutorContext)
    (e : HistoryEvent) (payload : Option String) : Await → Option TaskRef → World → Prop where
  | completed (call : Call) (id : Int) (t : TaskRef) (c c₁ : Cell)
      (ctx₁ : OrchestrationExecutorContext) (message : String) (polls : Bool) (w : World)
      (ha : Awaited ctx id t c) (hw : c.At .waiting)
      (he : e.kind = .resolve id payload message polls)
      (h₁ : ctx.resolveTask id payload message = .ok ctx₁) (hc₁ : ctx₁.world.cells[t]? = some c₁)
      (hp : PolledAs w t c₁) : Delivers self ctx e payload (.call call) (some t) w
  | parked (r : EventRaisedEvent) (name : String) (t : TaskRef) (waiters : List TaskRef) (c₁ : Cell)
      (w₁ w : World) (he : e.kind = .raise r) (hpay : r.input = payload)
      (hname : self.env.toLowercase r.name = self.env.toLowercase name)
      (hl : ctx.pendingEvents.lookup (self.env.toLowercase r.name) = some (t :: waiters))
      (hs : ctx.world.send t payload = some w₁) (hc₁ : w₁.cells[t]? = some c₁)
      (hp : PolledAs w t c₁) : Delivers self ctx e payload (.signal name) (some t) w
  | buffered (r : EventRaisedEvent) (name : String) (received : List (Option String)) (w : World)
      (he : e.kind = .raise r) (hpay : r.input = payload)
      (hname : self.env.toLowercase r.name = self.env.toLowercase name)
      (hl : ctx.pendingEvents.lookup (self.env.toLowercase r.name) = none)
      (hfront : w.receivedEvents.lookup (self.env.toLowercase name) = some (payload :: received)) :
      Delivers self ctx e payload (.signal name) none w

variable {self : OrchestrationExecutorFuture} {ctx : OrchestrationExecutorContext}
  {history : List HistoryEvent} {e : HistoryEvent} {w : World} {t : TaskRef} {await : Await}
  {task : Option TaskRef} {A R : Type} {encode : Encoder A} {decode : Decoder R} {input : A}

theorem waiter_given {name : String} {payload : Option String} {waiters : List TaskRef}
    {w₁ : World} {c₁ : Cell} (h : self.replay history = .ok ctx)
    (hl : ctx.pendingEvents.lookup name = some (t :: waiters))
    (hs : ctx.world.send t payload = some w₁) (hc₁ : w₁.cells[t]? = some c₁) :
    c₁.At (.sent payload) := by
  obtain ⟨c, hc, -, rfl⟩ := World.send_ok hs
  have hr := replay_regular h
  have hw := (hr.linked.waiter_at (mem_waiters_of_lookup hr.drained hl) hc).2
  have hlt := (List.getElem?_eq_some_iff.mp hc).1
  have he : { c with task.unblockRx := .sent payload } = c₁ := by simpa [hlt] using hc₁
  exact he ▸ hw.send payload

theorem polled_front (encode : Encoder A) (decode : Decoder R) (input : A) {env : Env}
    {name m : String} {received : List (Option String)}
    (hl : w.receivedEvents.lookup (env.toLowercase name) = some (some m :: received)) :
    ∃ w₁ w₂ t, (Await.signal name).polled env encode decode input none w =
      (awaitTask decode t).run (handle env) w₁ ∧ handle env (.poll t) w₁ = .ok (.ready m, w₂) := by
  let d : Cell := ⟨.signal (env.toLowercase name), ⟨true, some m, .closed⟩, false, none⟩
  let d' : Cell := ⟨.signal (env.toLowercase name), ⟨true, none, .closed⟩, false, some m⟩
  let w₁ : World := { w with
    receivedEvents := w.receivedEvents.pop (env.toLowercase name) (some m :: received)
    cells := w.cells ++ [d] }
  have hop : handle env (.awaitSignalEvent name) w = .ok (w.cells.length, w₁) := by
    simp only [handle, World.awaitSignalEvent, hl]
    rfl
  have hpoll : d.poll w.budget = .ok (.ready m, d', w.budget) := rfl
  refine ⟨w₁, { w₁ with cells := w₁.cells.set w.cells.length d' }, w.cells.length, ?_, ?_⟩
  · exact Prog.run_step_ok hop
  · simp only [handle, World.pollTask, w₁, List.getElem?_concat_length, hpoll]
    rfl

theorem Delivers.returns_iff {m : String} {r : Except String R} (h : self.replay history = .ok ctx)
    (hdel : Delivers self ctx e (some m) await task w) :
    await.Returns self.env encode decode input task w r ↔ ∃ v, decode m = .ok v ∧ r = .ok v := by
  have given {t : TaskRef} {c₁ : Cell} (hg : c₁.At (.given m)) (hp : PolledAs w t c₁) :
      await.Returns self.env encode decode input (some t) w r ↔
        ∃ v, decode m = .ok v ∧ r = .ok v := by
    obtain ⟨w', hh⟩ := hp.handle_given self.env hg
    exact Await.returns_task.trans (awaitTask_of_ready hh)
  cases hdel with
  | completed call id t c c₁ ctx₁ message polls w ha hw he h₁ hc₁ hp =>
    exact given (ha.given h hw h₁ hc₁).1 hp
  | parked r' name t waiters c₁ w₁ w he hpay hname hl hs hc₁ hp =>
    exact given (waiter_given h hl hs hc₁) hp
  | buffered r' name received w he hpay hname hl hfront =>
    obtain ⟨w₁, w₂, t, hrun, hh⟩ := polled_front encode decode input hfront
    unfold Await.Returns
    rw [hrun]
    exact awaitTask_of_ready hh

/--
An await makes of a payload what it should exactly if the payload decodes. If it does not, the
poll of the await panics, and with it every run that comes to it.
-/
theorem payload_decodes_iff {m : String} (encode : Encoder A) (decode : Decoder R) (input : A)
    (h : self.replay history = .ok ctx) (hdel : Delivers self ctx e (some m) await task w) :
    await.Decodes self.env encode decode input task w m ↔ ∃ v, decode m = .ok v := by
  constructor
  · rintro ⟨-, herror⟩
    cases hdec : decode m with
    | ok v => exact ⟨v, rfl⟩
    | error err =>
      obtain ⟨msg, hr⟩ := herror err hdec
      obtain ⟨v, -, hv⟩ := (hdel.returns_iff h).mp hr
      cases hv
  · rintro ⟨v, hv⟩
    constructor
    · intro v' hv'
      exact (hdel.returns_iff h).mpr ⟨v', hv', rfl⟩
    · intro err herr
      rw [hv] at herr
      cases herr

def awaitApproval : OrchestratorFunction :=
  .new (fun b => .ok (if b then "true" else "false")) fun _ _ =>
    (awaitSignalEvent decodeBool "approval").map fun r => r.map .output

def approvalRaised (input : Option String) : HistoryEvent := eventRaisedEvent "approval" input

/-- The sub-orchestrator of `askOrchestration` completes with a payload. -/
def askCompleted (result : String) : HistoryEvent :=
  historyEvent (.subOrchestrationInstanceCompleted ⟨1, some result⟩)

/--
A payload that is not JSON for a boolean is a panic of the executor: for a sub-orchestrator, for a
signal that is awaited already, for one that is awaited later, and at every replay from then on.
-/
theorem undecodable_panics :
    (executorOf askOrchestration).execute [executionStarted] [askCompleted "maybe"] =
      .error (.program "output deserialization failed") ∧
    (executorOf awaitApproval).execute [executionStarted] [approvalRaised (some "maybe")] =
      .error (.program "output deserialization failed") ∧
    (executorOf awaitApproval).execute [approvalRaised (some "maybe")] [executionStarted] =
      .error (.program "output deserialization failed") ∧
    (executorOf awaitApproval).execute [executionStarted, approvalRaised (some "maybe")] [] =
      .error (.program "output deserialization failed") :=
  ⟨by decide, by decide, by decide, by decide⟩

theorem askOrchestration_decodes : ∃ (ctx : OrchestrationExecutorContext) (w : World),
    (executorOf askOrchestration).replay [executionStarted] = .ok ctx ∧
    ((Await.call (.subOrchestrator "ask" "ask" "sub-test")).Decodes plainEnv jsonString
      decodeBool "" (some 0) w "true" ↔ ∃ v, decodeBool "true" = .ok v) := by
  obtain ⟨ctx, c, h, ha, hw⟩ := askOrchestration_awaits
  obtain ⟨ctx₁, c₁, h₁, hc₁, hd, hn, -⟩ := ha.resolved (replay_regular h) (replay_fresh h)
    (some "true") "failed to unblock sub orchestrator"
  exact ⟨ctx, _, h, payload_decodes_iff _ decodeBool "" h
    (.completed (.subOrchestrator "ask" "ask" "sub-test") 1 0 c c₁ ctx₁ _ true _ ha hw
      (show (askCompleted "true").kind = _ from rfl) h₁ hc₁ (exists_polledAs hc₁ hd hn))⟩

def twoSignals : OrchestratorFunction :=
  stringOrchestrator (((awaitSignalEvent fromJsonString "test_signal").bind fun _ =>
    awaitSignalEvent fromJsonString "test_signal").map fun r => r.map .output)

theorem Cell.poll_void_of_budget {c : Cell} {b : Budget} (hd : c.dropped = false) (h : c.At .void)
    (hb : ¬b.exhausted) : c.poll b = .error .missingPayload := by
  rcases poll_void (b := b) hd h with hp | hp
  · obtain ⟨origin, task, dropped, outcome⟩ := c
    obtain ⟨rfl, rfl⟩ := h
    cases hd
    simp [Cell.poll, CompletableTask.poll, Oneshot.poll, hb] at hp
  · exact hp

theorem Delivers.polled_absent {name : String} (h : self.replay history = .ok ctx)
    (hdel : Delivers self ctx e none (.signal name) task w) :
    (Await.signal name).polled self.env encode decode input task w = .error .missingPayload := by
  cases hdel with
  | parked r name t waiters c₁ w₁ w he hpay hname hl hs hc₁ hp =>
    have hv : c₁.At .void := waiter_given h hl hs hc₁
    obtain ⟨⟨c, hc, hev, hd, -⟩, hb⟩ := hp
    have hv' : c.At .void := by
      rcases hev.stage _ hv with hv' | ⟨v, hv', -⟩
      · exact hv'
      · cases hv'
    have hpoll : handle self.env (.poll t) w = .error .missingPayload := by
      simp only [handle, World.pollTask, hc, Cell.poll_void_of_budget hd hv' hb]
      rfl
    exact Prog.run_step_error hpoll
  | buffered r name received w he hpay hname hl hfront =>
    have hop : handle self.env (.awaitSignalEvent name) w = .error .missingPayload := by
      simp only [handle, World.awaitSignalEvent, hfront]
      rfl
    exact Prog.run_step_error hop

/-- An absent payload is in the queue of a name, behind some of those that were there before it. -/
def World.Stuck (name : String) (ahead : List (Option String)) (w : World) : Prop :=
  ∃ front rest, front <:+ ahead ∧ w.receivedEvents.get name = front ++ none :: rest

section Stuck

variable {env : Env} {ctx' : OrchestrationExecutorContext} {w' : World} {name : String}
  {ahead : List (Option String)}

theorem World.Step.stuck (h : World.Step env w w') (hs : w.Stuck name ahead) :
    w'.Stuck name ahead := by
  cases h with
  | take name' payload received hl =>
    obtain ⟨front, rest, hf, hq⟩ := hs
    by_cases hn : name = env.toLowercase name'
    · subst hn
      rw [Keyed.get_of_lookup hl] at hq
      cases front with
      | nil => cases hq
      | cons a front =>
        cases hq
        exact ⟨front, rest, (List.suffix_cons _ _).trans hf, Keyed.get_pop⟩
    · exact ⟨front, rest, hf, (Keyed.get_pop_ne hn).trans hq⟩
  | _ => exact hs

theorem World.Steps.stuck (h : World.Steps env w w') (hs : w.Stuck name ahead) :
    w'.Stuck name ahead :=
  h.preserves (fun _ _ hstep hs => hstep.stuck hs) hs

theorem Move.stuck (hm : Move env ctx ctx') (hs : ctx.world.Stuck name ahead) :
    ctx'.world.Stuck name ahead := by
  cases hm with
  | step base f w _ hstep => exact hstep.stuck hs
  | takeAction m rest _ =>
    rw [takeAction_eq]
    exact hs
  | takeTask m rest _ =>
    rw [World.Stuck, takeTask_receivedEvents]
    exact hs
  | _ => exact hs

theorem Moves.stuck (hm : Moves env ctx ctx') (hs : ctx.world.Stuck name ahead) :
    ctx'.world.Stuck name ahead :=
  hm.preserves (fun _ _ hm hs => hm.stuck hs) hs

theorem Delivery.stuck {k : EventKind} (hd : Delivery env ctx k ctx')
    (hs : ctx.world.Stuck name ahead) : ctx'.world.Stuck name ahead := by
  cases hd with
  | send id v message polls t w hl hsend =>
    obtain ⟨c, -, -, rfl⟩ := World.send_ok hsend
    exact hs
  | give e t waiters w hl hsend =>
    obtain ⟨c, -, -, rfl⟩ := World.send_ok hsend
    exact hs
  | buffer e hl =>
    obtain ⟨front, rest, hf, hq⟩ := hs
    by_cases hn : name = env.toLowercase e.name
    · subst hn
      refine ⟨front, rest ++ [e.input], hf, ?_⟩
      exact Keyed.get_push.trans (by rw [hq, List.append_assoc, List.cons_append])
    · exact ⟨front, rest, hf, (Keyed.get_push_ne hn).trans hq⟩
  | _ => exact hs

theorem processEvent_stuck (hc : ctx.isComplete = false) (hs : ctx.world.Stuck name ahead)
    (he : self.processEvent ctx e = .ok ctx') : ctx'.world.Stuck name ahead := by
  obtain ⟨s, -, ht⟩ | ⟨-, ctx₁, hd, hm⟩ := processEvent_cases hc he
  · obtain rfl | ⟨func, w, -, hw, ⟨s, -, rfl⟩ | ⟨r, -, rfl⟩⟩ := ht.start_cases
    · exact hs
    · exact hw.stuck hs
    · exact hw.stuck hs
  · exact Moves.stuck hm (hd.stuck hs)

theorem processEvents_stuck {events : List HistoryEvent} (hr : ctx.Regular)
    (hs : ctx.world.Stuck name ahead) (h : self.processEvents ctx events = .ok ctx') :
    ctx'.world.Stuck name ahead :=
  processEvents_induct (P := fun _ ctx => ctx.world.Stuck name ahead) hs
    (fun _ _ _ ctx₂ h₁ hs he => Moves.stuck (drain_moves self.env ctx₂)
      (processEvent_stuck (processEvents_regular hr h₁).incomplete hs he)) h

end Stuck

/--
The event resolves the await that it is matched with: some poll of that await returns, or a run
goes on until its waiter has yielded, or until the event has been taken out of the buffer.
-/
inductive ResolvesAwait (self : OrchestrationExecutorFuture) (past : List HistoryEvent)
    (ctx : OrchestrationExecutorContext) (e : HistoryEvent) (r : EventRaisedEvent) : Prop where
  | returns {A R : Type} (encode : Encoder A) (decode : Decoder R) (input : A) (name : String)
      (task : Option TaskRef) (w : World) (result : Except String R)
      (hdel : Delivers self ctx e r.input (.signal name) task w)
      (hr : (Await.signal name).Returns self.env encode decode input task w result) :
      ResolvesAwait self past ctx e r
  | yields (t : TaskRef) (waiters : List TaskRef) (later : List HistoryEvent)
      (ctx' : OrchestrationExecutorContext) (c : Cell)
      (hl : ctx.pendingEvents.lookup (self.env.toLowercase r.name) = some (t :: waiters))
      (hrun : self.replay (past ++ e :: later) = .ok ctx') (hc : ctx'.world.cells[t]? = some c)
      (ho : c.outcome.isSome) : ResolvesAwait self past ctx e r
  | taken (later : List HistoryEvent) (ctx' : OrchestrationExecutorContext)
      (hl : ctx.pendingEvents.lookup (self.env.toLowercase r.name) = none)
      (hrun : self.replay (past ++ e :: later) = .ok ctx')
      (ht : ¬∃ front rest, front <:+ ctx.world.receivedEvents.get (self.env.toLowercase r.name) ∧
        ctx'.world.receivedEvents.get (self.env.toLowercase r.name) = front ++ r.input :: rest) :
      ResolvesAwait self past ctx e r

section Absent

variable {past later : List HistoryEvent} {ctx' : OrchestrationExecutorContext}
  {r : EventRaisedEvent}

theorem absent_never_yields {waiters : List TaskRef} {c : Cell} (h : self.replay past = .ok ctx)
    (he : e.kind = .raise r) (hr : r.input = none)
    (hl : ctx.pendingEvents.lookup (self.env.toLowercase r.name) = some (t :: waiters))
    (hrun : self.replay (past ++ e :: later) = .ok ctx') (hc : ctx'.world.cells[t]? = some c) :
    c.outcome = none := by
  have hreg := replay_regular h
  rw [replay, processEvents_append_ok h] at hrun
  obtain ⟨ctx₃, he₃, h₃⟩ := processEvents_cons_split hrun
  have hr₃ := processEvent_regular hreg he₃
  rw [processEvent_eq, he] at he₃
  obtain ⟨hnone, -⟩ | ⟨t', waiters', w₁, hl', hs, hp⟩ := eventRaised_ok he₃
  · rw [hl] at hnone
    cases hnone
  · rw [hl] at hl'
    cases hl'
    have hdel := Delivery.give r t waiters w₁ hl hs
    obtain ⟨c₁, hc₁⟩ : ∃ c₁, w₁.cells[t]? = some c₁ := by
      obtain ⟨c₀, hc₀, -, rfl⟩ := World.send_ok hs
      exact ⟨_, List.getElem?_set_self (List.getElem?_eq_some_iff.mp hc₀).1⟩
    have hv : c₁.At .void := by
      have hv := waiter_given h hl hs hc₁
      rwa [hr] at hv
    have hm := poll_moves (hdel.isComplete.trans hreg.incomplete) hp
    obtain ⟨c', hc', hev⟩ := evolves_of_delivery hreg hdel hm hr₃ h₃ hc₁
      fun hw => by cases hw.unique hv
    rw [hc] at hc'
    cases hc'
    rcases hev.stage _ hv with hv' | ⟨v, hv', -⟩
    · exact hv'.2
    · cases hv'

theorem absent_never_taken (h : self.replay past = .ok ctx) (he : e.kind = .raise r)
    (hr : r.input = none)
    (hl : ctx.pendingEvents.lookup (self.env.toLowercase r.name) = none)
    (hrun : self.replay (past ++ e :: later) = .ok ctx') :
    ctx'.world.Stuck (self.env.toLowercase r.name)
      (ctx.world.receivedEvents.get (self.env.toLowercase r.name)) := by
  rw [replay, processEvents_append_ok h] at hrun
  obtain ⟨ctx₃, he₃, h₃⟩ := processEvents_cons_split hrun
  have hr₃ := processEvent_regular (replay_regular h) he₃
  refine processEvents_stuck hr₃ (Moves.stuck (drain_moves self.env ctx₃) ?_) h₃
  rw [processEvent_eq, he] at he₃
  obtain ⟨-, rfl⟩ | ⟨t, waiters, w₁, hl', -⟩ := eventRaised_ok he₃
  · refine ⟨_, [], List.suffix_refl _, ?_⟩
    exact Keyed.get_push.trans (by rw [hr])
  · rw [hl] at hl'
    cases hl'

/-- An event without payload resolves no await, in whatever run and among whatever other events. -/
theorem absent_unresolved (h : self.replay past = .ok ctx) (he : e.kind = .raise r)
    (hr : r.input = none) : ¬ResolvesAwait self past ctx e r := by
  intro hres
  cases hres with
  | returns encode decode input name task w result hdel hret =>
    obtain ⟨w', hret⟩ := hret
    rw [hr] at hdel
    rw [hdel.polled_absent h] at hret
    cases hret
  | yields t waiters later ctx' c hl hrun hc ho =>
    rw [absent_never_yields h he hr hl hrun hc] at ho
    cases ho
  | taken later ctx' hl hrun ht =>
    rw [hr] at ht
    exact ht (absent_never_taken h he hr hl hrun)

end Absent

/-- With a payload the waiter yields. -/
example : ∃ ctx, (executorOf externalEvents).replay [executionStarted] = .ok ctx ∧
    ResolvesAwait (executorOf externalEvents) [executionStarted] ctx
      (eventRaisedEvent "test_signal" (some "\"1\"")) ⟨"test_signal", some "\"1\""⟩ :=
  ⟨_, rfl, .yields 0 [] [] _ _ rfl rfl rfl rfl⟩

theorem absent_panics :
    (executorOf externalEvents).execute [executionStarted] [eventRaisedEvent "test_signal" none] =
      .error .missingPayload ∧
    (executorOf externalEvents).execute [eventRaisedEvent "test_signal" none] [executionStarted] =
      .error .missingPayload ∧
    (executorOf twoSignals).execute [] [eventRaisedEvent "test_signal" (some "\"1\""),
      eventRaisedEvent "test_signal" none, executionStarted] = .error .missingPayload :=
  ⟨by decide, by decide, by decide⟩

theorem externalEvents_unresolved : ∃ ctx,
    (executorOf externalEvents).replay [executionStarted] = .ok ctx ∧
      ¬ResolvesAwait (executorOf externalEvents) [executionStarted] ctx
        (eventRaisedEvent "test_signal" none) ⟨"test_signal", none⟩ :=
  ⟨_, rfl, absent_unresolved rfl rfl rfl⟩

end DurableTask
