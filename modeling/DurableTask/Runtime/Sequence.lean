import DurableTask.Runtime.Calls
import DurableTask.Runtime.Steps

/-! # Activities one after the other

An orchestrator that awaits its activities in turn has one task at a time. What
a poll of it does depends on that task alone: a pending task leaves it where it
is, and a ready one makes it go on to the next activity, or return.
-/

namespace DurableTask

open Interaction

/-- An activity as it is scheduled, and the result that it is given. -/
structure SequenceStep where
  activity : ScheduleTaskAction
  result : String
  deriving DecidableEq, Repr

/--
The future awaits the activities one after the other and is ready with `a` after the last,
if each is given its result; what it calls next may depend on the results so far.
-/
inductive Sequential : {α : Type} → List SequenceStep → α → TaskFuture α → Prop where
  | ready {α : Type} (a : α) : Sequential [] a (.ready a)
  | call {A R α : Type} {encode : Encoder A} {decode : Decoder R} {typeName activityType : String}
      {input : A} {s payload : String} {v : R} {steps : List SequenceStep} {a : α}
      {k : Except String R → TaskFuture α} (hs : encode input = .ok s)
      (hv : decode payload = .ok v) (hk : Sequential steps a (k (.ok v))) :
    Sequential
      (⟨⟨if activityType = "" then typeName else activityType, some s⟩, payload⟩ :: steps) a
      ((callActivity encode decode typeName activityType input).bind k)
  | map {α β : Type} {steps : List SequenceStep} {a : α} {f : TaskFuture α} (g : α → β)
      (h : Sequential steps a f) : Sequential steps (g a) (f.map g)

/-- In the state the future awaits a task; once that is ready with the payload it runs `m`. -/
structure TaskFuture.ParkedAt {α : Type} (env : Env) (f : TaskFuture α) (s : f.State) (t : TaskRef)
    (payload : String) (m : OrchestratorProg (Progress f.State α)) : Prop where
  pending : ∀ {w w'}, w.pollTask t = .ok (.pending, w') →
    (f.poll s).run (handle env) w = .ok (.suspended s, w')
  ready : ∀ {w w'}, w.pollTask t = .ok (.ready payload, w') →
    (f.poll s).run (handle env) w = m.run (handle env) w'

/-- A poll that runs `m` goes on to the activities one after the other and to `a` in the end. -/
def TaskFuture.GoesOn {α : Type} (env : Env) (f : TaskFuture α) (a : α) :
    List SequenceStep → OrchestratorProg (Progress f.State α) → Prop
  | [], m => ∀ w, m.run (handle env) w = .ok (.ready a, w)
  | step :: steps, m => ∃ (s : TaskRef → f.State) (m' : OrchestratorProg (Progress f.State α)),
    f.GoesOn env a steps m' ∧
    (∀ w, m.run (handle env) w = .ok (.suspended (s w.cells.length),
      (w.scheduleActivity step.activity.name step.activity.input).2)) ∧
    ∀ t, f.ParkedAt env (s t) t step.result m'

variable {env : Env} {w w' : World} {t : TaskRef} {α β R : Type}

theorem World.pollTask_waiting {c : Cell} (hc : w.cells[t]? = some c) (hd : c.dropped = false)
    (hw : c.At .waiting) : w.pollTask t = .ok (.pending, w) := by
  obtain ⟨hlt, rfl⟩ := List.getElem?_eq_some_iff.mp hc
  simp only [pollTask, hc, Cell.poll_waiting hd hw, List.set_getElem_self]

theorem World.pollTask_issue {mk : Int → OrchestratorAction} :
    (w.issue mk).2.pollTask w.cells.length = .ok (.pending, (w.issue mk).2) :=
  pollTask_waiting (c := .new (.action (mk (w.octx.sequenceNumber + 1)))) (by simp) rfl
    (Cell.at_new _)

theorem World.pollTask_sent {c : Cell} {v : String} (hc : w.cells[t]? = some c)
    (hd : c.dropped = false) (ht : c.task = ⟨false, none, .sent (some v)⟩)
    (hb : ¬w.budget.exhausted) :
    w.pollTask t = .ok (.ready v, { w with
      cells := w.cells.set t ⟨c.origin, ⟨false, none, .taken⟩, false, some v⟩
      budget := w.budget.spend }) := by
  obtain ⟨origin, task, dropped, outcome⟩ := c
  cases hd
  cases ht
  simp [pollTask, hc, hb, Cell.poll, CompletableTask.poll, Oneshot.poll]

theorem World.pollTask_exhausted {c : Cell} {v : String} (hc : w.cells[t]? = some c)
    (hd : c.dropped = false) (ht : c.task = ⟨false, none, .sent (some v)⟩)
    (hb : w.budget = some 0) : w.pollTask t = .ok (.pending, w) := by
  obtain ⟨origin, task, dropped, outcome⟩ := c
  cases hd
  cases ht
  obtain ⟨hlt, he⟩ := List.getElem?_eq_some_iff.mp hc
  simp only [pollTask, hc, hb, Cell.poll, CompletableTask.poll, Oneshot.poll, Budget.exhausted]
  simp [← he, ← hb]

section AwaitTask

variable {decode : Decoder R}

theorem awaitTask_pending (h : w.pollTask t = .ok (.pending, w')) :
    (awaitTask decode t).run (handle env) w = .ok (.suspended (some t), w') :=
  Prog.run_step_ok (show handle env (.poll t) w = .ok (.pending, w') from h)

theorem awaitTask_ready {payload : String} {v : R} (h : w.pollTask t = .ok (.ready payload, w'))
    (hv : decode payload = .ok v) :
    (awaitTask decode t).run (handle env) w = .ok (.ready (.ok v), w') := by
  unfold awaitTask
  rw [Prog.run_step_ok (show handle env (.poll t) w = .ok (.ready payload, w') from h)]
  simp only [decodeOutput, hv, Prog.run_bind, Prog.run_pure]

end AwaitTask

/-- A future that passes on the polls of another goes on as that one does. -/
theorem TaskFuture.GoesOn.lift {f : TaskFuture α} {g : TaskFuture β} {a : α}
    (embed : f.State → g.State) (value : α → β)
    (hpoll : ∀ s, g.poll (embed s) = (f.poll s).bind fun p => .pure (p.map embed value))
    {steps : List SequenceStep} {m : OrchestratorProg (Progress f.State α)}
    (h : f.GoesOn env a steps m) :
    g.GoesOn env (value a) steps (m.bind fun p => .pure (p.map embed value)) := by
  induction steps generalizing m with
  | nil =>
    intro w
    rw [Prog.run_bind_ok (h w)]
    rfl
  | cons step steps ih =>
    obtain ⟨s, m', hm', hrun, hparked⟩ := h
    refine ⟨fun t => embed (s t), _, ih hm', fun w => ?_, fun t => ⟨fun hp => ?_, fun hp => ?_⟩⟩
    · rw [Prog.run_bind_ok (hrun w)]
      rfl
    · rw [hpoll, Prog.run_bind_ok ((hparked t).pending hp)]
      rfl
    · rw [hpoll, Prog.run_bind, (hparked t).ready hp, Prog.run_bind]

section CallActivity

variable {A : Type} {encode : Encoder A} {decode : Decoder R} {typeName activityType : String}
  {input : A} {s : String}

theorem callActivity_first (hs : encode input = .ok s) :
    ((callActivity encode decode typeName activityType input).poll none).run (handle env) w =
      .ok (.suspended (some w.cells.length),
        (w.scheduleActivity (if activityType = "" then typeName else activityType)
          (some s)).2) := by
  have hp : World.pollTask (w.scheduleActivity
      (if activityType = "" then typeName else activityType) (some s)).2 w.cells.length =
        .ok (.pending, _) := World.pollTask_issue
  simp only [callActivity, taskCall, encodeInput, hs]
  exact awaitTask_pending hp

end CallActivity

theorem Sequential.goesOn {steps : List SequenceStep} {a : α} {f : TaskFuture α}
    (h : Sequential steps a f) : f.GoesOn env a steps (f.poll f.state) := by
  induction h with
  | ready a => exact fun w => rfl
  | call hs hv hk ih =>
    refine ⟨fun t => .inl (some t), _, ih.lift _ id (Future.poll_bind_inr _),
      fun w => ?_, fun t => ⟨fun hp => ?_, fun hp => ?_⟩⟩
    · exact Future.run_bind_suspended (callActivity_first hs)
    · exact Future.run_bind_suspended (awaitTask_pending hp)
    · rw [← Future.poll_bind_inr]
      exact Future.run_bind_ready (awaitTask_ready hp hv)
  | @map _ _ _ _ f g h ih =>
    have hpoll : (f.map g).poll (f.map g).state = _ := Future.poll_map g f.state
    rw [hpoll]
    exact ih.lift (f := f) (g := f.map g) id g (Future.poll_map g)

end DurableTask
