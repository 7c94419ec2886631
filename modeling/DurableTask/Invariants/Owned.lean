import DurableTask.Invariants.Linked

/-! # Tasks and their program

A program owns the tasks that were created since it was started, and they are
dropped with it. So every live task belongs to the program that is running, and
where no program runs nothing can be handed over.
-/

namespace DurableTask

open Interaction OrchestrationExecutorContext

/-- The program owns a part of the heap that has been reached. -/
def OrchestrationExecutorContext.Based (ctx : OrchestrationExecutorContext) : Prop :=
  ∀ base f, ctx.orchestratorFn = some (.suspended base f) → base ≤ ctx.world.cells.length

/-- Every live task lies in the part of the heap that a running program owns. -/
def OrchestrationExecutorContext.Owned (ctx : OrchestrationExecutorContext) : Prop :=
  ∀ (t : TaskRef) (c : Cell), ctx.world.cells[t]? = some c → c.dropped = false →
    ∃ base f, ctx.orchestratorFn = some (.suspended base f) ∧ base ≤ t

/-- Every task that is live after a change was live before it. -/
def World.Within (w w' : World) : Prop :=
  ∀ (t : TaskRef) (c' : Cell), w'.cells[t]? = some c' → c'.dropped = false →
    ∃ c : Cell, w.cells[t]? = some c ∧ c.dropped = false

variable {env : Env} {ctx ctx' : OrchestrationExecutorContext}

theorem drain_length : ctx.drain.world.cells.length = ctx.world.cells.length := by
  have h : ctx.drain.world.cells.map Cell.origin = ctx.world.cells.map Cell.origin := drain_origins
  simpa using congrArg List.length h

namespace World.Within

variable {w w' w'' : World}

theorem refl (w : World) : w.Within w := fun _ c hc hd => ⟨c, hc, hd⟩

theorem trans (h : w.Within w') (h' : w'.Within w'') : w.Within w'' := by
  intro t c hc hd
  obtain ⟨c', hc', hd'⟩ := h' t c hc hd
  exact h t c' hc' hd'

theorem dropSender (t : TaskRef) : w.Within (w.dropSender t) := by
  intro u c hc hd
  simp only [World.dropSender, List.getElem?_modify] at hc
  obtain ⟨c₁, hc₁, rfl⟩ := Option.map_eq_some_iff.mp hc
  refine ⟨c₁, hc₁, ?_⟩
  split at hd <;> exact hd

end World.Within

theorem World.send_within {w w' : World} {t : TaskRef} {v : Option String}
    (h : w.send t v = some w') : w.Within w' := by
  obtain ⟨c, hc, hlive, rfl⟩ := World.send_ok h
  intro u d hd hdd
  by_cases hu : t = u
  · subst hu
    exact ⟨c, hc, hlive⟩
  · exact ⟨d, by simpa [List.getElem?_set_ne hu] using hd, hdd⟩

theorem Delivery.within {k : EventKind} (h : Delivery env ctx k ctx') :
    ctx.world.Within ctx'.world := by
  cases h with
  | send id v message polls t w hl hs => exact World.send_within hs
  | give e t waiters w hl hs => exact World.send_within hs
  | close id message polls t hl => exact .dropSender t
  | _ => exact .refl _

theorem drain_within : ctx.world.Within ctx.drain.world := by
  have take (ctx : OrchestrationExecutorContext) (m : Int × TaskRef) :
      ctx.world.Within (ctx.takeTask m).world := by
    unfold takeTask
    cases ctx.pendingTasks.lookup m.1 with
    | none => exact .refl _
    | some t => exact .dropSender t
  have takes (l : List (Int × TaskRef)) (ctx : OrchestrationExecutorContext) :
      ctx.world.Within (l.foldl takeTask ctx).world := by
    induction l generalizing ctx with
    | nil => exact .refl _
    | cons m l ih => exact (take ctx m).trans (ih _)
  unfold drain
  split
  · obtain ⟨events, h⟩ := foldl_takeWaiter ctx.drainActions.drainTasks.world.octx.eventsTx
      { ctx.drainActions.drainTasks with world.octx.eventsTx := [] }
    have ha : ctx.world.Within ctx.drainActions.world := by
      rw [drainActions, foldl_takeAction]
      exact .refl _
    rw [drainEvents, h]
    exact ha.trans (takes ctx.drainActions.world.octx.tasksTx
      { ctx.drainActions with world.octx.tasksTx := [] })
  · exact .refl _

theorem World.Steps.live {w w' : World} (h : World.Steps env w w') {t : TaskRef} {c' : Cell}
    (hc : w'.cells[t]? = some c') (hd : c'.dropped = false) (ht : t < w.cells.length) :
    ∃ c, w.cells[t]? = some c ∧ c.dropped = false := by
  have hc₀ := List.getElem?_eq_getElem ht
  obtain ⟨c₁, hc₁, he⟩ := h.cells hc₀
  rw [hc] at hc₁
  cases hc₁
  exact ⟨_, hc₀, he.live hd⟩

theorem OrchestrationExecutorContext.Owned.within (h : ctx.Owned)
    (hfn : ctx'.orchestratorFn = ctx.orchestratorFn) (hk : ctx.world.Within ctx'.world) :
    ctx'.Owned := by
  intro t c hc hd
  obtain ⟨c₀, hc₀, hd₀⟩ := hk t c hc hd
  rw [hfn]
  exact h t c₀ hc₀ hd₀

/-- Without a running program every task is dropped, and nothing can be sent. -/
theorem OrchestrationExecutorContext.Owned.send_none (h : ctx.Owned) (hr : ctx.running = false)
    (t : TaskRef) (v : Option String) : ctx.world.send t v = none := by
  unfold World.send
  split
  · rfl
  · rename_i c hc
    rw [if_pos]
    by_contra hd
    obtain ⟨base, f, hfn, -⟩ := h t c hc (by simpa using hd)
    rw [running_iff.mpr ⟨base, f, hfn⟩] at hr
    cases hr

section Program

variable {k : EventKind} {base : TaskRef} {f : TaskFuture (OrchestratorResult String)} {w : World}
  {t : TaskRef} {c : Cell}

theorem OrchestrationExecutorContext.Based.delivery (hb : ctx.Based)
    (hd : Delivery env ctx k ctx') : ctx'.Based := fun base f hfn => by
  rw [hd.length]
  exact hb base f (hd.orchestratorFn ▸ hfn)

theorem OrchestrationExecutorContext.Owned.base_le (ho : ctx.Owned)
    (hfn : ctx.orchestratorFn = some (.suspended base f))
    (hs : World.Steps env { ctx.world with notified := false } w) (hc : w.cells[t]? = some c)
    (hlive : c.dropped = false) (ht : t < ctx.world.cells.length) : base ≤ t := by
  obtain ⟨c₀, hc₀, hd₀⟩ := World.Steps.live hs hc hlive ht
  obtain ⟨base', f', hfn', hle⟩ := ho t c₀ hc₀ hd₀
  rw [hfn] at hfn'
  cases hfn'
  exact hle

theorem OrchestrationExecutorContext.Owned.suspend {f' : TaskFuture (OrchestratorResult String)}
    (ho : ctx.Owned) (hb : ctx.Based) (hfn : ctx.orchestratorFn = some (.suspended base f))
    (hs : World.Steps env { ctx.world with notified := false } w) :
    Owned { ctx with orchestratorFn := some (.suspended base f'), world := w } := by
  intro t c hc hlive
  refine ⟨base, f', rfl, ?_⟩
  rcases Nat.lt_or_ge t ctx.world.cells.length with ht | ht
  · exact ho.base_le hfn hs hc hlive ht
  · exact Nat.le_trans (hb base f hfn) ht

/-- A program that returns leaves no task of its own, and there was no other. -/
theorem OrchestrationExecutorContext.Owned.finish (ho : ctx.Owned) (hb : ctx.Based)
    (hfn : ctx.orchestratorFn = some (.suspended base f))
    (hs : World.Steps env { ctx.world with notified := false } w)
    (hc : (w.dropFrom base).cells[t]? = some c) : c.dropped = true := by
  by_contra hlive
  rw [Bool.not_eq_true] at hlive
  have hlt := World.dropFrom_live hc hlive
  rw [World.dropFrom_cells, if_pos hlt] at hc
  exact Nat.not_lt.mpr
    (ho.base_le hfn hs hc hlive (Nat.lt_of_lt_of_le hlt (hb base f hfn))) hlt

end Program

namespace OrchestrationExecutorFuture

variable {self : OrchestrationExecutorFuture} {k : EventKind} {history : List HistoryEvent}

theorem Turn.based (h : self.Turn ctx k ctx') (hb : ctx.Based) : ctx'.Based := by
  cases h with
  | rest hd ha hk => exact hb.delivery hd
  | tick timestamp currentTimeUtc => exact hb
  | terminate =>
    obtain ⟨hfn, hw⟩ := executionTerminated_frame ctx
    intro base f hf
    rw [hw]
    exact hb base f (hfn ▸ hf)
  | acknowledge id => exact hb
  | unknown e hr => exact hb
  | suspend hd hfn ha hrun =>
    intro base f hf
    cases hf
    have hle := World.Steps.length_le (run_steps hrun)
    exact Nat.le_trans (hb.delivery hd _ _ hfn) hle
  | report hk hd hfn ha hrun =>
    intro base f hf
    cases hf
  | discard hfn hrun =>
    intro base f hf
    cases hf
  | begin hr hrun =>
    intro base f hf
    cases hf
    rw [World.dropBefore_length]
    have hle := World.Steps.length_le (run_steps hrun)
    exact hle
  | forget hr hrun =>
    rename_i e func r w
    intro base f hf
    have hlen : (w.dropFrom ctx.world.cells.length).cells.length = w.cells.length :=
      World.dropFrom_length
    have hle := World.Steps.length_le (run_steps hrun)
    exact Nat.le_trans (hb base f hf) (hlen ▸ hle)

theorem replay_based (h : self.replay history = .ok ctx) : ctx.Based :=
  processEvents_induct (P := fun _ ctx => ctx.Based) (fun _ _ hf => by cases hf)
    (fun _ _ _ ctx₂ hr hb he base f hf => by
      rw [drain_length]
      exact (processEvent_turn (replay_isComplete hr) he).based hb base f
        (by rwa [drain_orchestratorFn] at hf)) h

theorem Turn.owned (h : self.Turn ctx k ctx') (hb : ctx.Based) (ho : ctx.Owned) : ctx'.Owned := by
  cases h with
  | rest hd ha hk => exact ho.within hd.orchestratorFn hd.within
  | tick timestamp currentTimeUtc => exact ho
  | terminate =>
    obtain ⟨hfn, hw⟩ := executionTerminated_frame ctx
    exact ho.within hfn (hw ▸ .refl _)
  | acknowledge id => exact ho
  | unknown e he => exact ho
  | suspend hd hfn ha hrun =>
    exact (ho.within hd.orchestratorFn hd.within).suspend (hb.delivery hd) hfn (run_steps hrun)
  | report hk hd hfn ha hrun =>
    intro t c hc hlive
    have hdrop := (ho.within hd.orchestratorFn hd.within).finish (hb.delivery hd) hfn
      (run_steps hrun) hc
    rw [hlive] at hdrop
    cases hdrop
  | discard hfn hrun =>
    intro t c hc hlive
    have hdrop := ho.finish hb hfn (run_steps hrun) hc
    rw [hlive] at hdrop
    cases hdrop
  | begin he hrun =>
    intro t c hc hlive
    refine ⟨_, _, rfl, ?_⟩
    rw [World.dropBefore_cells] at hc
    split at hc
    · obtain ⟨c₁, -, rfl⟩ := Option.map_eq_some_iff.mp hc
      cases hlive
    · exact Nat.le_of_not_lt ‹_›
  | forget he hrun =>
    intro t c hc hlive
    have hlt := World.dropFrom_live hc hlive
    obtain ⟨c₁, hc₁, he₁⟩ := World.dropFrom_source hc
    obtain ⟨c₀, hc₀, hd₀⟩ := World.Steps.live (run_steps hrun) hc₁ (he₁.live hlive) hlt
    exact ho t c₀ hc₀ hd₀

theorem replay_owned (h : self.replay history = .ok ctx) : ctx.Owned := by
  refine processEvents_induct (P := fun _ ctx => ctx.Owned) ?_ ?_ h
  · intro t c hc
    cases hc
  · intro past e ctx₁ ctx₂ hr ho he
    have ht := processEvent_turn (replay_isComplete hr) he
    exact (ht.owned (replay_based hr) ho).within drain_orchestratorFn drain_within

theorem poll_of_not_running (hc : ctx.isComplete = false) (hr : ctx.running = false) :
    ∃ p, self.poll ctx = .error p := by
  cases hp : self.poll ctx with
  | error p => exact ⟨p, rfl⟩
  | ok ctx' =>
    obtain ⟨fn, hfn, ⟨fn', w, hu, -⟩ | ⟨r, fn', w, hu, -⟩⟩ := poll_ok hc hp <;>
    · obtain ⟨base, f, rfl, -⟩ := BoxFuture.pollUnpin_ok hu
      rw [running_iff.mpr ⟨base, f, hfn⟩] at hr
      cases hr

section Stopped

variable {id : Int} {payload : Option String} {message : String} {polls : Bool}

theorem polls_complete (hr : ctx.running = false) (he : self.processKind ctx .complete = .ok ctx') :
    self.polls ctx .complete = false := by
  simp only [processKind, executionCompleted] at he
  cases hfn : ctx.orchestratorFn with
  | none => simp [OrchestrationExecutorFuture.polls, hfn]
  | some fn =>
    rw [hfn] at he
    cases fn with
    | finished => cases he
    | suspended base f =>
      rw [running_iff.mpr ⟨base, f, hfn⟩] at hr
      cases hr

theorem sends_resolve (ho : ctx.Owned) (hr : ctx.running = false)
    (he : self.processKind ctx (.resolve id payload message polls) = .ok ctx') :
    ctx.sends (.resolve id payload message polls) = false := by
  cases payload with
  | none => rfl
  | some v =>
    cases hl : ctx.pendingTasks.lookup id with
    | none => simp [sends, hl]
    | some t =>
      have hnone := ho.send_none hr t (some v)
      cases polls <;> simp [processKind, resolveAndPoll, resolveTask, hl, hnone] at he

/-- A poll without a running program panics. -/
theorem polls_resolve (hc : ctx.isComplete = false) (hr : ctx.running = false)
    (he : self.processKind ctx (.resolve id payload message polls) = .ok ctx') :
    self.polls ctx (.resolve id payload message polls) = false := by
  cases polls with
  | false => rfl
  | true =>
    simp only [processKind, resolveAndPoll] at he
    cases hres : ctx.resolveTask id payload message with
    | error p =>
      rw [hres] at he
      cases he
    | ok ctx₁ =>
      rw [hres] at he
      have hd := resolveTask_delivery self true hres
      have hr₁ : ctx₁.running = false := by
        rw [← hr, running, running, hd.orchestratorFn]
      obtain ⟨p, hp⟩ : ∃ p, self.poll ctx₁ = .error p :=
        poll_of_not_running (hd.isComplete.trans hc) hr₁
      cases he.symm.trans hp

end Stopped

/--
Without a running program an event is processed exactly if it neither polls a program nor sends to
a task. An event that starts an orchestrator polls another program.
-/
theorem processEvent_ok_iff {e : HistoryEvent} (hc : ctx.isComplete = false) (ho : ctx.Owned)
    (hr : ctx.running = false) (hs : self.starts e.kind = false) :
    (∃ ctx', self.processEvent ctx e = .ok ctx') ↔
      self.polls ctx e.kind = false ∧ ctx.sends e.kind = false := by
  constructor
  · rintro ⟨ctx', he⟩
    rw [processEvent_eq] at he
    generalize e.kind = k at he hs
    cases k with
    | start s => exact ⟨hs, rfl⟩
    | complete => exact ⟨polls_complete hr he, rfl⟩
    | resolve id payload message polls =>
      exact ⟨polls_resolve hc hr he, sends_resolve ho hr he⟩
    | raise s =>
      refine ⟨?_, rfl⟩
      obtain ⟨hl, -⟩ | ⟨t, waiters, w, -, hsend, -⟩ := eventRaised_ok he
      · simp [polls, hl]
      · rw [ho.send_none hr] at hsend
        cases hsend
    | _ => exact ⟨rfl, rfl⟩
  · rintro ⟨hp, hs⟩
    exact processEvent_total hp hs

end OrchestrationExecutorFuture

end DurableTask
