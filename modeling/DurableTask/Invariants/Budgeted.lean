import DurableTask.Invariants.Attended

/-! # What the budget pays for

The whole history is processed in one poll of a tokio task, and every value that
a receiver yields is paid from its budget. While no task has lost its sender,
nothing else is paid for, so a program with no more tasks than the budget allows
is never held up by it.
-/

namespace DurableTask

open Interaction OrchestrationExecutorContext

def World.yielded (w : World) : ℕ := w.cells.countP fun c => c.outcome.isSome

/-- What is left of a budget, and the tasks that have yielded, cover it. -/
def World.Affords (b : Budget) (w : World) : Prop :=
  ∀ n, w.budget = some n → ∃ N, b = some N ∧ N ≤ n + w.yielded

variable {env : Env} {service : Service} {F : Panic → Prop} {b : Budget} {w w' : World}
  {c c' : Cell} {Q : Spec Spending (OrchestratorResult String)}
  {ctx ctx' : OrchestrationExecutorContext}

/-- A poll spends something only when a task yields for the first time. -/
theorem Cell.Hopeful.poll_spends {r : Poll String} {b' : Budget} (h : c.Hopeful)
    (hp : c.poll b = .ok (r, c', b')) : c' = c ∧ b' = b ∨
      c.outcome = none ∧ c'.outcome.isSome ∧ (b' = b ∨ b' = b.spend) := by
  cases r with
  | pending => exact .inl (h.poll_pending hp)
  | ready v =>
    right
    have hd := (Cell.poll_frame hp).2.1
    obtain ⟨⟨s, hs⟩, hl⟩ := h
    cases s with
    | waiting =>
      rw [Cell.poll_waiting hd hs] at hp
      cases hp
    | given v' =>
      obtain ⟨origin, task, dropped, outcome⟩ := c
      obtain ⟨rfl | rfl, rfl⟩ := hs <;> cases hd
      · by_cases hb : b.exhausted <;>
          simp [Cell.poll, CompletableTask.poll, Oneshot.poll, hb] at hp
        obtain ⟨-, rfl, rfl⟩ := hp
        exact ⟨rfl, rfl, .inr rfl⟩
      · simp [Cell.poll, CompletableTask.poll] at hp
        obtain ⟨-, rfl, rfl⟩ := hp
        exact ⟨rfl, rfl, .inl rfl⟩
    | done v' =>
      obtain ⟨p, hp'⟩ := Cell.poll_done (b := b) hs
      rw [hp'] at hp
      cases hp
    | lost => exact absurd hs hl
    | void => rcases Cell.poll_void (b := b) hd hs with hp' | hp' <;> rw [hp'] at hp <;> cases hp

namespace World

theorem Affords.of_outcomes (h : w.Affords b) (hb : w'.budget = w.budget)
    (ho : w'.cells.map Cell.outcome = w.cells.map Cell.outcome) : w'.Affords b := by
  have hyielded : w'.yielded = w.yielded := by
    have hcount := congrArg (List.countP Option.isSome) ho
    rwa [List.countP_map, List.countP_map] at hcount
  intro n hn
  rw [hyielded]
  exact h n (hb ▸ hn)

theorem Affords.modify {t : TaskRef} {f : Cell → Cell} (h : w.Affords b)
    (hc : w'.cells = w.cells.modify t f) (hb : w'.budget = w.budget)
    (hf : ∀ c, (f c).outcome = c.outcome) : w'.Affords b := by
  refine h.of_outcomes hb (List.ext_getElem? fun u => ?_)
  by_cases hu : t = u <;> simp [hc, hu]
  cases w.cells[u]? <;> simp [hf]

theorem Affords.append (h : w.Affords b) (hc : w'.cells = w.cells ++ [c]) (ho : c.outcome = none)
    (hb : w'.budget = w.budget) : w'.Affords b := by
  have hyielded : w'.yielded = w.yielded := by simp [yielded, hc, ho]
  intro n hn
  rw [hyielded]
  exact h n (hb ▸ hn)

theorem Affords.not_exhausted (h : w.Affords b) (hb : ∀ N ∈ b, w.yielded < N) :
    ¬w.budget.exhausted := by
  intro hx
  obtain ⟨N, hN, hle⟩ := h 0 hx
  have hlt := hb N hN
  omega

theorem Serving.answered_length (hw : w.Serving service) : w.answered.length = w.yielded := by
  rw [answered, List.length_filterMap_eq_countP, yielded, List.countP_filter]
  refine List.countP_congr fun c hc => ?_
  obtain ⟨t, ht⟩ := List.mem_iff_getElem?.mp hc
  simp [(hw.tasks ht).asks]

theorem Step.affords (hs : Step env w w') (hh : w.Hopeful) (h : w.Affords b) : w'.Affords b := by
  cases hs with
  | issue reads mk _ _ => exact h.append rfl rfl rfl
  | take name payload received _ => exact h.append rfl rfl rfl
  | wait name _ => exact h.append rfl rfl rfl
  | drop t => exact h.modify rfl rfl fun _ => rfl
  | poll t c c' r b' hc hp =>
    have hd := (Cell.poll_frame hp).2.1
    obtain ⟨hlt, he⟩ := List.getElem?_eq_some_iff.mp hc
    rcases (hh t c hc hd).poll_spends hp with ⟨rfl, rfl⟩ | ⟨hn, hy, hb⟩
    · refine h.of_outcomes rfl ?_
      rw [← he, List.set_getElem_self]
    · have hyielded : (w.cells.set t c').countP (fun c => c.outcome.isSome) = w.yielded + 1 := by
        rw [List.countP_set hlt, he]
        simp [yielded, hn, hy]
      intro n hn'
      change b' = some n at hn'
      change ∃ N, b = some N ∧ N ≤ n + (w.cells.set t c').countP fun c => c.outcome.isSome
      rw [hyielded]
      rcases hb with rfl | rfl
      · obtain ⟨N, hN, hle⟩ := h n hn'
        exact ⟨N, hN, by omega⟩
      · obtain ⟨m, hm, rfl⟩ := Option.map_eq_some_iff.mp hn'
        obtain ⟨N, hN, hle⟩ := h m hm
        exact ⟨N, hN, by omega⟩

theorem Steps.affords (hs : Steps env w w') (hh : w.Hopeful) (h : w.Affords b) : w'.Affords b := by
  suffices w'.Hopeful ∧ w'.Affords b from this.2
  induction hs with
  | refl => exact ⟨hh, h⟩
  | tail _ hstep ih => exact ⟨hstep.hopeful ih.1, hstep.affords ih.1 ih.2⟩

theorem Serving.hopeful (hw : w.Serving service) : w.Hopeful := by
  intro t c hc _
  obtain ⟨-, -, o, ho, -⟩ := hw.tasks hc
  cases o with
  | none => exact .of_at (s := .waiting) ho (by simp)
  | some v =>
    rcases ho with hg | hd
    · exact .of_at hg (by simp)
    · exact .of_at hd (by simp)

end World

theorem Delivery.affords {k : EventKind} (hdel : Delivery env ctx k ctx')
    (h : ctx.world.Affords b) : ctx'.world.Affords b := by
  have sent {t : TaskRef} {v : Option String} {w : World}
      (hs : ctx.world.send t v = some w) : w.Affords b := by
    obtain ⟨c, hc, -, rfl⟩ := World.send_ok hs
    have hlabel : (ctx.world.cells.set t { c with task.unblockRx := .sent v }).map Cell.label =
        ctx.world.cells.map Cell.label := label_set hc rfl
    have houtcome := congrArg (List.map fun l => l.2.2) hlabel
    rw [List.map_map, List.map_map] at houtcome
    exact h.of_outcomes rfl houtcome
  cases hdel with
  | send id v message polls t w hl hs => exact sent hs
  | give e t waiters w hl hs => exact sent hs
  | close id message polls t hl => exact h.modify rfl rfl fun _ => rfl
  | _ => exact h

namespace OrchestrationExecutorFuture

variable {self : OrchestrationExecutorFuture} {e : HistoryEvent} {history : List HistoryEvent}

theorem affords_finish {base : TaskRef} {r : OrchestratorResult String} (h : w.Affords b) :
    (w.finish base r).Affords b := by
  refine h.of_outcomes rfl ?_
  have hdrop : Cell.outcome ∘ Cell.drop = Cell.outcome := rfl
  rw [World.finish, World.dropFrom, List.map_append, List.map_map, hdrop, ← List.map_append,
    List.take_append_drop]

theorem Turn.affords {k : EventKind} (ht : self.Turn ctx k ctx') (hr : ctx.Regular)
    (hk : DurableTask.Faithful self.env service ctx k) (hu : k.isStart → ctx.Unstarted)
    (hs : ctx.Served self.env service F Q) (h : ctx.world.Affords b) : ctx'.world.Affords b := by
  have polled {f : TaskFuture (OrchestratorResult String)} {w₀ w : World}
      {p : Progress f.State (OrchestratorResult String)}
      (hrun : Activation.run self.env (f, w₀) = .ok (p, w)) (hh : w₀.Hopeful)
      (h : w₀.Affords b) : w.Affords b :=
    (run_steps hrun).affords hh h
  cases ht with
  | rest hd => exact hd.affords h
  | tick timestamp => exact h
  | terminate => exact (executionTerminated_frame ctx).2 ▸ h
  | acknowledge id => exact h
  | suspend hd hfn _ hrun =>
    have hw := ((hd.served hr hk hs).program _ _ hfn).awake.1
    exact polled hrun hw.hopeful (hd.affords h)
  | report _ hd hfn _ hrun =>
    have hw := ((hd.served hr hk hs).program _ _ hfn).awake.1
    exact affords_finish (polled hrun hw.hopeful (hd.affords h))
  | discard hfn hrun =>
    exact affords_finish (polled hrun (hs.program _ _ hfn).awake.1.hopeful h)
  | unknown => exact h
  | begin hreg hrun =>
    have hcells := (hu rfl).cells
    have hw := polled hrun (fun t c hc _ => by simp [hcells] at hc) h
    exact hw.of_outcomes rfl (by simp [World.dropBefore, hcells])
  | @forget e func r w hreg hrun =>
    have hcells := (hu rfl).cells
    have hw : (w.finish ctx.world.cells.length r).Affords b :=
      affords_finish (polled hrun (fun t c hc _ => by simp [hcells] at hc) h)
    exact hw

/-- In a run over a faithful history the budget pays for the tasks that yield, and for no more. -/
theorem replay_affords (hone : history.countP HistoryEvent.isStart ≤ 1)
    (hmeets : self.Meets service F Q history) (hfaithful : self.Faithful service history)
    (h : self.replay history = .ok ctx) : ctx.world.Affords self.env.budget := by
  refine replay_induct (P := fun history ctx => history.countP HistoryEvent.isStart ≤ 1 →
    self.Meets service F Q history → self.Faithful service history →
      ctx.world.Affords self.env.budget) hone ?_ ?_ h hone hmeets hfaithful
  · exact fun _ _ _ n hn => ⟨n, hn, Nat.le_add_right _ _⟩
  · intro past e ctx₁ ctx₂ hr ih hs he hone hmeets hfaithful
    have hpast : past.countP HistoryEvent.isStart ≤ 1 :=
      ((List.sublist_append_left past [e]).countP_le).trans hone
    have hserved := replay_served hpast (fun e he => hmeets e (List.mem_append_left _ he))
      hfaithful.left hr
    have hk := throughout_iff.mp hfaithful past e [] ctx₁ rfl hr
    have haffords := (processEvent_turn (replay_isComplete hr) he).affords (replay_regular hr) hk
      (fun hstart => replay_unstarted (hs hstart) hr) hserved
      (ih hpast (fun e he => hmeets e (List.mem_append_left _ he)) hfaithful.left)
    have hlabel : ctx₂.drain.world.cells.map Cell.label = _ := drain_label
    have houtcome := congrArg (List.map fun l => l.2.2) hlabel
    rw [List.map_map, List.map_map] at houtcome
    exact haffords.of_outcomes drain_budget houtcome

end OrchestrationExecutorFuture

end DurableTask
