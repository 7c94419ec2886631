import DurableTask.Guarantees.EndToEnd

/-! # Where the answers come from

The sidecar knows the tasks by the actions that came back to it. If it answers a
task as the service may answer what the action asks for, the answer is one that
the program may get: in every later replay the task has the same id and asks for
the same.
-/

namespace DurableTask

open OrchestrationExecutorContext

/-- The event answers a task that was scheduled, as the service may. -/
def AnswersTask (env : Env) (service : Service) (tasks : List OrchestratorAction) :
    EventKind → Prop
  | .resolve id payload _ _ => ∃ a ∈ tasks, a.id = id ∧ ∃ v ∈ payload, ∀ q ∈ a.request?, service q v
  | .raise r => ∃ v ∈ r.input, service (.signal (env.toLowercase r.name)) v
  | _ => True

instance (env : Env) (service : Service) [∀ q v, Decidable (service q v)]
    (tasks : List OrchestratorAction) : (k : EventKind) →
      Decidable (AnswersTask env service tasks k)
  | .resolve id payload _ _ => inferInstanceAs (Decidable (∃ a ∈ tasks, a.id = id ∧
    ∃ v ∈ payload, ∀ q ∈ a.request?, service q v))
  | .raise r =>
    inferInstanceAs (Decidable (∃ v ∈ r.input, service (.signal (env.toLowercase r.name)) v))
  | .skip | .tick _ | .start _ | .complete | .terminate | .acknowledge _ =>
    inferInstanceAs (Decidable True)

theorem AnswersTask.mono {env : Env} {service : Service} {tasks tasks' : List OrchestratorAction}
    {k : EventKind} (h : AnswersTask env service tasks k) (ht : tasks ⊆ tasks') :
    AnswersTask env service tasks' k := by
  cases k with
  | resolve id payload message polls =>
    obtain ⟨a, ha, hid, hv⟩ := h
    exact ⟨a, ht ha, hid, hv⟩
  | raise r => exact h
  | _ => trivial

namespace OrchestrationExecutorFuture

variable {self : OrchestrationExecutorFuture} {ctx ctx' : OrchestrationExecutorContext}
  {flow : Flow (OrchestratorResult String)} {service : Service}
  {history news events more : List HistoryEvent} {episodes : List Episode} {env : Env}

theorem Throughout.append {P : OrchestrationExecutorContext → HistoryEvent → Prop}
    (h : self.Throughout P ctx events)
    (hmore : ∀ ctx', self.processEvents ctx events = .ok ctx' → self.Throughout P ctx' more) :
    self.Throughout P ctx (events ++ more) := by
  induction events generalizing ctx with
  | nil => exact hmore ctx rfl
  | cons e events ih =>
    refine ⟨h.1, ?_⟩
    have hrest := h.2
    cases he : self.processEvent ctx e with
    | error p => trivial
    | ok ctx₁ =>
      rw [he] at hrest
      exact ih hrest fun ctx' h' => hmore ctx' (by rw [processEvents_cons_ok he, h'])

theorem issued_inj (h : self.replay history = .ok ctx)
    (hone : history.countP HistoryEvent.isStart ≤ 1)
    (hap : self.Throughout self.Apart (.new self.env.budget) history) {a b : OrchestratorAction}
    (ha : a ∈ ctx.world.issued) (hb : b ∈ ctx.world.issued) (hid : a.id = b.id) : a = b := by
  obtain ⟨log, hlog⟩ := replay_booked h hone hap
  rw [hlog.issued] at ha hb
  exact List.inj_on_of_nodup_map hlog.numbered.nodup (List.mem_of_mem_filter ha)
    (List.mem_of_mem_filter hb) hid

theorem Run.request_eq (hrun : self.Run history episodes) (henv : self.env.Alike env)
    (hone : (history ++ news).countP HistoryEvent.isStart ≤ 1)
    (hnews : ∀ e ∈ news, e.kind.isNews = true)
    (h : (self.under env).replay (history ++ news) = .ok ctx) (ha : ∀ t, ¬ctx.AbandonedAt t)
    {a b : OrchestratorAction} (hb : b ∈ episodes.flatMap Episode.tasks)
    (hissued : a ∈ ctx.world.issued) (hid : b.id = a.id) : a.request? = b.request? := by
  obtain ⟨ctx₁, h₁, hlater⟩ := processEvents_split h
  have ha₁ (t : ℕ) : ¬ctx₁.AbandonedAt t := fun hab =>
    ha t (processEvents_abandoned (replay_regular h₁) hlater hab)
  have hap := replay_apart h (fun e he => (List.mem_append.mp he).elim (hrun.wellFormed.2 e)
    fun he => (isNews_of (hnews e he)).1) ha
  -- the task was issued by then, and this is what was issued under the id
  have hm := List.mem_map_of_mem (f := OrchestratorAction.timeless) hb
  rw [(hrun.settled env ctx₁ henv h₁ ha₁).2.mem_iff, List.mem_map] at hm
  obtain ⟨b', hb', htimeless⟩ := hm
  have hid' : a.id = b'.id := by
    rw [← hid, ← b.timeless_id, ← htimeless, b'.timeless_id]
  rw [issued_inj h hone hap hissued ((replay_grows h₁ h).1.subset hb') hid',
    ← b'.timeless_request?, htimeless, b.timeless_request?]

/-- News that answers the tasks that were scheduled is news that a flow may get. -/
theorem Run.faithful_news (hrun : self.Run history episodes) (henv : self.env.Alike env)
    (hflow : self.RunsFlow flow (history ++ news))
    (hfaithful : (self.under env).Faithful service history)
    (hnews : ∀ e ∈ news, e.kind.isNews = true ∧
      AnswersTask self.env service (episodes.flatMap Episode.tasks) e.kind) :
    (self.under env).Faithful service (history ++ news) := by
  induction news using List.reverseRecOn with
  | nil => rwa [List.append_nil]
  | append_singleton past e ih =>
    rw [← List.append_assoc] at hflow ⊢
    have hpast := ih hflow.left fun e he => hnews e (List.mem_append_left _ he)
    refine Throughout.append hpast fun ctx h => ⟨?_, ?_⟩
    · have ha := (hflow.left.under env).unabandonedAt hpast h
      obtain ⟨-, hanswers⟩ := hnews e (by simp)
      change DurableTask.Faithful env service ctx e.kind
      cases hk : e.kind with
      | resolve id payload message polls =>
        rw [hk] at hanswers
        obtain ⟨b, hb, rfl, v, hv, hq⟩ := hanswers
        intro a hissued hid
        have hrequest := hrun.request_eq henv hflow.left.once
          (fun e he => (hnews e (List.mem_append_left _ he)).1) h ha hb hissued hid.symm
        exact ⟨v, hv, fun q hm => hq q (hrequest ▸ hm)⟩
      | raise r =>
        rw [hk] at hanswers
        obtain ⟨v, hv, hs⟩ := hanswers
        exact ⟨v, hv, by rwa [henv.toLowercase]⟩
      | _ => trivial
    · split <;> trivial

theorem faithful_confirmed (hfaithful : self.Faithful service history)
    (hk : ∀ e ∈ events, ∃ id, e.kind = .acknowledge id) :
    self.Faithful service (history ++ events) := by
  refine Throughout.append hfaithful fun ctx _ => .intro fun past e later ctx₁ hsplit _ => ?_
  obtain ⟨id, hid⟩ := hk e (by simp [hsplit])
  rw [hid]
  trivial

end OrchestrationExecutorFuture

end DurableTask
