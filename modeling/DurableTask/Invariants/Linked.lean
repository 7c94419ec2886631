import DurableTask.Executor.Drain
import Mathlib.Data.List.Nodup

/-! # Senders and their tasks

The executor finds a task by the id of its action, a waiter by the name of its
signal. The invariant ties every sender that is parked under an id or a name to
the task it unblocks, and every live task that waits to a sender. It holds in
every state of every run, whatever the history.
-/

namespace DurableTask

open Interaction Queues

theorem Cell.At.close {c : Cell} (h : c.At .waiting) :
    ({ c with task.unblockRx := .closed } : Cell).At .lost := by
  obtain ⟨ht, ho⟩ := h
  exact ⟨.inl (by simp [ht, CompletableTask.new]), ho⟩

def Stage.sent : Option String → Stage
  | some v => .given v
  | none => .void

theorem Cell.At.send {c : Cell} (h : c.At .waiting) (v : Option String) :
    ({ c with task.unblockRx := .sent v } : Cell).At (.sent v) := by
  obtain ⟨ht, ho⟩ := h
  cases v with
  | some v => exact ⟨.inl (by simp [ht, CompletableTask.new]), ho⟩
  | none => exact ⟨by simp [ht, CompletableTask.new], ho⟩

namespace OrchestrationExecutorContext

variable (ctx : OrchestrationExecutorContext)

/-- The sender of a task is with the executor or on its way there. -/
def Parked (id : Int) (t : TaskRef) : Prop :=
  ctx.pendingTasks.lookup id = some t ∨ (id, t) ∈ ctx.world.octx.tasksTx

def waiters (name : String) : List TaskRef :=
  ctx.pendingEvents.get name ++ (ctx.world.octx.eventsTx.filter (·.1 = name)).map Prod.snd

/-- Some sender of the task is left. -/
def Held (t : TaskRef) : Prop := (∃ id, ctx.Parked id t) ∨ ∃ name, t ∈ ctx.waiters name

/-- Senders and tasks belong together. -/
structure Linked : Prop where
  task : ∀ {id : Int} {t : TaskRef}, ctx.Parked id t → ∃ c a, ctx.world.cells[t]? = some c ∧
    c.origin = .action a ∧ a.id = id ∧ c.At .waiting
  waiter : ∀ {name : String} {t : TaskRef}, t ∈ ctx.waiters name →
    ∃ c, ctx.world.cells[t]? = some c ∧ c.origin = .signal name ∧ c.At .waiting
  sent_nodup : (ctx.world.octx.tasksTx.map Prod.snd).Nodup
  sent_new : ∀ m ∈ ctx.world.octx.tasksTx, ∀ id, ctx.pendingTasks.lookup id ≠ some m.2
  nodup : ∀ name, (ctx.waiters name).Nodup
  staged : ∀ {t : TaskRef} {c : Cell}, ctx.world.cells[t]? = some c → ∃ s, c.At s
  held : ∀ {t : TaskRef} {c : Cell}, ctx.world.cells[t]? = some c → c.dropped = false →
    c.At .waiting → ctx.Held t

variable {ctx} {ctx' : OrchestrationExecutorContext} {env : Env}

theorem Linked.task_at (h : ctx.Linked) {id : Int} {t : TaskRef} {c : Cell} (ht : ctx.Parked id t)
    (hc : ctx.world.cells[t]? = some c) :
    ∃ a, c.origin = .action a ∧ a.id = id ∧ c.At .waiting := by
  obtain ⟨c', a, hc', ho⟩ := h.task ht
  rw [hc] at hc'
  cases hc'
  exact ⟨a, ho⟩

theorem Linked.waiter_at (h : ctx.Linked) {name : String} {t : TaskRef} {c : Cell}
    (ht : t ∈ ctx.waiters name) (hc : ctx.world.cells[t]? = some c) :
    c.origin = .signal name ∧ c.At .waiting := by
  obtain ⟨c', hc', ho⟩ := h.waiter ht
  rw [hc] at hc'
  cases hc'
  exact ho

theorem Linked.lt_of_parked (h : ctx.Linked) {id : Int} {t : TaskRef} (ht : ctx.Parked id t) :
    t < ctx.world.cells.length := by
  obtain ⟨c, a, hc, -⟩ := h.task ht
  exact (List.getElem?_eq_some_iff.mp hc).1

theorem Linked.lt_of_waiter (h : ctx.Linked) {name : String} {t : TaskRef}
    (ht : t ∈ ctx.waiters name) : t < ctx.world.cells.length := by
  obtain ⟨c, hc, -⟩ := h.waiter ht
  exact (List.getElem?_eq_some_iff.mp hc).1

theorem Linked.task_ne_waiter (h : ctx.Linked) {id : Int} {name : String} {t u : TaskRef}
    (ht : ctx.Parked id t) (hu : u ∈ ctx.waiters name) : t ≠ u := by
  rintro rfl
  obtain ⟨c, a, hc, ho, -⟩ := h.task ht
  rw [(h.waiter_at hu hc).1] at ho
  cases ho

theorem Linked.task_inj (h : ctx.Linked) {id id' : Int} {t : TaskRef} (ht : ctx.Parked id t)
    (ht' : ctx.Parked id' t) : id = id' := by
  obtain ⟨c, a, hc, ho, rfl, -⟩ := h.task ht
  obtain ⟨a', ho', rfl, -⟩ := h.task_at ht' hc
  rw [ho] at ho'
  cases ho'
  rfl

theorem Linked.name_inj (h : ctx.Linked) {name name' : String} {t : TaskRef}
    (ht : t ∈ ctx.waiters name) (ht' : t ∈ ctx.waiters name') : name = name' := by
  obtain ⟨c, hc, ho, -⟩ := h.waiter ht
  rw [(h.waiter_at ht' hc).1] at ho
  cases ho
  rfl

theorem Drained.parked (hd : ctx.Drained) {id : Int} {t : TaskRef} :
    ctx.Parked id t ↔ ctx.pendingTasks.lookup id = some t := by
  simp [Parked, hd.tasks]

theorem Drained.waiters (hd : ctx.Drained) (name : String) :
    ctx.waiters name = ctx.pendingEvents.get name := by
  simp [OrchestrationExecutorContext.waiters, hd.events]

/-- How a task may change while the executor loses senders only. -/
structure Keeps (ctx ctx' : OrchestrationExecutorContext) (t : TaskRef) (c c' : Cell) : Prop where
  origin : c'.origin = c.origin
  stage : ctx'.Held t → c.At .waiting → c'.At .waiting
  staged : ∃ s, c'.At s
  held : c'.dropped = false → c'.At .waiting → c.dropped = false ∧ c.At .waiting ∧
    (ctx.Held t → ctx'.Held t)

/-- Losing senders, or tasks, keeps the rest linked. -/
theorem Linked.mono (h : ctx.Linked)
    (hlen : ctx'.world.cells.length = ctx.world.cells.length)
    (hcells : ∀ t c c', ctx.world.cells[t]? = some c → ctx'.world.cells[t]? = some c' →
      Keeps ctx ctx' t c c')
    (htx : ctx'.world.octx.tasksTx.Sublist ctx.world.octx.tasksTx)
    (hp : ∀ {id : Int} {t : TaskRef}, ctx'.Parked id t → ctx.Parked id t)
    (hnew : ∀ m ∈ ctx'.world.octx.tasksTx, ∀ id, ctx'.pendingTasks.lookup id ≠ some m.2)
    (hw : ∀ name, (ctx'.waiters name).Sublist (ctx.waiters name)) : ctx'.Linked := by
  have get {t : ℕ} {c : Cell} (hc : ctx.world.cells[t]? = some c) :
      ∃ c', ctx'.world.cells[t]? = some c' := by
    have hlt := (List.getElem?_eq_some_iff.mp hc).1
    exact ⟨ctx'.world.cells[t], List.getElem?_eq_getElem (hlen ▸ hlt)⟩
  have got {t : ℕ} {c' : Cell} (hc' : ctx'.world.cells[t]? = some c') :
      ∃ c, ctx.world.cells[t]? = some c := by
    have hlt := (List.getElem?_eq_some_iff.mp hc').1
    exact ⟨ctx.world.cells[t], List.getElem?_eq_getElem (hlen ▸ hlt)⟩
  refine ⟨fun {id t} ht => ?_, fun {name t} ht => ?_, h.sent_nodup.sublist (htx.map _), hnew,
    fun name => (h.nodup name).sublist (hw name), fun {t c'} hc' => ?_,
    fun {t c'} hc' hd hw' => ?_⟩
  · obtain ⟨c, a, hc, ho, hid, hwait⟩ := h.task (hp ht)
    obtain ⟨c', hc'⟩ := get hc
    have hk := hcells t c c' hc hc'
    exact ⟨c', a, hc', hk.origin.trans ho, hid, hk.stage (.inl ⟨id, ht⟩) hwait⟩
  · obtain ⟨c, hc, ho, hwait⟩ := h.waiter ((hw name).subset ht)
    obtain ⟨c', hc'⟩ := get hc
    have hk := hcells t c c' hc hc'
    exact ⟨c', hc', hk.origin.trans ho, hk.stage (.inr ⟨name, ht⟩) hwait⟩
  · obtain ⟨c, hc⟩ := got hc'
    exact (hcells t c c' hc hc').staged
  · obtain ⟨c, hc⟩ := got hc'
    obtain ⟨hd', hwait, hheld⟩ := (hcells t c c' hc hc').held hd hw'
    exact hheld (h.held hc hd' hwait)

theorem Linked.evolve {ctx' : OrchestrationExecutorContext} (h : ctx.Linked)
    (hlen : ctx'.world.cells.length = ctx.world.cells.length)
    (hcells : ∀ (t : TaskRef) (c : Cell), ctx.world.cells[t]? = some c →
      ∃ c', ctx'.world.cells[t]? = some c' ∧ c.Evolves c')
    (hoctx : ctx'.world.octx.tasksTx = ctx.world.octx.tasksTx)
    (ht : ctx'.pendingTasks = ctx.pendingTasks)
    (hw : ∀ name, ctx'.waiters name = ctx.waiters name) : ctx'.Linked := by
  have hparked {id : Int} {t : TaskRef} : ctx'.Parked id t ↔ ctx.Parked id t := by
    simp only [Parked, hoctx, ht]
  have hheld {t : TaskRef} : ctx'.Held t ↔ ctx.Held t := by simp only [Held, hparked, hw]
  refine h.mono hlen (fun t c c' hc hc' => ?_) (by rw [hoctx]) hparked.mp
    (fun m hm id => ?_) (fun name => by rw [hw])
  · obtain ⟨c₁, hc₁, he⟩ := hcells t c hc
    rw [hc'] at hc₁
    cases hc₁
    refine ⟨he.origin, fun _ hwait => ?_, he.staged (h.staged hc), fun hd hwait => ?_⟩
    · rcases he.stage _ hwait with h' | ⟨v, hv, -⟩
      · exact h'
      · cases hv
    · exact ⟨he.live hd, he.waiting (h.staged hc) hwait, hheld.mpr⟩
  · rw [ht]
    exact h.sent_new m (hoctx ▸ hm) id

/-- A new task on the heap, and with it at most its own sender. -/
theorem Linked.alloc {d : Cell} (h : ctx.Linked)
    (hcells : ctx'.world.cells = ctx.world.cells ++ [d])
    (hs : ∃ s, d.At s) (hd : d.At .waiting → ctx'.Held ctx.world.cells.length)
    (hheld : ∀ {t : TaskRef}, ctx.Held t → ctx'.Held t)
    (hp : ∀ {id : Int} {t : TaskRef}, ctx'.Parked id t → ctx.Parked id t ∨
      t = ctx.world.cells.length ∧ d.At .waiting ∧ ∃ a, d.origin = .action a ∧ a.id = id)
    (hw : ∀ {name : String} {t : TaskRef}, t ∈ ctx'.waiters name → t ∈ ctx.waiters name ∨
      t = ctx.world.cells.length ∧ d.At .waiting ∧ d.origin = .signal name)
    (hsent : (ctx'.world.octx.tasksTx.map Prod.snd).Nodup)
    (hnew : ∀ m ∈ ctx'.world.octx.tasksTx, ∀ id, ctx'.pendingTasks.lookup id ≠ some m.2)
    (hnodup : ∀ name, (ctx'.waiters name).Nodup) : ctx'.Linked := by
  have old {t : ℕ} {c : Cell} (hc : ctx.world.cells[t]? = some c) :
      ctx'.world.cells[t]? = some c := by
    rw [hcells, List.getElem?_append_left (List.getElem?_eq_some_iff.mp hc).1, hc]
  have new : ctx'.world.cells[ctx.world.cells.length]? = some d := by simp [hcells]
  have cases {t : ℕ} {c : Cell} (hc : ctx'.world.cells[t]? = some c) :
      ctx.world.cells[t]? = some c ∨ t = ctx.world.cells.length ∧ c = d := by
    rw [hcells, List.getElem?_append] at hc
    split at hc
    · exact .inl hc
    · obtain ⟨hlt, rfl⟩ := List.getElem?_eq_some_iff.mp hc
      simp only [List.length_singleton] at hlt
      exact .inr ⟨by omega, by simp⟩
  refine ⟨fun {id t} ht => ?_, fun {name t} ht => ?_, hsent, hnew, hnodup,
    fun {t c} hc => ?_, fun {t c} hc hd hwait => ?_⟩
  · rcases hp ht with ht | ⟨rfl, hwait, a, ho, hid⟩
    · obtain ⟨c, a, hc, ho⟩ := h.task ht
      exact ⟨c, a, old hc, ho⟩
    · exact ⟨d, a, new, ho, hid, hwait⟩
  · rcases hw ht with ht | ⟨rfl, hwait, ho⟩
    · obtain ⟨c, hc, ho⟩ := h.waiter ht
      exact ⟨c, old hc, ho⟩
    · exact ⟨d, new, ho, hwait⟩
  · rcases cases hc with hc | ⟨-, rfl⟩
    · exact h.staged hc
    · exact hs
  · rcases cases hc with hc | ⟨rfl, rfl⟩
    · exact hheld (h.held hc hd hwait)
    · exact hd hwait

theorem Linked.issue (h : ctx.Linked) (reads : ℕ) {mk : Int → OrchestratorAction}
    (hid : ∀ id, (mk id).id = id) :
    ({ ctx with world := ({ ctx.world with clockReads := ctx.world.clockReads + reads }.issue
      mk).2 } : OrchestrationExecutorContext).Linked := by
  refine h.alloc (d := .new (.action (mk (ctx.world.octx.sequenceNumber + 1)))) rfl
    ⟨_, Cell.at_new _⟩ (fun _ => .inl ⟨ctx.world.octx.sequenceNumber + 1, .inr ?_⟩)
    (fun {t} ht => ?_) (fun {id t} ht => ?_) .inl ?_ (fun m hm id hl => ?_) h.nodup
  · simp
  · rcases ht with ⟨id, hl | hm⟩ | ⟨name, hm⟩
    · exact .inl ⟨id, .inl hl⟩
    · exact .inl ⟨id, .inr (List.mem_append_left _ hm)⟩
    · exact .inr ⟨name, hm⟩
  · simp only [Parked, World.issue_eq, List.mem_append, List.mem_singleton, ← or_assoc] at ht
    rcases ht with ht | ht
    · exact .inl ht
    · cases ht
      exact .inr ⟨rfl, Cell.at_new _, _, rfl, hid _⟩
  · simp only [World.issue_eq, List.map_append, List.map_cons, List.map_nil]
    refine List.nodup_append.mpr ⟨h.sent_nodup, List.nodup_singleton _, ?_⟩
    rintro _ hm _ hn rfl
    obtain ⟨m, hm, he⟩ := List.mem_map.mp hm
    exact Nat.ne_of_lt (h.lt_of_parked (.inr hm)) (he.trans (List.mem_singleton.mp hn))
  · simp only [World.issue_eq, List.mem_append, List.mem_singleton] at hm
    rcases hm with hm | rfl
    · exact h.sent_new m hm id hl
    · exact Nat.lt_irrefl _ (h.lt_of_parked (.inl hl))

theorem waiters_wait (w : World) (name name' : String) (t : TaskRef)
    (hpe : w.octx.eventsTx = ctx.world.octx.eventsTx ++ [(name, t)]) :
    ({ ctx with world := w } : OrchestrationExecutorContext).waiters name' =
      ctx.waiters name' ++ if name = name' then [t] else [] := by
  by_cases hn : name = name' <;> simp [waiters, hpe, hn]

/-- The program waits for a signal: its sender is on its way under the name. -/
theorem Linked.wait (h : ctx.Linked) (name : String) :
    ({ ctx with world := { ctx.world with
      octx := { ctx.world.octx with
        eventsTx := ctx.world.octx.eventsTx ++ [(name, ctx.world.cells.length)] }
      cells := ctx.world.cells ++ [.new (.signal name)] } } :
        OrchestrationExecutorContext).Linked := by
  refine h.alloc (d := .new (.signal name)) rfl ⟨_, Cell.at_new _⟩ (fun _ => .inr ⟨name, ?_⟩)
    (fun {t} ht => ?_) .inl (fun {name' t} ht => ?_) h.sent_nodup h.sent_new (fun name' => ?_)
  · rw [waiters_wait _ name name _ rfl]
    simp
  · rcases ht with ⟨id, ht⟩ | ⟨name', hm⟩
    · exact .inl ⟨id, ht⟩
    · exact .inr ⟨name', by
        rw [waiters_wait _ name name' _ rfl]
        exact List.mem_append_left _ hm⟩
  · rw [waiters_wait _ name name' _ rfl, List.mem_append] at ht
    rcases ht with ht | ht
    · exact .inl ht
    · split at ht
      · rename_i hn
        exact .inr ⟨List.mem_singleton.mp ht, Cell.at_new _, hn ▸ rfl⟩
      · cases ht
  · rw [waiters_wait _ name name' _ rfl]
    refine List.nodup_append.mpr ⟨h.nodup name', by split <;> simp, ?_⟩
    rintro t ht _ hu rfl
    split at hu
    · exact absurd (List.mem_singleton.mp hu) (Nat.ne_of_lt (h.lt_of_waiter ht))
    · cases hu

theorem Linked.step (h : ctx.Linked) {w : World} (hs : World.Step env ctx.world w) :
    ({ ctx with world := w } : OrchestrationExecutorContext).Linked := by
  have hcells := fun (t : TaskRef) (c : Cell) (hc : ctx.world.cells[t]? = some c) => hs.cells hc
  cases hs with
  | issue reads mk hid _ => exact h.issue reads hid
  | wait name _ => exact h.wait (env.toLowercase name)
  | take name payload received _ =>
    refine h.alloc rfl ⟨.given payload, .inr rfl, rfl⟩ (fun hw => ?_) id .inl .inl h.sent_nodup
      h.sent_new h.nodup
    cases hw.1
  | poll t c c' r b _ _ => exact h.evolve (by simp) hcells rfl rfl fun _ => rfl
  | drop t => exact h.evolve (by simp [World.dropTask]) hcells rfl rfl fun _ => rfl

theorem Linked.steps (h : ctx.Linked) {w : World} (hs : World.Steps env ctx.world w) :
    ({ ctx with world := w } : OrchestrationExecutorContext).Linked :=
  hs.preserves (P := fun w => ({ ctx with world := w } : OrchestrationExecutorContext).Linked)
    (fun _ _ hs h => h.step hs) h

section TakeTask

variable {m : Int × TaskRef} {rest : List (Int × TaskRef)}

theorem waiters_takeTask (name : String) :
    ({ ctx with world.octx.tasksTx := rest }.takeTask m).waiters name = ctx.waiters name := by
  simp only [waiters, takeTask_octx]
  rfl

/-- A sender that is replaced is parked no more. -/
theorem Linked.parked_takeTask (h : ctx.Linked) (hm : ctx.world.octx.tasksTx = m :: rest)
    (id : Int) (t : TaskRef) : ({ ctx with world.octx.tasksTx := rest }.takeTask m).Parked id t ↔
      ctx.Parked id t ∧ ctx.pendingTasks.lookup m.1 ≠ some t := by
  have hlk : ({ ctx with world.octx.tasksTx := rest }.takeTask m).pendingTasks =
    ctx.pendingTasks.insert m.1 m.2 := rfl
  simp only [Parked, takeTask_octx, hlk, hm, List.mem_cons]
  constructor
  · rintro (hl | hr)
    · by_cases hid : id = m.1
      · subst hid
        rw [AList.lookup_insert] at hl
        cases hl
        exact ⟨.inr (.inl rfl), h.sent_new m (by simp [hm]) _⟩
      · rw [AList.lookup_insert_ne hid] at hl
        exact ⟨.inl hl, fun hl' => hid (h.task_inj (.inl hl) (.inl hl'))⟩
    · exact ⟨.inr (.inr hr), h.sent_new (id, t) (by simp [hm, hr]) _⟩
  · rintro ⟨hl | hr | hr, hne⟩
    · exact .inl (by rwa [AList.lookup_insert_ne (by rintro rfl; exact hne hl)])
    · cases hr
      exact .inl (AList.lookup_insert _)
    · exact .inr hr

/-- A message from `task_rx` is taken; a sender that it replaces is lost. -/
theorem Linked.takeTask (h : ctx.Linked) (hm : ctx.world.octx.tasksTx = m :: rest) :
    ({ ctx with world.octx.tasksTx := rest }.takeTask m).Linked := by
  have hnd := h.sent_nodup
  rw [hm, List.map_cons, List.nodup_cons] at hnd
  refine h.mono (by simp) (fun t c c' hc hc' => ?_) (by simp [hm])
    (fun ht => ((h.parked_takeTask hm _ _).mp ht).1) (fun m' hm' id hl => ?_)
    (fun name => by rw [waiters_takeTask])
  · rw [takeTask_cells] at hc'
    split at hc'
    · rename_i hl
      simp only [hc, Option.map_some, Option.some.injEq] at hc'
      subst hc'
      obtain ⟨a, ho, -, hw⟩ := h.task_at (.inl hl) hc
      refine ⟨rfl, ?_, ⟨_, Cell.At.close hw⟩, fun _ hw' => ?_⟩
      · rintro (⟨id, ht⟩ | ⟨name, ht⟩)
        · exact absurd hl ((h.parked_takeTask hm id t).mp ht).2
        · rw [waiters_takeTask] at ht
          exact absurd rfl (h.task_ne_waiter (.inl hl) ht)
      · cases (Cell.At.close hw).unique hw'
    · rename_i hl
      have he : c = c' := Option.some.inj (hc ▸ hc')
      subst he
      refine ⟨rfl, fun _ hw => hw, h.staged hc, fun hd hw => ⟨hd, hw, ?_⟩⟩
      rintro (⟨id, ht⟩ | ⟨name, ht⟩)
      · exact .inl ⟨id, (h.parked_takeTask hm id t).mpr ⟨ht, hl⟩⟩
      · exact .inr ⟨name, by rwa [waiters_takeTask]⟩
  · have hmr : m' ∈ rest := by simpa using hm'
    by_cases hid : id = m.1
    · subst hid
      rw [OrchestrationExecutorContext.takeTask, AList.lookup_insert] at hl
      exact hnd.1 (List.mem_map.mpr ⟨m', hmr, (Option.some.inj hl).symm⟩)
    · rw [OrchestrationExecutorContext.takeTask, AList.lookup_insert_ne hid] at hl
      exact h.sent_new m' (by simp [hm, hmr]) id hl

end TakeTask

theorem waiters_takeWaiter {m : String × TaskRef} {rest : List (String × TaskRef)}
    (hm : ctx.world.octx.eventsTx = m :: rest) (name : String) :
    ({ ctx with world.octx.eventsTx := rest }.takeWaiter m).waiters name = ctx.waiters name := by
  by_cases hn : m.1 = name
  · subst hn
    simp [waiters, takeWaiter, hm]
  · simp [waiters, takeWaiter, hm, hn, Keyed.get_push_ne (Ne.symm hn)]

theorem Linked.release {t : TaskRef} {c₁ : Cell} {s : Stage} (h : ctx.Linked)
    (hlen : ctx'.world.cells.length = ctx.world.cells.length)
    (hne : ∀ u, u ≠ t → ctx'.world.cells[u]? = ctx.world.cells[u]?)
    (hc₁ : ctx'.world.cells[t]? = some c₁) (hs : c₁.At s) (hsw : s ≠ .waiting)
    (ho : ∀ c, ctx.world.cells[t]? = some c → c₁.origin = c.origin)
    (hoctx : ctx'.world.octx = ctx.world.octx)
    (hp : ∀ id u, ctx'.pendingTasks.lookup id = some u → ctx.pendingTasks.lookup id = some u)
    (hw : ∀ name, (ctx'.waiters name).Sublist (ctx.waiters name)) (ht : ¬ctx'.Held t)
    (hheld : ∀ u, u ≠ t → ctx.Held u → ctx'.Held u) : ctx'.Linked := by
  refine h.mono hlen (fun u c c' hc hc' => ?_) (by rw [hoctx]) (fun {id u} hpk => ?_)
    (fun m hm id hl => h.sent_new m (hoctx ▸ hm) id (hp id _ hl)) hw
  · by_cases hu : u = t
    · subst hu
      rw [hc₁] at hc'
      cases hc'
      exact ⟨ho c hc, fun hh => absurd hh ht, ⟨s, hs⟩, fun _ hw' => absurd (hs.unique hw') hsw⟩
    · rw [hne u hu, hc] at hc'
      cases hc'
      exact ⟨rfl, fun _ hw => hw, h.staged hc, fun hd hw => ⟨hd, hw, hheld u hu⟩⟩
  · rcases hpk with hl | hm
    · exact .inl (hp id u hl)
    · exact .inr (hoctx ▸ hm)

/-- A completion event takes the sender of the task it names. -/
theorem Linked.releaseTask (h : ctx.Linked) (hd : ctx.Drained) {id : Int} {t : TaskRef} {c₁ : Cell}
    {s : Stage} {w : World} (hl : ctx.pendingTasks.lookup id = some t)
    (hlen : w.cells.length = ctx.world.cells.length)
    (hne : ∀ u, u ≠ t → w.cells[u]? = ctx.world.cells[u]?) (hc₁ : w.cells[t]? = some c₁)
    (hs : c₁.At s) (hsw : s ≠ .waiting)
    (ho : ∀ c, ctx.world.cells[t]? = some c → c₁.origin = c.origin)
    (hoctx : w.octx = ctx.world.octx) :
    ({ ctx with pendingTasks := ctx.pendingTasks.erase id, world := w } :
      OrchestrationExecutorContext).Linked := by
  have hd' : ({ ctx with pendingTasks := ctx.pendingTasks.erase id, world := w } :
      OrchestrationExecutorContext).Drained := hd.of_octx hoctx
  have hparked (id' : Int) (u : TaskRef) :
      ({ ctx with pendingTasks := ctx.pendingTasks.erase id, world := w } :
        OrchestrationExecutorContext).Parked id' u ↔ ctx.Parked id' u ∧ id' ≠ id := by
    rw [hd'.parked, hd.parked]
    by_cases hid : id' = id
    · subst hid
      simp
    · simp [AList.lookup_erase_ne hid, hid]
  have hwait (name : String) :
      ({ ctx with pendingTasks := ctx.pendingTasks.erase id, world := w } :
        OrchestrationExecutorContext).waiters name = ctx.waiters name := by
    rw [hd'.waiters, hd.waiters]
  refine h.release hlen hne hc₁ hs hsw ho hoctx
    (fun id' u hl' => (hd.parked).mp ((hparked id' u).mp (.inl hl')).1)
    (fun name => by rw [hwait]) ?_ fun u hu hh => ?_
  · rintro (⟨id', ht⟩ | ⟨name, ht⟩)
    · exact ((hparked id' t).mp ht).2 (h.task_inj ((hparked id' t).mp ht).1 (.inl hl))
    · rw [hwait] at ht
      exact h.task_ne_waiter (.inl hl) ht rfl
  · rcases hh with ⟨id', ht⟩ | ⟨name, ht⟩
    · refine .inl ⟨id', (hparked id' u).mpr ⟨ht, ?_⟩⟩
      rintro rfl
      rw [hd.parked, hl] at ht
      exact hu (Option.some.inj ht).symm
    · exact .inr ⟨name, by rwa [hwait]⟩

theorem waiters_pop (hd : ctx.Drained) (name : String) (t : TaskRef) (rest : List TaskRef)
    {w : World} (hw : w.octx = ctx.world.octx) (name' : String) :
    ({ ctx with pendingEvents := ctx.pendingEvents.pop name (t :: rest), world := w } :
      OrchestrationExecutorContext).waiters name' =
      if name' = name then rest else ctx.waiters name' := by
  have hd' : ({ ctx with pendingEvents := ctx.pendingEvents.pop name (t :: rest), world := w } :
      OrchestrationExecutorContext).Drained := hd.of_octx hw
  rw [hd'.waiters, hd.waiters]
  split
  · rename_i hn
    simp [hn]
  · rename_i hn
    exact Keyed.get_pop_ne hn

theorem waiters_of_lookup (hd : ctx.Drained) {name : String} {q : List TaskRef}
    (hl : ctx.pendingEvents.lookup name = some q) : ctx.waiters name = q := by
  rw [hd.waiters, Keyed.get_of_lookup hl]

theorem mem_waiters_of_lookup (hd : ctx.Drained) {name : String} {t : TaskRef} {rest : List TaskRef}
    (hl : ctx.pendingEvents.lookup name = some (t :: rest)) : t ∈ ctx.waiters name := by
  rw [waiters_of_lookup hd hl]
  exact List.mem_cons_self

/-- A raised event takes the sender of the first waiter of its name. -/
theorem Linked.releaseWaiter (h : ctx.Linked) (hd : ctx.Drained) {name : String} {t : TaskRef}
    {rest : List TaskRef} {c₁ : Cell} {s : Stage} {w : World}
    (hl : ctx.pendingEvents.lookup name = some (t :: rest))
    (hlen : w.cells.length = ctx.world.cells.length)
    (hne : ∀ u, u ≠ t → w.cells[u]? = ctx.world.cells[u]?) (hc₁ : w.cells[t]? = some c₁)
    (hs : c₁.At s) (hsw : s ≠ .waiting)
    (ho : ∀ c, ctx.world.cells[t]? = some c → c₁.origin = c.origin)
    (hoctx : w.octx = ctx.world.octx) :
    ({ ctx with pendingEvents := ctx.pendingEvents.pop name (t :: rest), world := w } :
      OrchestrationExecutorContext).Linked := by
  have hq := waiters_of_lookup hd hl
  have hnd := h.nodup name
  rw [hq, List.nodup_cons] at hnd
  have hmem : t ∈ ctx.waiters name := by simp [hq]
  have hparked (id : Int) (u : TaskRef) :
      ({ ctx with pendingEvents := ctx.pendingEvents.pop name (t :: rest), world := w } :
        OrchestrationExecutorContext).Parked id u ↔ ctx.Parked id u := by
    simp only [Parked, hoctx]
  have hpop := waiters_pop hd name t rest hoctx
  refine h.release hlen hne hc₁ hs hsw ho hoctx (fun _ _ hl => hl) (fun name' => ?_) ?_
    fun u hu hh => ?_
  · rw [hpop]
    split
    · rename_i hn
      rw [hn, hq]
      exact List.sublist_cons_self t rest
    · exact .refl _
  · rintro (⟨id, ht⟩ | ⟨name', ht⟩)
    · exact h.task_ne_waiter ((hparked id t).mp ht) hmem rfl
    · rw [hpop] at ht
      split at ht
      · exact hnd.1 ht
      · rename_i hn
        exact hn (h.name_inj ht hmem)
  · rcases hh with ⟨id, ht⟩ | ⟨name', ht⟩
    · exact .inl ⟨id, (hparked id u).mpr ht⟩
    · refine .inr ⟨name', ?_⟩
      rw [hpop]
      split
      · rename_i hn
        rw [hn, hq] at ht
        exact (List.mem_cons.mp ht).resolve_left hu
      · exact ht

theorem Linked.dropBefore {fn : Option BoxFuture} {base : ℕ} (h : ctx.Linked) :
    ({ ctx with orchestratorFn := fn, world := ctx.world.dropBefore base } :
      OrchestrationExecutorContext).Linked := by
  exact h.evolve World.dropBefore_length (fun t c hc => World.dropBefore_evolves hc) rfl rfl
    fun _ => rfl

end OrchestrationExecutorContext

open OrchestrationExecutorContext

variable {env : Env} {ctx ctx' : OrchestrationExecutorContext}

theorem Move.linked (hm : Move env ctx ctx') (h : ctx.Linked) : ctx'.Linked := by
  cases hm with
  | step _ _ w _ hs => exact h.step hs
  | takeTask m rest hm => exact h.takeTask hm
  | finish b _ r _ =>
    exact h.evolve World.dropFrom_length (fun _ _ hc => World.dropFrom_evolves hc) rfl rfl
      fun _ => rfl
  | takeWaiter m rest hm =>
    exact h.evolve rfl (fun t c hc => ⟨c, hc, .refl c⟩) rfl rfl (waiters_takeWaiter hm)
  | takeAction m rest _ =>
    rw [takeAction_eq]
    exact h.evolve rfl (fun t c hc => ⟨c, hc, .refl c⟩) rfl rfl fun _ => rfl
  | _ => exact h.evolve rfl (fun t c hc => ⟨c, hc, .refl c⟩) rfl rfl fun _ => rfl

theorem Moves.linked (hm : Moves env ctx ctx') (h : ctx.Linked) : ctx'.Linked :=
  hm.preserves (fun _ _ hm h => hm.linked h) h

theorem Delivery.linked {k : EventKind} (hdel : Delivery env ctx k ctx') (hd : ctx.Drained)
    (h : ctx.Linked) : ctx'.Linked := by
  cases hdel with
  | send id v message polls t w hl hs =>
    obtain ⟨c, hc, hlive, rfl⟩ := World.send_ok hs
    obtain ⟨a, -, -, hw⟩ := h.task_at (.inl hl) hc
    have hlt := (List.getElem?_eq_some_iff.mp hc).1
    have hne : Stage.sent (some v) ≠ .waiting := by simp [Stage.sent]
    exact h.releaseTask hd hl (by simp) (fun u hu => by simp [List.getElem?_set_ne (Ne.symm hu)])
      (by simp [hlt]) (hw.send (some v)) hne (fun c' hc' => by rw [hc] at hc'; cases hc'; rfl) rfl
  | close id message polls t hl =>
    obtain ⟨c, a, hc, -, -, hw⟩ := h.task (.inl hl)
    have hne : Stage.lost ≠ .waiting := by simp
    exact h.releaseTask hd hl (by simp [World.dropSender])
      (fun u hu => by simp [World.dropSender, Ne.symm hu])
      (by simp [World.dropSender, hc]) hw.close hne
      (fun c' hc' => by rw [hc] at hc'; cases hc'; rfl) rfl
  | give e t rest w hl hs =>
    obtain ⟨c, hc, hlive, rfl⟩ := World.send_ok hs
    have hw := (h.waiter_at (mem_waiters_of_lookup hd hl) hc).2
    have hlt := (List.getElem?_eq_some_iff.mp hc).1
    exact h.releaseWaiter hd hl (by simp)
      (fun u hu => by simp [List.getElem?_set_ne (Ne.symm hu)]) (by simp [hlt]) (hw.send e.input)
      (by cases e.input <;> simp [Stage.sent]) (fun c' hc' => by rw [hc] at hc'; cases hc'; rfl) rfl
  | buffer e _ => exact h.evolve rfl (fun t c hc => ⟨c, hc, .refl c⟩) rfl rfl fun _ => rfl
  | _ => exact h

namespace OrchestrationExecutorFuture

variable {self : OrchestrationExecutorFuture}

theorem linked_of_started {instanceId : String} {input : Option String} {w : World}
    (hd : ctx.Drained) (h : ctx.Linked)
    (hs : World.Steps env { ctx.world with octx := .new instanceId input, notified := false } w) :
    ({ ctx with world := w } : OrchestrationExecutorContext).Linked := by
  have hfresh : ({ ctx with
      world := { ctx.world with octx := .new instanceId input, notified := false } } :
      OrchestrationExecutorContext).Linked :=
    h.evolve rfl (fun t c hc => ⟨c, hc, .refl c⟩) hd.tasks.symm rfl
      (fun name => by rw [hd.waiters]; simp [waiters, OrchestratorContext.new])
  exact hfresh.steps hs

theorem Turn.start_evolves {e : ExecutionStartedEvent} (ht : self.Turn ctx (.start e) ctx')
    {t : TaskRef} {c : Cell} (hc : ctx.world.cells[t]? = some c) :
    ∃ c', ctx'.world.cells[t]? = some c' ∧ c.Evolves c' := by
  obtain rfl | ⟨func, w, -, hsteps, ⟨s, -, rfl⟩ | ⟨r, -, rfl⟩⟩ := ht.start_cases
  · exact ⟨c, hc, .refl c⟩
  · obtain ⟨c₁, hc₁, he₁⟩ := hsteps.cells hc
    obtain ⟨c₂, hc₂, he₂⟩ : ∃ c₂, (w.dropBefore ctx.world.cells.length).cells[t]? = some c₂ ∧
      c₁.Evolves c₂ := World.dropBefore_evolves hc₁
    exact ⟨c₂, hc₂, he₁.trans he₂⟩
  · obtain ⟨c₁, hc₁, he₁⟩ := hsteps.cells hc
    obtain ⟨c₂, hc₂, he₂⟩ : ∃ c₂, (w.dropFrom ctx.world.cells.length).cells[t]? = some c₂ ∧
      c₁.Evolves c₂ := World.dropFrom_evolves hc₁
    exact ⟨c₂, hc₂, he₁.trans he₂⟩

theorem Turn.start_linked {e : ExecutionStartedEvent} (ht : self.Turn ctx (.start e) ctx')
    (hd : ctx.Drained) (h : ctx.Linked) : ctx'.Linked := by
  have old {t : TaskRef} {c : Cell} (hc : ctx.world.cells[t]? = some c) := ht.start_evolves hc
  obtain rfl | ⟨func, w, -, hsteps, ⟨s, -, rfl⟩ | ⟨r, -, rfl⟩⟩ := ht.start_cases
  · exact h
  · exact (linked_of_started hd h hsteps).dropBefore
  · -- the new tasks are all dropped, and the old ones keep their senders
    have hstaged := linked_of_started hd h hsteps
    refine ⟨fun {id t} ht => ?_, fun {name t} ht => ?_, h.sent_nodup, h.sent_new, h.nodup,
      fun {t c} hc => ?_, fun {t c} hc hdr hw => ?_⟩
    · obtain ⟨c, a, hc, ho, hid, hw⟩ := h.task ht
      obtain ⟨c', hc', he⟩ := old hc
      exact ⟨c', a, hc', he.origin.trans ho, hid, he.waits hw⟩
    · obtain ⟨c, hc, ho, hw⟩ := h.waiter ht
      obtain ⟨c', hc', he⟩ := old hc
      exact ⟨c', hc', he.origin.trans ho, he.waits hw⟩
    · obtain ⟨c₁, hc₁, he⟩ := World.dropFrom_source hc
      exact he.staged (hstaged.staged hc₁)
    · obtain ⟨c₁, hc₁, he⟩ := World.dropFrom_source hc
      have hlt := World.dropFrom_live hc hdr
      have hc₀ := List.getElem?_eq_getElem hlt
      obtain ⟨c', hc', he'⟩ := old hc₀
      have heq : c = c' := Option.some.inj (hc ▸ hc')
      subst heq
      exact h.held hc₀ (he'.live hdr) (he'.waiting (h.staged hc₀) hw)

theorem processEvent_linked {e : HistoryEvent} (hc : ctx.isComplete = false) (hd : ctx.Drained)
    (h : ctx.Linked) (he : self.processEvent ctx e = .ok ctx') : ctx'.Linked := by
  obtain ⟨s, -, ht⟩ | ⟨-, ctx₁, hdel, hm⟩ := processEvent_cases hc he
  · exact ht.start_linked hd h
  · exact hm.linked (hdel.linked hd h)

end OrchestrationExecutorFuture

/-- What holds of the executor between two events, whatever the history. -/
structure OrchestrationExecutorContext.Regular (ctx : OrchestrationExecutorContext) : Prop where
  incomplete : ctx.isComplete = false
  drained : ctx.Drained
  linked : ctx.Linked

namespace OrchestrationExecutorFuture

variable {self : OrchestrationExecutorFuture} {events : List HistoryEvent}

theorem regular_new (budget : Budget) : (new budget).Regular where
  incomplete := rfl
  drained := ⟨rfl, rfl, rfl⟩
  linked := ⟨fun hp => by simp [Parked, new, OrchestratorContext.new] at hp,
    fun hp => by simp [waiters, new, OrchestratorContext.new] at hp,
    by simp [new, OrchestratorContext.new], by simp [new, OrchestratorContext.new],
    fun name => by simp [waiters, new, OrchestratorContext.new],
    fun hc => by simp [new] at hc, fun hc => by simp [new] at hc⟩

theorem processEvent_regular {e : HistoryEvent} (h : ctx.Regular)
    (he : self.processEvent ctx e = .ok ctx') : ctx'.drain.Regular where
  incomplete := (drain_moves self.env _).isComplete.trans
    (processEvent_isComplete h.incomplete he)
  drained := processEvent_drained h.incomplete h.drained he
  linked := (drain_moves self.env ctx').linked
    (processEvent_linked h.incomplete h.drained h.linked he)

theorem processEvents_regular (h : ctx.Regular) (he : self.processEvents ctx events = .ok ctx') :
    ctx'.Regular :=
  processEvents_induct (P := fun _ ctx => ctx.Regular) h
    (fun _ _ _ _ _ hr he => processEvent_regular hr he) he

theorem replay_regular (h : self.replay events = .ok ctx) : ctx.Regular :=
  processEvents_regular (regular_new _) h

end OrchestrationExecutorFuture

/-- No message on its way replaces the sender of the task. -/
def OrchestrationExecutorContext.Kept (ctx : OrchestrationExecutorContext) (t : TaskRef) : Prop :=
  ∀ m ∈ ctx.world.octx.tasksTx, ctx.pendingTasks.lookup m.1 ≠ some t

theorem Move.cells (hm : Move env ctx ctx') {t : TaskRef} {c : Cell}
    (hc : ctx.world.cells[t]? = some c) : ∃ c', ctx'.world.cells[t]? = some c' ∧
      c'.origin = c.origin ∧ (c.Abandoned → c'.Abandoned) ∧ (ctx.Kept t → c.Evolves c') := by
  have evolves {w : World} (h : ∃ c', w.cells[t]? = some c' ∧ c.Evolves c') :
      ∃ c', w.cells[t]? = some c' ∧ c'.origin = c.origin ∧ (c.Abandoned → c'.Abandoned) ∧
        (ctx.Kept t → c.Evolves c') := by
    obtain ⟨c', hc', he⟩ := h
    exact ⟨c', hc', he.origin, he.abandoned, fun _ => he⟩
  cases hm with
  | step _ _ w _ hs => exact evolves (hs.cells hc)
  | finish b _ r _ => exact evolves (w := ctx.world.dropFrom b) (World.dropFrom_evolves hc)
  | takeTask m rest hm =>
    rw [takeTask_cells]
    split
    · rename_i hl
      exact ⟨{ c with task.unblockRx := .closed }, by simp [hc], rfl, id,
        fun hk => absurd hl (hk m (by simp [hm]))⟩
    · exact evolves ⟨c, hc, .refl c⟩
  | takeAction m rest _ =>
    rw [takeAction_eq]
    exact evolves ⟨c, hc, .refl c⟩
  | _ => exact evolves ⟨c, hc, .refl c⟩

theorem OrchestrationExecutorContext.Linked.kept_of_not_waiting (h : ctx.Linked) {t : TaskRef}
    {c : Cell} (hc : ctx.world.cells[t]? = some c) (hw : ¬c.At .waiting) : ctx.Kept t := by
  intro m hm hl
  obtain ⟨a, -, -, hw'⟩ := h.task_at (.inl hl) hc
  exact hw hw'

theorem OrchestrationExecutorContext.Linked.kept_of_signal (h : ctx.Linked) {t : TaskRef} {c : Cell}
    (hc : ctx.world.cells[t]? = some c) {name : String} (ho : c.origin = .signal name) :
    ctx.Kept t := by
  intro m hm hl
  obtain ⟨a, ho₁, -⟩ := h.task_at (.inl hl) hc
  rw [ho] at ho₁
  cases ho₁

theorem OrchestrationExecutorContext.Linked.lookup_of_waiting (h : ctx.Linked) (hd : ctx.Drained)
    {t : TaskRef} {c : Cell} (hc : ctx.world.cells[t]? = some c) {a : OrchestratorAction}
    (ho : c.origin = .action a) (hlive : c.dropped = false) (hw : c.At .waiting) :
    ctx.pendingTasks.lookup a.id = some t := by
  rcases h.held hc hlive hw with ⟨id', hp⟩ | ⟨name, hm⟩
  · obtain ⟨a', ho', rfl, -⟩ := h.task_at hp hc
    rw [ho] at ho'
    cases ho'
    exact hd.parked.mp hp
  · rw [(h.waiter_at hm hc).1] at ho
    cases ho

theorem Move.evolves (hm : Move env ctx ctx') (h : ctx.Linked) {t : TaskRef} {c : Cell}
    (hc : ctx.world.cells[t]? = some c) (hw : ¬c.At .waiting) :
    ∃ c', ctx'.world.cells[t]? = some c' ∧ c.Evolves c' := by
  obtain ⟨c', hc', -, -, he⟩ := hm.cells hc
  exact ⟨c', hc', he (h.kept_of_not_waiting hc hw)⟩

theorem Moves.evolves (hm : Moves env ctx ctx') (h : ctx.Linked) {t : TaskRef} {c : Cell}
    (hc : ctx.world.cells[t]? = some c) (hw : ¬c.At .waiting) :
    ∃ c', ctx'.world.cells[t]? = some c' ∧ c.Evolves c' := by
  induction hm with
  | refl => exact ⟨c, hc, .refl c⟩
  | tail hms hm ih =>
    obtain ⟨c₁, hc₁, he₁⟩ := ih
    obtain ⟨c₂, hc₂, he₂⟩ := hm.evolves (Moves.linked hms h) hc₁
      fun hw' => hw (he₁.waiting (h.staged hc) hw')
    exact ⟨c₂, hc₂, he₁.trans he₂⟩

theorem Delivery.evolves {k : EventKind} (hdel : Delivery env ctx k ctx') (hd : ctx.Drained)
    (h : ctx.Linked) {t : TaskRef} {c : Cell} (hc : ctx.world.cells[t]? = some c)
    (hw : ¬c.At .waiting) : ctx'.world.cells[t]? = some c := by
  have ne_of_task {id : Int} {u : TaskRef} (hl : ctx.pendingTasks.lookup id = some u) : u ≠ t := by
    rintro rfl
    obtain ⟨a, -, -, hw'⟩ := h.task_at (.inl hl) hc
    exact hw hw'
  cases hdel with
  | send id v message polls u w hl hs =>
    obtain ⟨c', hc', -, rfl⟩ := World.send_ok hs
    simp [List.getElem?_set_ne (ne_of_task hl), hc]
  | close id message polls u hl => simp [World.dropSender, ne_of_task hl, hc]
  | give e u rest w hl hs =>
    obtain ⟨c', hc', -, rfl⟩ := World.send_ok hs
    have hne : u ≠ t := by
      rintro rfl
      exact hw (h.waiter_at (mem_waiters_of_lookup hd hl) hc).2
    simp [List.getElem?_set_ne hne, hc]
  | _ => exact hc

namespace OrchestrationExecutorFuture

variable {self : OrchestrationExecutorFuture} {events : List HistoryEvent}

theorem processEvent_evolves {e : HistoryEvent} (hr : ctx.Regular)
    (he : self.processEvent ctx e = .ok ctx') {t : TaskRef} {c : Cell}
    (hc : ctx.world.cells[t]? = some c) (hw : ¬c.At .waiting) :
    ∃ c', ctx'.drain.world.cells[t]? = some c' ∧ c.Evolves c' := by
  have hl' := processEvent_linked hr.incomplete hr.drained hr.linked he
  suffices h : ∃ c', ctx'.world.cells[t]? = some c' ∧ c.Evolves c' by
    obtain ⟨c₁, hc₁, he₁⟩ := h
    obtain ⟨c₂, hc₂, he₂⟩ := (drain_moves self.env ctx').evolves hl' hc₁
      fun hw' => hw (he₁.waiting (hr.linked.staged hc) hw')
    exact ⟨c₂, hc₂, he₁.trans he₂⟩
  obtain ⟨s, -, ht⟩ | ⟨-, ctx₁, hdel, hm⟩ := processEvent_cases hr.incomplete he
  · exact ht.start_evolves hc
  · exact hm.evolves (hdel.linked hr.drained hr.linked)
      (hdel.evolves hr.drained hr.linked hc hw) hw

theorem processEvents_evolves (hr : ctx.Regular) (he : self.processEvents ctx events = .ok ctx')
    {t : TaskRef} {c : Cell} (hc : ctx.world.cells[t]? = some c) (hw : ¬c.At .waiting) :
    ∃ c', ctx'.world.cells[t]? = some c' ∧ c.Evolves c' := by
  refine processEvents_induct
    (P := fun _ ctx => ∃ c', ctx.world.cells[t]? = some c' ∧ c.Evolves c') ?_ ?_ he
  · exact ⟨c, hc, .refl c⟩
  · rintro past e ctx₁ ctx₂ h₁ ⟨c₁, hc₁, he₁⟩ he
    obtain ⟨c₂, hc₂, he₂⟩ := processEvent_evolves (processEvents_regular hr h₁) he hc₁
      fun hw' => hw (he₁.waiting (hr.linked.staged hc) hw')
    exact ⟨c₂, hc₂, he₁.trans he₂⟩

end OrchestrationExecutorFuture

end DurableTask
