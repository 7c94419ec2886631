import DurableTask.Protocol.Messages

/-! # Oneshot channels and completable tasks

A `CompletableTask` is what an orchestrator awaits: either it was completed on
the spot, or it holds the receiver of a oneshot channel whose sender the
executor keeps. Each poll of a receiver is subject to the cooperative budget
of the tokio task that runs the executor.
-/

namespace DurableTask

/-- The places of the source that panic. -/
inductive Panic where
  /-- An `expect` on the `send` of a completion arm, with its message. -/
  | expect (message : String)
  /-- The `unwrap` on the `send` to a signal waiter. -/
  | deadWaiter
  /-- An `unwrap` on the front of an empty per-name queue. -/
  | emptyQueue
  /-- The `unwrap` on "Polled without orchestration future". -/
  | polledWithoutFuture
  /-- A finished orchestrator future was polled. -/
  | polledAfterReady
  /-- A oneshot receiver was polled after it had yielded. -/
  | calledAfterComplete
  /-- The `unwrap` on the result of a completed task that was already taken. -/
  | resultTaken
  /-- An `unwrap` on an absent payload. -/
  | missingPayload
  /-- A task was used after it was dropped, which no Rust program can do. -/
  | useAfterDrop
  /-- The code of the orchestrator panicked, with its message. -/
  | program (message : String)
  deriving DecidableEq, Repr

/-- `std::task::Poll`. -/
inductive Poll (α : Type*) where
  | ready (a : α)
  | pending
  deriving DecidableEq, Repr

/--
The cooperative budget of a tokio task: how many more receiver polls may be ready before the
runtime polls the task anew. `none` is an unconstrained task.
-/
abbrev Budget := Option ℕ

namespace Budget

def exhausted (b : Budget) : Prop := b = some 0

instance (b : Budget) : Decidable b.exhausted := inferInstanceAs (Decidable (b = some 0))

def spend (b : Budget) : Budget := b.map (· - 1)

end Budget

/-- A oneshot channel as its receiver finds it. -/
inductive Oneshot where
  /-- Nothing was sent yet. -/
  | empty
  /-- A value was sent and not received. -/
  | sent (value : Option String)
  /-- The sender was dropped without sending. -/
  | closed
  /-- The receiver has yielded. -/
  | taken
  deriving DecidableEq, Repr

/-- `oneshot::Receiver::poll`. -/
def Oneshot.poll (rx : Oneshot) (b : Budget) :
    Except Panic (Poll (Except Unit (Option String)) × Oneshot × Budget) :=
  if rx = .taken then .error .calledAfterComplete
  else if b.exhausted then .ok (.pending, rx, b)
  else
    match rx with
    | .sent v => .ok (.ready (.ok v), .taken, b.spend)
    | .closed => .ok (.ready (.error ()), .taken, b.spend)
    | _ => .ok (.pending, rx, b)

/-- A future that can be completed. -/
structure CompletableTask where
  completed : Bool
  result : Option String
  unblockRx : Oneshot
  deriving DecidableEq, Repr

namespace CompletableTask

def new : CompletableTask := ⟨false, none, .empty⟩

def complete (t : CompletableTask) (result : String) : CompletableTask :=
  { t with result := some result, completed := true }

def poll (t : CompletableTask) (b : Budget) :
    Except Panic (Poll String × CompletableTask × Budget) :=
  if t.completed then
    match t.result with
    | some result => .ok (.ready result, { t with result := none }, b)
    | none => .error .resultTaken
  else
    match t.unblockRx.poll b with
    | .error p => .error p
    | .ok (.ready (.ok (some result)), rx, b') =>
      .ok (.ready result, { t with unblockRx := rx }, b')
    | .ok (.ready (.ok none), _, _) => .error .missingPayload
    | .ok (.ready (.error _), rx, b') => .ok (.pending, { t with unblockRx := rx }, b')
    | .ok (.pending, rx, b') => .ok (.pending, { t with unblockRx := rx }, b')

end CompletableTask

/-- What created a task: the action it was issued with, or the signal it waits for. -/
inductive Origin where
  | action (action : OrchestratorAction)
  | signal (name : String)
  deriving DecidableEq, Repr

/-- A task on the heap. The origin and the outcome are only recorded, never read. -/
structure Cell where
  origin : Origin
  task : CompletableTask
  /-- The task was dropped, and its receiver with it. -/
  dropped : Bool
  /-- What the task has resolved to. -/
  outcome : Option String
  deriving DecidableEq, Repr

namespace Cell

def new (origin : Origin) : Cell := ⟨origin, .new, false, none⟩

def drop (c : Cell) : Cell := { c with dropped := true }

def poll (c : Cell) (b : Budget) : Except Panic (Poll String × Cell × Budget) :=
  if c.dropped then .error .useAfterDrop
  else
    match c.task.poll b with
    | .error p => .error p
    | .ok (.ready v, t, b') => .ok (.ready v, { c with task := t, outcome := some v }, b')
    | .ok (.pending, t, b') => .ok (.pending, { c with task := t }, b')

/-- The task was dropped before it resolved. -/
def Abandoned (c : Cell) : Prop := c.dropped = true ∧ c.outcome = none

instance (c : Cell) : Decidable c.Abandoned :=
  inferInstanceAs (Decidable (c.dropped = true ∧ c.outcome = none))

end Cell

/-- A task is referred to by its place on the heap. -/
abbrev TaskRef := ℕ

end DurableTask
