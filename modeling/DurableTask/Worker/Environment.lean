import DurableTask.Storage.Cells
import DurableTask.Worker.Loop

/-! # The environment of a worker

The environment holds one value of each type. A value is put into a box that
forgets its type, under the id of the type, and is taken out again by a cast.
-/

namespace DurableTask

open Storage

variable {T : Type} [DecidableEq T] {El : T → Type}

/-- `Box<dyn Any>`: a value and the id of its type. -/
structure Boxed (El : T → Type) where
  id : T
  val : El id

def Boxed.downcast (boxed : Boxed El) (t : T) : Option (El t) :=
  if h : boxed.id = t then some (h ▸ boxed.val) else none

structure Environment (El : T → Type) where
  map : T → Option (Boxed El)
  /-- Whatever is stored under the id of a type is of the type. -/
  typed : ∀ t boxed, map t = some boxed → boxed.id = t

namespace Environment

def empty : Environment El where
  map _ := none
  typed _ _ h := by cases h

def insert (self : Environment El) {t : T} (val : El t) : Environment El × Option (El t) :=
  (⟨Function.update self.map t (some ⟨t, val⟩), by
      intro t' boxed h
      by_cases ht : t' = t
      · subst ht
        rw [Function.update_self, Option.some.injEq] at h
        rw [← h]
      · rw [Function.update_of_ne ht] at h
        exact self.typed t' boxed h⟩,
    (self.map t).bind (·.downcast t))

def get (self : Environment El) (t : T) : Option (El t) :=
  (self.map t).bind (·.downcast t)

variable {self other : Environment El} {t : T}

theorem map_eq : self.map t = (self.get t).map (Boxed.mk t) := by
  cases h : self.map t with
  | none => simp [get, h]
  | some boxed =>
    obtain ⟨id, val⟩ := boxed
    obtain rfl : id = t := self.typed t ⟨id, val⟩ h
    simp [get, h, Boxed.downcast]

theorem ext_get (h : self.get = other.get) : self = other := by
  have hmap : self.map = other.map := by
    funext t
    rw [map_eq, map_eq, h]
  cases self
  cases other
  subst hmap
  rfl

theorem insert_snd (val : El t) : (self.insert val).2 = self.get t := rfl

/-- What is found of each type is what was written last. -/
theorem get_insert (val : El t) :
    (self.insert val).1.get = Contents.write self.get ⟨t, val⟩ := by
  funext t'
  by_cases ht : t = t'
  · subst ht
    simp [get, insert, Boxed.downcast]
  · rw [Contents.write_of_ne ht]
    simp [get, insert, Function.update_of_ne (Ne.symm ht)]

end Environment

/-- `ActivityContext::environment`: a function gets at the values by their types. -/
def ActivityContext.view (ctx : ActivityContext (Environment El)) :
    ActivityContext (Contents El) where
  orchestrationId := ctx.orchestrationId
  taskId := ctx.taskId
  environment := ctx.environment.get

def Activity.over (a : Activity (Contents El)) : Activity (Environment El) where
  Arg := a.Arg
  Out := a.Out
  decode := a.decode
  encode := a.encode
  func ctx := a.func ctx.view

def Worker.addEnvironment (self : Worker (Environment El)) {t : T} (data : El t) :
    Worker (Environment El) :=
  { self with environment := (self.environment.insert data).1 }

/-- What is done with a worker between `new` and `start`. -/
inductive Setup (El : T → Type) where
  | addOrchestrator (name : String) (func : OrchestratorFunction)
  | addActivity (name : String) (func : Activity (Contents El))
  | addEnvironment (t : T) (data : El t)

def Worker.perform (self : Worker (Environment El)) : Setup El → Worker (Environment El)
  | .addOrchestrator name func => self.addOrchestrator name func
  | .addActivity name func => self.addActivity name func.over
  | .addEnvironment _ data => self.addEnvironment data

def Worker.setUp (env : OrchestratorRequest → Env) (setups : List (Setup El)) :
    Worker (Environment El) :=
  setups.foldl Worker.perform (.new .empty env)

end DurableTask
