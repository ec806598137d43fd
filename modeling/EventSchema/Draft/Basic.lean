import EventSchema.Model.Provider
import EventSchema.Error
import EventSchema.WorkQueue

/-!
A provider while its schema is being read. A draft has no provider until the first definition, and
it keeps the files that the schema refers to. A definition that fails part of the way keeps what it
has already changed, so the operations are a state monad with errors in which the state outlives an
error.

Each single change of the provider is a function to `Except`, which changes all or nothing.
-/

namespace EventSchema

/-- The state of a schema that is being read. -/
structure Draft where
  provider : Option Provider := none
  queue : WorkQueue := {}
  deriving DecidableEq

/-- The text that stands for an argument. Without a provider there are no aliases. -/
def Draft.aliased (d : Draft) (arg : String) : String :=
  match d.provider with
  | some p => p.aliased arg
  | none => arg

/-- A step in reading a schema. -/
abbrev Build := EStateM Error Draft

namespace Build

/-- The result of a computation that reads no draft. -/
def ofExcept {α : Type} (x : Except Error α) : Build α :=
  match x with
  | .ok a => pure a
  | .error e => throw e

theorem ofExcept_bind_eq_ok {α β : Type} {x : Except Error α} {f : α → Build β} {d e : Draft}
    {b : β} : (ofExcept x >>= f) d = .ok b e ↔ ∃ a, x = .ok a ∧ f a d = .ok b e := by
  cases x with
  | ok a =>
    constructor
    · intro h
      exact ⟨a, rfl, h⟩
    · rintro ⟨_, ⟨⟩, h⟩
      exact h
  | error fault =>
    constructor
    · intro h
      cases (show EStateM.Result.error fault d = .ok b e from h)
    · rintro ⟨_, ⟨⟩, _⟩

/-- The text that stands for an argument at this point. -/
def aliased (arg : String) : Build String := do
  return (← get).aliased arg

/-- Changes the provider, which exists from then on, or fails and leaves it as it was. -/
def update (change : Provider → Except Error Provider) : Build Unit := fun d =>
  let p := d.provider.getD {}
  match change p with
  | .ok p' => .ok () { d with provider := some p' }
  | .error e => .error e { d with provider := some p }

/-- Changes the queue. -/
def updateQueue (change : WorkQueue → WorkQueue) : Build Unit :=
  modify fun d => { d with queue := change d.queue }

end Build

end EventSchema
