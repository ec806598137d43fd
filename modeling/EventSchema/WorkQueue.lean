/-!
The files that are still to be compiled. `SOURCE` puts a file behind the others and `INCLUDE` in
front of them, so an included file is read before anything that was already waiting.
-/

namespace EventSchema

/-- The paths that are still to be compiled, the next one first. -/
structure WorkQueue where
  pending : List String := []
  deriving DecidableEq

namespace WorkQueue

/-- The queue with a path behind all others. -/
def pushBack (q : WorkQueue) (path : String) : WorkQueue := ⟨q.pending ++ [path]⟩

/-- The queue with a path in front of all others. -/
def pushFront (q : WorkQueue) (path : String) : WorkQueue := ⟨path :: q.pending⟩

/-- The queue with several paths in front of all others, in the order given. -/
def pushFrontAll (q : WorkQueue) (paths : List String) : WorkQueue :=
  paths.foldr (fun path q => q.pushFront path) q

/-- The next path and the queue without it. -/
def pop? (q : WorkQueue) : Option (String × WorkQueue) :=
  match q.pending with
  | [] => none
  | path :: rest => some (path, ⟨rest⟩)

/-- The number of paths that wait. -/
def size (q : WorkQueue) : Nat := q.pending.length

/-- Whether no path waits. -/
def isEmpty (q : WorkQueue) : Bool := q.pending.isEmpty

theorem isEmpty_iff {q : WorkQueue} : q.isEmpty = true ↔ q.pending = [] := List.isEmpty_iff

theorem pop?_eq_none_iff {q : WorkQueue} : q.pop? = none ↔ q.isEmpty = true := by
  rw [pop?, isEmpty_iff]
  cases q.pending <;> simp

theorem pop?_eq_some_iff {q rest : WorkQueue} {path : String} :
    q.pop? = some (path, rest) ↔ q.pending = path :: rest.pending := by
  rw [pop?]
  cases q.pending with
  | nil => simp
  | cons first others =>
    constructor
    · rintro ⟨⟩
      rfl
    · rintro ⟨⟩
      rfl

@[simp] theorem pending_pushBack (q : WorkQueue) (path : String) :
    (q.pushBack path).pending = q.pending ++ [path] := rfl

@[simp] theorem pending_pushFront (q : WorkQueue) (path : String) :
    (q.pushFront path).pending = path :: q.pending := rfl

@[simp] theorem pending_pushFrontAll (q : WorkQueue) (paths : List String) :
    (q.pushFrontAll paths).pending = paths ++ q.pending := by
  induction paths with
  | nil => rfl
  | cons path rest ih => exact (pending_pushFront _ path).trans (congrArg (path :: ·) ih)

/-- Paths that go in front one by one end up in the order opposite to the one they came in. -/
theorem foldl_pushFront_reverse (q : WorkQueue) (paths : List String) :
    paths.reverse.foldl pushFront q = q.pushFrontAll paths := by
  rw [List.foldl_reverse]
  rfl

end WorkQueue

end EventSchema
