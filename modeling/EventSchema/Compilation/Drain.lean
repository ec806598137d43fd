import EventSchema.Compilation.Note

/-!
Compiling a schema from its root file. Files are taken from the queue until it is empty; then the
provider is numbered.

Files come from a loader in any monad, and what the run has to say goes to a listener, which may
leave it unread. The run of a schema may go on forever when files include each other and duplicates
are not skipped, so it is given a bound on the number of files it may take.

Main statements: `compile` reads the files of a function (`compile_eq`), one after the other
(`drain_of_empty`, `drain_of_next`).
-/

namespace EventSchema

namespace Compilation

/-- Takes files until the queue is empty, but at most `bound` of them; `none` if some are left. -/
def drain {m : Type → Type} [Monad m] (load : String → m (Option Bytes))
    (tell : (Unit → List Note) → m Unit) (settings : Settings) (hash : Bytes → String) :
    Nat → Run → m (Option (Except Error Run))
  | bound, r =>
    match nextFile? r with
    | none => pure (some (.ok r))
    | some (path, r') =>
      match bound with
      | 0 => pure none
      | bound + 1 => do
        let contents? ← load path
        tell fun _ => contents?.toList.flatMap (fileNotes settings hash r' path)
        match takeFile settings hash r' path contents? with
        | .error e => return some (.error e)
        | .ok r'' => drain load tell settings hash bound r''

/-- Compiles a schema with files from a loader; `none` if the bound was too small. -/
def compileFrom {m : Type → Type} [Monad m] (load : String → m (Option Bytes))
    (tell : (Unit → List Note) → m Unit) (settings : Settings) (hash : Bytes → String)
    (bound : Nat) (root : String) : m (Option (Except Error Compilation)) := do
  let contents? ← load root
  tell fun _ => contents?.toList.flatMap (rootNotes root)
  match start hash root contents? with
  | .error e => return some (.error e)
  | .ok r =>
    match ← drain load tell settings hash bound r with
    | none => return none
    | some (.error e) => return some (.error e)
    | some (.ok r) =>
      tell fun _ => numberingNotes (r.draft.provider.getD {})
      return some (finish r)

/-! ## Files of a function -/

/-- Compiles a schema whose files are given by a function. -/
def compile (load : String → Option Bytes) (settings : Settings) (hash : Bytes → String)
    (bound : Nat) (root : String) : Option (Except Error Compilation) :=
  Id.run (compileFrom (m := Id) load (fun _ => pure ()) settings hash bound root)

variable {load : String → Option Bytes} {settings : Settings} {hash : Bytes → String}

theorem drain_of_empty {bound : Nat} {r : Run} (h : nextFile? r = none) :
    drain (m := Id) load (fun _ => pure ()) settings hash bound r = some (.ok r) := by
  rw [drain, h]
  rfl

theorem drain_of_next {bound : Nat} {r r' : Run} {path : String}
    (h : nextFile? r = some (path, r')) :
    drain (m := Id) load (fun _ => pure ()) settings hash (bound + 1) r =
      match takeFile settings hash r' path (load path) with
      | .error e => some (.error e)
      | .ok r'' => drain (m := Id) load (fun _ => pure ()) settings hash bound r'' := by
  rw [drain, h]
  rfl

/-- A run is that of the queue after the root file, and then its provider is numbered. -/
theorem compile_eq (bound : Nat) (root : String) :
    compile load settings hash bound root =
      match start hash root (load root) with
      | .error e => some (.error e)
      | .ok r =>
        (drain (m := Id) load (fun _ => pure ()) settings hash bound r).map (·.bind finish) := by
  change (match start hash root (load root) with
    | .error e => some (.error e)
    | .ok r =>
      match drain (m := Id) load (fun _ => pure ()) settings hash bound r with
      | none => none
      | some (.error e) => some (.error e)
      | some (.ok r) => some (finish r) : Option (Except Error Compilation)) = _
  cases start hash root (load root) with
  | error e => rfl
  | ok r =>
    dsimp only
    rcases drain (m := Id) load (fun _ => pure ()) settings hash bound r with _ | _ | _ <;> rfl

end Compilation

end EventSchema
