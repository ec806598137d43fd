import EventSchema.Document.Parse
import EventSchema.Draft.Statement
import EventSchema.Numbering.Assign

/-!
What a compilation is made of: its settings, the memory of the contents that have been read, and the
single steps from a root file to a numbered provider. Files wait in a queue that the files
themselves extend. A file whose contents have been read before is skipped, unless duplicates are
wanted.

Main statement: contents are remembered exactly when they were not remembered before
(`remember?_isNone_iff`, `has_of_remember?`).
-/

namespace EventSchema

/-- How a schema is compiled. -/
structure Settings where
  /-- The text that introduces a clause in source files. -/
  marker : String := Source.defaultMarker
  /-- Whether a file with the contents of an earlier one is skipped. -/
  skipDuplicates : Bool := true
  deriving DecidableEq

/-- A compiled schema. -/
structure Compilation where
  provider : Provider
  /-- The files that were read, in order. -/
  files : List String
  /-- The files that were skipped, in order. -/
  skipped : List String
  deriving DecidableEq

namespace Compilation

/-! ## Contents that were read -/

/-- Contents by their hashes; different contents may share one. -/
abbrev Seen := Table String (List Bytes)

/-- Whether contents were remembered before. -/
def Seen.has (hash : Bytes → String) (seen : Seen) (contents : Bytes) : Bool :=
  ((seen.find? (hash contents)).getD []).contains contents

/-- The memory with these contents, or `none` if they were there. -/
def remember? (hash : Bytes → String) (seen : Seen) (contents : Bytes) : Option Seen :=
  if seen.has hash contents then none
  else
    let bucket := (seen.find? (hash contents)).getD []
    some (seen.insert (hash contents) (bucket ++ [contents]))

theorem remember?_isNone_iff (hash : Bytes → String) (seen : Seen) (contents : Bytes) :
    (remember? hash seen contents).isNone = true ↔ seen.has hash contents = true := by
  rw [remember?]
  split <;> simp_all

/-- After contents are remembered, they and what was there before are known, and nothing else. -/
theorem has_of_remember? {hash : Bytes → String} {seen seen' : Seen} {contents : Bytes}
    (h : remember? hash seen contents = some seen') (other : Bytes) :
    seen'.has hash other = (decide (other = contents) || seen.has hash other) := by
  rw [remember?] at h
  split at h
  · cases h
  · cases h
    rw [Seen.has, Table.find?_insert, Seen.has]
    by_cases hh : hash other = hash contents
    · rw [if_pos hh, hh]
      by_cases ho : other = contents <;> simp [ho]
    · have ho : other ≠ contents := fun e => hh (congrArg hash e)
      simp [hh, ho]

/-! ## The run -/

/-- The state between two files. -/
structure Run where
  draft : Draft := {}
  seen : Seen := ∅
  files : List String := []
  skipped : List String := []

/-- The draft after a step. -/
def draftAfter {α : Type} (step : Build α) (d : Draft) : Except Error Draft :=
  match step d with
  | .ok _ d' => .ok d'
  | .error e _ => .error e

/-- Merges the documents of a text. -/
def mergeDocuments (path text : String) : Build Unit := do
  (← Build.ofExcept (Document.parse path text)).forM Document.merge

/-- Takes the contents of a file that is not the root: JSON documents are merged, and the clauses of
every other text are carried out. -/
def takeText (marker path text : String) : Build Unit :=
  if isDocumentFile path text then mergeDocuments path text
  else discard (Build.applySource marker text)

/-- The state after the root file, which is a document of either kind. -/
def start (hash : Bytes → String) (root : String) (contents? : Option Bytes) : Except Error Run :=
  match contents? with
  | none => .error (.fileUnavailable root)
  | some contents => do
    let d ← draftAfter (mergeDocuments root (Text.Utf8.decodeLossy contents)) {}
    return {
      draft := d
      seen := (remember? hash ∅ contents).getD ∅
      files := [root] }

/-- The state after a file that was taken from the queue. -/
def takeFile (settings : Settings) (hash : Bytes → String) (r : Run) (path : String)
    (contents? : Option Bytes) : Except Error Run :=
  match contents? with
  | none => .error (.fileUnavailable path)
  | some contents =>
    let read (seen : Seen) : Except Error Run := do
      let d ← draftAfter
        (takeText settings.marker path (Text.Utf8.decodeLossy contents)) r.draft
      return { draft := d, seen, files := r.files ++ [path], skipped := r.skipped }
    if settings.skipDuplicates then
      match remember? hash r.seen contents with
      | none => .ok { r with skipped := r.skipped ++ [path] }
      | some seen => read seen
    else read r.seen

/-- The state without the next file of its queue. -/
def nextFile? (r : Run) : Option (String × Run) :=
  (r.draft.queue.pop?).map fun next =>
    (next.1, { r with draft := { r.draft with queue := next.2 } })

/-- The result of a run whose queue is empty. -/
def finish (r : Run) : Except Error Compilation := do
  return {
    provider := ← (r.draft.provider.getD {}).numbered
    files := r.files
    skipped := r.skipped }

end Compilation

end EventSchema
