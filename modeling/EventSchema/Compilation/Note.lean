import EventSchema.Compilation.Basic
import EventSchema.Files.System

/-!
What a compilation has to say while it runs. A note is worked out from the state before a step and
from what the step is given, so the steps themselves keep no record.
-/

namespace EventSchema

open Text.Numeral (decimal)

/-! ## Notes -/

/-- How important a note is, the most important first. -/
inductive NoteLevel
  | notice
  | warning
  | progress
  | detail
  deriving DecidableEq, Repr

/-- Something that a run has to say. -/
inductive Note
  /-- More was asked for than is ever said. -/
  | verbosityCapped
  | unreadable (path : String) (fault : PathFault)
  | rootTaken (path : String)
  | fileTaken (path : String)
  /-- The contents of the file have been read before. -/
  | fileSkipped (path : String)
  /-- A markup document says nothing about the provider itself. -/
  | providerMissing (path : String)
  /-- An opcode that a clause gives to a task becomes one of the provider. -/
  | opcodeShared (opcode task : String)
  | clausesTaken (path : String) (count : Nat)
  | numberFound (space : NumberSpace) (owner : String) (value : UInt32)
  | compiled (files skipped : Nat)
  deriving DecidableEq

/-- What introduces a note of a level. -/
def NoteLevel.heading : NoteLevel → String
  | .notice => ""
  | .warning => "[WARN] "
  | .progress => "[INFO] "
  | .detail => "[DEBUG] "

namespace Note

def level : Note → NoteLevel
  | .verbosityCapped => .notice
  | .fileSkipped _ | .opcodeShared .. => .warning
  | .rootTaken _ | .fileTaken _ | .compiled .. => .progress
  | .unreadable .. | .providerMissing _ | .clausesTaken .. | .numberFound .. => .detail

/-- The wording of a note. -/
def text : Note → String
  | .verbosityCapped => "using more than -vvv does not affect verbosity level"
  | .unreadable path fault => s!"failed to read `{path}`: {fault.message}"
  | .rootTaken path => s!"compiling root document `{path}`"
  | .fileTaken path => s!"compiling `{path}`"
  | .fileSkipped path => s!"skipping `{path}`, its contents were already compiled"
  | .providerMissing path => s!"XML document `{path}` has no <provider> element"
  | .opcodeShared opcode task =>
    s!"opcode `{opcode}` of task `{task}` is registered in the provider wide opcode map"
  | .clausesTaken path count => s!"`{path}` contained {decimal count} clause(s)"
  | .numberFound space owner value => s!"{space.noun} `{owner}` assigned {decimal value.toNat}"
  | .compiled files skipped =>
    s!"compiled {decimal files} file(s), skipped {decimal skipped} duplicate(s)"

end Note

/-- Whether notes of a level are shown, by how often more of them were asked for. -/
def NoteLevel.isShown (verbosity : Nat) : NoteLevel → Bool
  | .notice | .warning => true
  | .progress => decide (1 ≤ verbosity)
  | .detail => decide (2 ≤ verbosity)

namespace Compilation

/-! ## What the steps say -/

/-- Notes on a text of documents. -/
def documentNotes (path text : String) : List Note :=
  if isJson text then []
  else
    match Document.ofMarkup path text with
    | .ok document => if document.provider.isNone then [.providerMissing path] else []
    | .error _ => []

/-- Notes on the root file. -/
def rootNotes (root : String) (contents : Bytes) : List Note :=
  .rootTaken root :: documentNotes root (Text.Utf8.decodeLossy contents)

/-- Notes on a statement that is to be carried out. -/
def statementNotes (d : Draft) : Statement → List Note
  | .defineTaskOpcode task opcode =>
    match d.provider.bind (·.tasks.find? task) with
    | some t => if t.opcodes.contains opcode then [] else [.opcodeShared opcode task]
    | none => []
  | _ => []

/-- Notes on clauses, up to the first that fails; the last notes follow only if none does. -/
def clauseNotes (last : List Note) : Draft → List String → List Note
  | _, [] => last
  | d, text :: rest =>
    match Source.Clause.parse text with
    | .error _ => []
    | .ok c =>
      ((Statement.ofArguments c.method (c.args.map d.aliased)).toOption.toList.flatMap
        (statementNotes d)) ++
        match Build.applyClause c d with
        | .ok _ d' => clauseNotes last d' rest
        | .error .. => []

/-- Notes on a source text. -/
def sourceNotes (marker path text : String) (d : Draft) : List Note :=
  let (clauses, fault?) := Source.scan marker text
  clauseNotes (if fault?.isNone then [.clausesTaken path clauses.length] else []) d clauses

/-- Notes on a file that was taken from the queue. -/
def fileNotes (settings : Settings) (hash : Bytes → String) (r : Run) (path : String)
    (contents : Bytes) : List Note :=
  if settings.skipDuplicates && r.seen.has hash contents then [.fileSkipped path]
  else
    let text := Text.Utf8.decodeLossy contents
    .fileTaken path ::
      if isDocumentFile path text then documentNotes path text
      else sourceNotes settings.marker path text r.draft

/-- Notes on the members of a table that have a number only afterwards. -/
def foundNotes {α : Type} [Numbered α] (space : NumberSpace) (before after : Table String α) :
    List Note :=
  before.entries.filterMap fun e =>
    match Numbered.value e.2, (after.find? e.1).bind Numbered.value with
    | none, some value => some (.numberFound space e.1 value)
    | _, _ => none

/-- Notes on the numbering of a provider. What was numbered before a fault is reported too. -/
def numberingNotes (p : Provider) : List Note :=
  let numbered : Provider :=
    match Numbering.numberAll p with
    | .ok _ p' | .error _ p' => p'
  foundNotes .tasks p.tasks numbered.tasks ++
    foundNotes .opcodes p.opcodes numbered.opcodes ++
    (p.tasks.entries.flatMap fun e =>
      match numbered.tasks.find? e.1 with
      | some t => foundNotes (.taskOpcodes e.1) e.2.opcodes t.opcodes
      | none => []) ++
    foundNotes .events p.events numbered.events

end Compilation

end EventSchema
