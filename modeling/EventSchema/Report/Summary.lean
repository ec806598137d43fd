import EventSchema.Model.Provider

/-!
A short listing of a provider for reading: every entity on a line of its own with its number, under
a heading that counts them.
-/

namespace EventSchema.Report

open Text.Numeral (decimal hex)
open Vocabulary (name)

/-- A number, or a dash in place of a missing one. -/
def shownValue (value : Option UInt32) : String :=
  match value with
  | some v => decimal v.toNat
  | none => "-"

/-- A heading with the number of entities under it, and their lines. -/
def listing (heading : String) (count : Nat) (lines : List String) : List String :=
  s!"{heading}: {decimal count}" :: lines

def providerLine (p : Provider) : String :=
  let id :=
    match p.id with
    | some id => "0x" ++ hex id
    | none => "-"
  let name := p.name.getD "<unnamed>"
  s!"Provider {name} ({id})"

def channelLine (c : Channel) : String :=
  s!"  {c.id} {c.name} [{name c.type}] = {shownValue c.value}"

def taskLines (t : Task) : List String :=
  s!"  {t.name} = {shownValue t.value}" ::
    t.opcodes.values.map fun o => s!"    opcode {o.name} = {shownValue o.value}"

def opcodeLine (o : Opcode) : String := s!"  {o.name} = {shownValue o.value}"

/-- An event with the number of the opcode that it refers to. -/
def eventLine (p : Provider) (e : Event) : String :=
  let opcodeValue := shownValue ((p.opcode? e).bind Opcode.value)
  let template := (e.template.map Template.id).getD "-"
  s!"  {e.name} = {shownValue e.value} ({name e.severity}, {name e.level}, " ++
    s!"opcode {e.opcode.name} = {opcodeValue}, template {template})"

def templateLine (t : Template) : String :=
  let fields := ", ".intercalate (t.fields.map fun f => name f.type ++ " " ++ f.name)
  s!"  {t.id}({fields})"

/-- The lines of a summary. -/
def summaryLines (p : Provider) : List String :=
  providerLine p ::
    listing "Channels" p.channels.size (p.channels.values.map channelLine) ++
    listing "Tasks" p.tasks.size (p.tasks.values.flatMap taskLines) ++
    listing "Opcodes" p.opcodes.size (p.opcodes.values.map opcodeLine) ++
    listing "Events" p.events.size (p.events.values.map (eventLine p)) ++
    listing "Templates" p.templates.size (p.templatesById.map templateLine)

/-- The summary of a provider, each line ended by a newline. -/
def summary (p : Provider) : String := String.join ((summaryLines p).map (· ++ "\n"))

end EventSchema.Report
