import EventSchema.Document.Basic
import EventSchema.Json.Basic
import EventSchema.Markup.Basic

/-!
Writing documents: in JSON, in markup, and as the clauses that say the same. What a document leaves
out is null in JSON and a missing attribute in markup. Clauses can say what is left of a document
without its provider, aliases, typedefs, numbers and opcodes of single tasks.
-/

namespace EventSchema

open Json (ofText? ofValue? ofList)
open Markup (Tag Part)

/-! ## JSON -/

def ProviderEntry.toJson (e : ProviderEntry) : Json :=
  .object [("id", ofText? e.id), ("name", ofText? e.name), ("symbol", ofText? e.symbol),
    ("description", ofText? e.description), ("resourceName", ofText? e.resourceName)]

def ChannelEntry.toJson (e : ChannelEntry) : Json :=
  .object [("id", .string e.id), ("name", .string e.name), ("type", .string e.type),
    ("value", ofValue? e.value)]

def OpcodeEntry.toJson (e : OpcodeEntry) : Json :=
  .object [("name", .string e.name), ("value", ofValue? e.value)]

def TaskEntry.toJson (e : TaskEntry) : Json :=
  .object [("name", .string e.name), ("value", ofValue? e.value),
    ("opcodes", ofList OpcodeEntry.toJson e.opcodes)]

def EventDecl.toJson (e : EventDecl) : Json :=
  .object [("subsystem", .string e.subsystem), ("severity", .string e.severity),
    ("level", .string e.level), ("channel", .string e.channel), ("task", .string e.task),
    ("opcode", .string e.opcode), ("value", ofValue? e.value),
    ("params",
      ofList (fun p => .object [("type", .string p.1), ("name", .string p.2)]) e.params)]

namespace Document

/-- A table of texts as an object. -/
def textsToJson (t : Table String String) : Json :=
  .object (t.entries.map fun e => (e.1, .string e.2))

def toJson (d : Document) : Json :=
  .object [
    ("provider", (d.provider.map ProviderEntry.toJson).getD .null),
    ("includes", ofList .string d.includes), ("sources", ofList .string d.sources),
    ("aliases", textsToJson d.aliases), ("typedefs", textsToJson d.typedefs),
    ("channels", ofList ChannelEntry.toJson d.channels),
    ("tasks", ofList TaskEntry.toJson d.tasks), ("opcodes", ofList OpcodeEntry.toJson d.opcodes),
    ("events", ofList EventDecl.toJson d.events)]

end Document

/-! ## Markup -/

/-- An attribute that may be missing. -/
def attribute? (key : String) (value : Option String) : List (String × String) :=
  value.toList.map (key, ·)

/-- The attribute of a pinned number. -/
def valueAttribute? (value : Option UInt32) : List (String × String) :=
  attribute? "value" (value.map fun v => Text.Numeral.decimal v.toNat)

/-- An element with other parts inside. -/
def element (tag : Tag) (inside : List Part) : List Part :=
  .opening tag :: inside ++ [.closing tag.name]

def ProviderEntry.toTag (e : ProviderEntry) : Tag where
  name := "provider"
  attributes :=
    attribute? "id" e.id ++ attribute? "name" e.name ++ attribute? "symbol" e.symbol ++
      attribute? "description" e.description ++ attribute? "resourceName" e.resourceName

def ChannelEntry.toTag (e : ChannelEntry) : Tag where
  name := "channel"
  attributes := [("id", e.id), ("name", e.name), ("type", e.type)] ++ valueAttribute? e.value

def OpcodeEntry.toTag (e : OpcodeEntry) : Tag where
  name := "opcode"
  attributes := ("name", e.name) :: valueAttribute? e.value

def TaskEntry.toParts (e : TaskEntry) : List Part :=
  element { name := "task", attributes := ("name", e.name) :: valueAttribute? e.value }
    (e.opcodes.map fun o => .empty o.toTag)

def EventDecl.toTag (e : EventDecl) : Tag where
  name := "event"
  attributes :=
    [("subsystem", e.subsystem), ("severity", e.severity), ("level", e.level),
      ("channel", e.channel), ("task", e.task), ("opcode", e.opcode)] ++ valueAttribute? e.value

def EventDecl.toParts (e : EventDecl) : List Part :=
  element e.toTag
    (e.params.map fun p => .empty { name := "param", attributes := [("type", p.1), ("name", p.2)] })

namespace Document

/-- The elements of a table of texts, which give each text under `key`. -/
def tableParts (name key : String) (t : Table String String) : List Part :=
  t.entries.map fun e => .empty { name, attributes := [("name", e.1), (key, e.2)] }

/-- The elements that name other files. -/
def pathParts (name : String) (paths : List String) : List Part :=
  paths.map fun path => .empty { name, attributes := [("path", path)] }

/-- The element that holds a document. -/
def outerTag (d : Document) : Tag :=
  match d.provider with
  | some e => e.toTag
  | none => { name := "schema" }

def toParts (d : Document) : List Part :=
  element d.outerTag
    (element { name := "includes" } (pathParts "include" d.includes) ++
      element { name := "sources" } (pathParts "source" d.sources) ++
      element { name := "aliases" } (tableParts "alias" "value" d.aliases) ++
      element { name := "typedefs" } (tableParts "typedef" "type" d.typedefs) ++
      element { name := "channels" } (d.channels.map fun c => .empty c.toTag) ++
      element { name := "tasks" } (d.tasks.flatMap TaskEntry.toParts) ++
      element { name := "opcodes" } (d.opcodes.map fun o => .empty o.toTag) ++
      element { name := "events" } (d.events.flatMap EventDecl.toParts))

/-- The markup text of a document. -/
def toMarkup (d : Document) : String := Markup.write d.toParts

end Document

/-! ## Clauses -/

open Source (Clause)

/-- How the parts of clauses are written that may be written in several ways. -/
structure ClauseStyle where
  /-- A text as a literal. -/
  literal : String → String := Source.Literal.spelling
  /-- The expression of a parameter, by the place of its event and by its own. It is not read. -/
  expression : Nat → Nat → String := fun _ _ => "_"

variable (style : ClauseStyle)

def ChannelEntry.toClause (e : ChannelEntry) : Clause :=
  ⟨"CHANNEL", [e.id, e.name, e.type].map style.literal⟩

/-- The arguments of a parameter. -/
def parameterArguments (expression : String) (param : String × String) : List String :=
  [style.literal param.1, style.literal param.2, expression]

/-- An event without its number. -/
def EventDecl.toClause (place : Nat) (e : EventDecl) : Clause :=
  ⟨Text.Numeral.decimal e.params.length,
    [e.subsystem, e.severity, e.level, e.channel, e.task, e.opcode].map style.literal ++
      (e.params.mapIdx fun i => parameterArguments style (style.expression place i)).flatten⟩

namespace Document

/-- The clauses that say what a document says, in the order in which it is merged. Included files
are named last to first, because each goes in front of those before. -/
def toClauses (d : Document) : List Clause :=
  d.channels.map (ChannelEntry.toClause style) ++
    d.tasks.map (fun t => ⟨"TASK", [style.literal t.name]⟩) ++
    d.opcodes.map (fun o => ⟨"OPCODE", [style.literal o.name]⟩) ++
    d.events.mapIdx (EventDecl.toClause style) ++
    d.includes.reverse.map (fun path => ⟨"INCLUDE", [style.literal path]⟩) ++
    d.sources.map (fun path => ⟨"SOURCE", [style.literal path]⟩)

/-- The source text of a document, a clause to a line. -/
def toSource (d : Document) : String :=
  String.join ((d.toClauses style).map fun c => Source.defaultMarker ++ c.text ++ "\n")

end Document

end EventSchema
