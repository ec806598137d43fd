import EventSchema.Model.Provider
import EventSchema.Json.Basic

/-!
The whole model of a provider as JSON. Entities are listed by name, channels by id and templates by
their ids; what is missing is null.
-/

namespace EventSchema

namespace Json

/-- A word of a vocabulary. -/
def ofWord {α : Type} [Vocabulary α] (a : α) : Json := .string (Vocabulary.name a)

end Json

open Json (ofText? ofValue? ofWord ofList)

def Channel.toJson (c : Channel) : Json :=
  .object [("id", .string c.id), ("name", .string c.name), ("type", ofWord c.type),
    ("value", ofValue? c.value)]

def Opcode.toJson (o : Opcode) : Json :=
  .object [("name", .string o.name), ("value", ofValue? o.value)]

def Task.toJson (t : Task) : Json :=
  .object [("name", .string t.name), ("value", ofValue? t.value),
    ("opcodes", ofList Opcode.toJson t.opcodes.values)]

def OpcodeRef.toJson : OpcodeRef → Json
  | .ofTask opcode => .object [("scope", .string "task"), ("name", .string opcode)]
  | .ofProvider opcode => .object [("scope", .string "global"), ("name", .string opcode)]

/-- An event shows the id of its template in place of the fields. -/
def Event.toJson (e : Event) : Json :=
  .object [("name", .string e.name), ("subsystem", .string e.subsystem),
    ("severity", ofWord e.severity), ("level", ofWord e.level),
    ("channel", .string e.channel), ("task", .string e.task), ("opcode", e.opcode.toJson),
    ("value", ofValue? e.value), ("template", ofText? (e.template.map Template.id))]

def Field.toJson (f : Field) : Json :=
  .object [("type", ofWord f.type), ("name", .string f.name)]

def Template.toJson (t : Template) : Json :=
  .object [("id", .string t.id), ("fields", ofList Field.toJson t.fields)]

/-- The model of a provider. The id is in hexadecimal without prefix. -/
def Provider.toJson (p : Provider) : Json :=
  .object [("id", ofText? (p.id.map Text.Numeral.hex)), ("name", ofText? p.name),
    ("symbol", ofText? p.symbol), ("description", ofText? p.description),
    ("resourceName", ofText? p.resourceName),
    ("channels", ofList Channel.toJson p.channels.values),
    ("tasks", ofList Task.toJson p.tasks.values),
    ("opcodes", ofList Opcode.toJson p.opcodes.values),
    ("events", ofList Event.toJson p.events.values),
    ("templates", ofList Template.toJson p.templatesById),
    ("aliases", ofList (fun e => .array [.string e.1, .string e.2]) p.aliases.entries),
    ("typedefs", ofList (fun e => .array [.string e.1, ofWord e.2]) p.typedefs.entries)]

end EventSchema
