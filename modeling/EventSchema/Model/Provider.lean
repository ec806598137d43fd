import EventSchema.Model.Entity

/-!
The provider: the resolved model of a schema, with every entity under its name.
-/

namespace EventSchema

/-- An event provider. All tables are by name, channels by id, and templates by their fields. -/
structure Provider where
  /-- The identifier of the provider as a number of any size. -/
  id : Option Nat := none
  name : Option String := none
  symbol : Option String := none
  description : Option String := none
  resourceName : Option String := none
  channels : Table String Channel := ∅
  tasks : Table String Task := ∅
  /-- The opcodes that belong to no task. -/
  opcodes : Table String Opcode := ∅
  events : Table String Event := ∅
  templates : Table (List Field) Template := ∅
  aliases : Table String String := ∅
  typedefs : Table String FieldType := ∅
  deriving DecidableEq

namespace Provider

/-- The opcode that an event refers to. -/
def opcode? (p : Provider) (e : Event) : Option Opcode :=
  match e.opcode with
  | .ofTask name => (p.tasks.find? e.task).bind fun t => t.opcodes.find? name
  | .ofProvider name => p.opcodes.find? name

/-- The text that stands for an argument: aliases are replaced once and by whole texts. -/
def aliased (p : Provider) (arg : String) : String := (p.aliases.find? arg).getD arg

/-- The type that a type name stands for; typedefs come before the vocabulary. -/
def fieldType (p : Provider) (name : String) : Except UnknownWord FieldType :=
  match p.typedefs.find? name with
  | some t => .ok t
  | none => Vocabulary.parse FieldType name

/-- The provider with a template for these fields. -/
def withTemplate (p : Provider) (fields : List Field) : Provider :=
  { p with templates := p.templates.insertNew fields ⟨fields⟩ }

/-- The templates in the order of their names. -/
def templatesById (p : Provider) : List Template :=
  p.templates.values.mergeSort fun a b => (compare a.id b.id).isLE

end Provider

end EventSchema
