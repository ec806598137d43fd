import EventSchema.Model.Vocabulary
import EventSchema.Checksum
import EventSchema.Table

/-!
What a provider is made of: channels, opcodes, tasks, templates and events. Events refer to
channels, tasks and opcodes by name; numbers are missing until they are pinned or assigned.
-/

namespace EventSchema

/-! ## Channels, opcodes and tasks -/

/-- A channel. Its number is never assigned, only pinned. -/
structure Channel where
  id : String
  name : String
  type : ChannelType
  value : Option UInt32 := none
  deriving DecidableEq

/-- An opcode, of one task or of the whole provider. -/
structure Opcode where
  name : String
  value : Option UInt32 := none
  deriving DecidableEq

/-- A task with the opcodes of its own. -/
structure Task where
  name : String
  value : Option UInt32 := none
  opcodes : Table String Opcode := ∅
  deriving DecidableEq

/-- The opcodes that every event may refer to without a definition, with their numbers. -/
def predefinedOpcodes : List (String × UInt32) :=
  [("Info", 0), ("Start", 1), ("Stop", 2), ("DC_Start", 3), ("DC_Stop", 4), ("Extension", 5),
    ("Reply", 6), ("Resume", 7), ("Suspend", 8), ("Send", 9)]

/-- The number of a predefined opcode. -/
def predefinedOpcode? (name : String) : Option UInt32 :=
  (predefinedOpcodes.find? (·.1 == name)).map (·.2)

/-! ## Templates -/

/-- A typed parameter of an event. -/
structure Field where
  type : FieldType
  name : String
  deriving DecidableEq

/-- Fields are ordered by type, then by name. -/
def Field.order (a b : Field) : Ordering :=
  compareLex (compareOn Field.type) (compareOn Field.name) a b

instance : Ord Field := ⟨Field.order⟩

instance : Std.TransOrd Field :=
  inferInstanceAs (Std.TransCmp (compareLex (compareOn Field.type) (compareOn Field.name)))

instance : Std.LawfulEqOrd Field where
  compare_self {f} := @Std.ReflCmp.compare_self _
    (compareLex (compareOn Field.type) (compareOn Field.name)) _ f
  eq_of_compare {a b} h := by
    obtain ⟨htype, hname⟩ := compareLex_eq_eq.1 h
    cases a
    cases b
    cases @Std.LawfulEqCmp.eq_of_compare _ compare _ _ _ htype
    cases @Std.LawfulEqCmp.eq_of_compare _ compare _ _ _ hname
    rfl

/-- The parameter list that all events with the same fields share. -/
structure Template where
  fields : List Field
  deriving DecidableEq

/-- The bytes that a template is named for: every type and name, each ended by a zero byte. -/
def Template.bytes (t : Template) : Bytes :=
  t.fields.flatMap fun f =>
    Text.Utf8.encode (Vocabulary.name f.type) ++ 0 :: (Text.Utf8.encode f.name ++ [0])

/-- The name of a template, from a checksum of its fields and their number. -/
def Template.id (t : Template) : String :=
  "tid_" ++ Checksum.crc32Text t.bytes ++ "_" ++ Text.Numeral.decimal t.fields.length

/-! ## Events -/

/-- Where the opcode of an event is kept. -/
inductive OpcodeRef
  /-- Among the opcodes of the event's own task. -/
  | ofTask (name : String)
  /-- Among the opcodes of the provider. -/
  | ofProvider (name : String)
  deriving DecidableEq

/-- The name of the opcode that is referred to. -/
def OpcodeRef.name : OpcodeRef → String
  | .ofTask name => name
  | .ofProvider name => name

/-- An event with its references resolved. -/
structure Event where
  name : String
  subsystem : String
  severity : Severity
  level : Level
  channel : String
  task : String
  opcode : OpcodeRef
  value : Option UInt32 := none
  template : Option Template := none
  deriving DecidableEq

/-- A text with every character other than an ASCII letter or digit replaced by an underscore. -/
def symbolPart (s : String) : String :=
  String.ofList (s.toList.map fun c => if c.isAlphanum then c else '_')

/-- The symbol that an event is known by. -/
def eventSymbol (subsystem task opcode : String) : String :=
  "_".intercalate [symbolPart subsystem, symbolPart task, symbolPart opcode]

end EventSchema
