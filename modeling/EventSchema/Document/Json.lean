import EventSchema.Document.Basic
import EventSchema.Json.Reader

/-!
Documents in JSON. A record may be written as an object, whose unknown members are passed over, or
as an array of its fields in order, of which the last may be missing if they are optional. A key
that a record knows must not be repeated; in a table of texts the last value of a repeated key
stays.
-/

namespace EventSchema.Document

/-! ## Fields of records -/

/-- The values of the fields of a record, in the order of their names. -/
def fields? (names : List String) : Json → Option (List (Option Json))
  | .array items =>
    if items.length ≤ names.length then
      some (items.map some ++ List.replicate (names.length - items.length) none)
    else none
  | .object members =>
    if names.any fun name => decide (1 < (members.map (·.1)).count name) then none
    else some (names.map fun name => members.lookup name)
  | _ => none

/-- A text that has to be there. -/
def text? : Option Json → Option String
  | some (.string s) => some s
  | _ => none

/-- A text that may be missing or null. -/
def optionalText? : Option Json → Option (Option String)
  | none | some .null => some none
  | some (.string s) => some (some s)
  | _ => none

/-- A number of 32 bits that may be missing or null. -/
def optionalNumber? : Option Json → Option (Option UInt32)
  | none | some .null => some none
  | some (.number n) => if n < UInt32.size then some (some (UInt32.ofNat n)) else none
  | _ => none

/-- A list that may be missing. -/
def list? {α : Type} (item? : Json → Option α) : Option Json → Option (List α)
  | none => some []
  | some (.array items) => items.mapM item?
  | _ => none

/-- A table of texts that may be missing. -/
def table? : Option Json → Option (Table String String)
  | none => some ∅
  | some (.object members) =>
    (members.mapM fun m => (text? (some m.2)).map (m.1, ·)).map Table.ofList
  | _ => none

/-! ## Records -/

def providerOfJson? (v : Json) : Option ProviderEntry := do
  match ← fields? ["id", "name", "symbol", "description", "resourceName"] v with
  | [id, name, symbol, description, resourceName] =>
    return {
      id := ← optionalText? id
      name := ← optionalText? name
      symbol := ← optionalText? symbol
      description := ← optionalText? description
      resourceName := ← optionalText? resourceName }
  | _ => none

def channelOfJson? (v : Json) : Option ChannelEntry := do
  match ← fields? ["id", "name", "type", "value"] v with
  | [id, name, type, value] =>
    return {
      id := ← text? id
      name := ← text? name
      type := ← text? type
      value := ← optionalNumber? value }
  | _ => none

def opcodeOfJson? (v : Json) : Option OpcodeEntry := do
  match ← fields? ["name", "value"] v with
  | [name, value] => return { name := ← text? name, value := ← optionalNumber? value }
  | _ => none

def taskOfJson? (v : Json) : Option TaskEntry := do
  match ← fields? ["name", "value", "opcodes"] v with
  | [name, value, opcodes] =>
    return {
      name := ← text? name
      value := ← optionalNumber? value
      opcodes := ← list? opcodeOfJson? opcodes }
  | _ => none

def paramOfJson? (v : Json) : Option (String × String) := do
  match ← fields? ["type", "name"] v with
  | [type, name] => return (← text? type, ← text? name)
  | _ => none

def eventOfJson? (v : Json) : Option EventDecl := do
  let names :=
    ["subsystem", "severity", "level", "channel", "task", "opcode", "value", "params"]
  match ← fields? names v with
  | [subsystem, severity, level, channel, task, opcode, value, params] =>
    return {
      subsystem := ← text? subsystem
      severity := ← text? severity
      level := ← text? level
      channel := ← text? channel
      task := ← text? task
      opcode := ← text? opcode
      value := ← optionalNumber? value
      params := ← list? paramOfJson? params }
  | _ => none

/-- A provider that may be missing or null. -/
def optionalProvider? : Option Json → Option (Option ProviderEntry)
  | none | some .null => some none
  | some v => (providerOfJson? v).map some

/-- Reads a document from a JSON value. -/
def ofJson? (v : Json) : Option Document := do
  let names :=
    ["provider", "includes", "sources", "aliases", "typedefs", "channels", "tasks", "opcodes",
      "events"]
  match ← fields? names v with
  | [provider, includes, sources, aliases, typedefs, channels, tasks, opcodes, events] =>
    let texts := list? fun item => text? (some item)
    return {
      provider := ← optionalProvider? provider
      includes := ← texts includes
      sources := ← texts sources
      aliases := ← table? aliases
      typedefs := ← table? typedefs
      channels := ← list? channelOfJson? channels
      tasks := ← list? taskOfJson? tasks
      opcodes := ← list? opcodeOfJson? opcodes
      events := ← list? eventOfJson? events }
  | _ => none

/-- Reads the documents of a JSON text: one object, or an array of documents. -/
def listOfJson? (text : String) : Option (List Document) := do
  match ← Json.parse? text with
  | .array items => items.mapM ofJson?
  | v => return [← ofJson? v]

end EventSchema.Document
