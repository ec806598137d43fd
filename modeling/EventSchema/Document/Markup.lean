import EventSchema.Document.Basic
import EventSchema.Markup.Reader

/-!
Documents in markup. Every element that declares something is recognised wherever it stands; other
elements are containers. A task and an event that are not empty elements are recorded at their end
tags, and until then take the opcodes and the parameters that are declared. A path is an attribute
or the character content of its element.
-/

namespace EventSchema.Document

open EventSchema.Markup (Part Tag)

/-- Which list of paths character content belongs to. -/
inductive PathList
  | includes
  | sources
  deriving DecidableEq

/-- A document of which some parts have been read. -/
structure Partial where
  document : Document := {}
  /-- The task that has been opened last and not been recorded. -/
  task : Option TaskEntry := none
  /-- The event that has been opened last and not been recorded. -/
  event : Option EventDecl := none
  pathList : Option PathList := none
  deriving DecidableEq

/-! ## Attributes -/

/-- The value of an attribute that an element needs. -/
def required (tag : Tag) (key : String) : Except Error String :=
  match tag.attributes.lookup key with
  | some value => .ok value
  | none => .error (.missingAttribute tag.name key)

/-- The number of 32 bits that a text stands for; a plus sign may precede its digits. -/
def number32? (text : String) : Option UInt32 :=
  let chars := Text.trimChars text.toList
  let digits :=
    match chars with
    | '+' :: rest => rest
    | _ => chars
  (Text.Numeral.read? 10 (digits.map Char.toNat)).bind fun n =>
    if n < UInt32.size then some (UInt32.ofNat n) else none

/-- The number that an element is pinned to, if it has a value. -/
def pinnedValue (tag : Tag) : Except Error (Option UInt32) :=
  match tag.attributes.lookup "value" with
  | none => .ok none
  | some text =>
    match number32? text with
    | some value => .ok (some value)
    | none => .error (.nonNumericValue tag.name text)

/-! ## Elements -/

def providerOfTag (tag : Tag) : ProviderEntry where
  id := tag.attributes.lookup "id"
  name := tag.attributes.lookup "name"
  symbol := tag.attributes.lookup "symbol"
  description := tag.attributes.lookup "description"
  resourceName := tag.attributes.lookup "resourceName"

def channelOfTag (tag : Tag) : Except Error ChannelEntry := do
  return {
    id := ← required tag "id"
    name := ← required tag "name"
    type := ← required tag "type"
    value := ← pinnedValue tag }

def taskOfTag (tag : Tag) : Except Error TaskEntry := do
  return { name := ← required tag "name", value := ← pinnedValue tag }

def opcodeOfTag (tag : Tag) : Except Error OpcodeEntry := do
  return { name := ← required tag "name", value := ← pinnedValue tag }

def eventOfTag (tag : Tag) : Except Error EventDecl := do
  return {
    subsystem := ← required tag "subsystem"
    severity := ← required tag "severity"
    level := ← required tag "level"
    channel := ← required tag "channel"
    task := ← required tag "task"
    opcode := ← required tag "opcode"
    value := ← pinnedValue tag }

namespace Partial

/-- Records a path at the end of its list. -/
def addPath (r : Partial) (list : PathList) (path : String) : Partial :=
  match list with
  | .includes =>
    { r with document := { r.document with includes := r.document.includes ++ [path] } }
  | .sources =>
    { r with document := { r.document with sources := r.document.sources ++ [path] } }

/-- Records a task at the end of the list. -/
def addTask (r : Partial) (t : TaskEntry) : Partial :=
  { r with document := { r.document with tasks := r.document.tasks ++ [t] } }

/-- Records an event at the end of the list. -/
def addEvent (r : Partial) (e : EventDecl) : Partial :=
  { r with document := { r.document with events := r.document.events ++ [e] } }

/-- Takes an element that names another file. Without the attribute, the path is its content. -/
def takePath (r : Partial) (list : PathList) (tag : Tag) (isEmpty : Bool) : Partial :=
  match tag.attributes.lookup "path" with
  | some path => r.addPath list path
  | none => if isEmpty then r else { r with pathList := some list }

/-- Takes a start tag or an empty-element tag. -/
def takeTag (r : Partial) (tag : Tag) (isEmpty : Bool) : Except Error Partial :=
  match tag.name with
  | "provider" =>
    .ok { r with document := { r.document with provider := some (providerOfTag tag) } }
  | "include" => .ok (r.takePath .includes tag isEmpty)
  | "source" => .ok (r.takePath .sources tag isEmpty)
  | "alias" => do
    let name ← required tag "name"
    let value ← required tag "value"
    let aliases := r.document.aliases.insert name value
    return { r with document := { r.document with aliases } }
  | "typedef" => do
    let name ← required tag "name"
    let type ← required tag "type"
    let typedefs := r.document.typedefs.insert name type
    return { r with document := { r.document with typedefs } }
  | "channel" => do
    let c ← channelOfTag tag
    return { r with document := { r.document with channels := r.document.channels ++ [c] } }
  | "task" => do
    let t ← taskOfTag tag
    return if isEmpty then r.addTask t else { r with task := some t }
  | "opcode" => do
    let o ← opcodeOfTag tag
    match r.task with
    | some t => return { r with task := some { t with opcodes := t.opcodes ++ [o] } }
    | none => return { r with document := { r.document with opcodes := r.document.opcodes ++ [o] } }
  | "event" => do
    let e ← eventOfTag tag
    return if isEmpty then r.addEvent e else { r with event := some e }
  | "param" => do
    let type ← required tag "type"
    let name ← required tag "name"
    match r.event with
    | some e => return { r with event := some { e with params := e.params ++ [(type, name)] } }
    | none => throw .paramOutsideEvent
  | _ => .ok r

/-- Takes an end tag. -/
def takeClosing (r : Partial) (name : String) : Partial :=
  match name with
  | "task" =>
    match r.task with
    | some t => { r.addTask t with task := none }
    | none => r
  | "event" =>
    match r.event with
    | some e => { r.addEvent e with event := none }
    | none => r
  | "include" | "source" => { r with pathList := none }
  | _ => r

/-- Takes the next part of a text. Only tags and character content say anything. -/
def take (r : Partial) : Part → Except Error Partial
  | .opening tag => r.takeTag tag false
  | .empty tag => r.takeTag tag true
  | .closing name => .ok (r.takeClosing name)
  | .content s =>
    match r.pathList with
    | some list => .ok (r.addPath list (Text.trim s))
    | none => .ok r
  | _ => .ok r

end Partial

/-- Reads the document of a markup text. The path is only for the message of a fault in the markup.
-/
def ofMarkup (path text : String) : Except Error Document := do
  let reading := EventSchema.Markup.read text
  let r ← reading.parts.foldlM Partial.take {}
  if reading.broken then throw (.malformedXml path) else return r.document

end EventSchema.Document
