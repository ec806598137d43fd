import EventSchema.Draft.Define
import EventSchema.Numbering.Assign
import EventSchema.Model.ProviderId

/-!
Schema documents. A document declares parts of a provider and names further files; its values are
plain texts, neither decoded nor resolved. Merging a document carries its declarations out in a
fixed order and replaces their texts through the aliases, but for those of the aliases themselves and
for the properties of the provider other than its id.
-/

namespace EventSchema

/-- The properties of a provider as a document gives them. -/
structure ProviderEntry where
  id : Option String := none
  name : Option String := none
  symbol : Option String := none
  description : Option String := none
  resourceName : Option String := none
  deriving DecidableEq

/-- A channel as a document declares it. -/
structure ChannelEntry where
  id : String
  name : String
  type : String
  value : Option UInt32 := none
  deriving DecidableEq

/-- An opcode as a document declares it. -/
structure OpcodeEntry where
  name : String
  value : Option UInt32 := none
  deriving DecidableEq

/-- A task as a document declares it, with the opcodes of its own. -/
structure TaskEntry where
  name : String
  value : Option UInt32 := none
  opcodes : List OpcodeEntry := []
  deriving DecidableEq

/-- A schema document. -/
structure Document where
  provider : Option ProviderEntry := none
  includes : List String := []
  sources : List String := []
  aliases : Table String String := ∅
  typedefs : Table String String := ∅
  channels : List ChannelEntry := []
  tasks : List TaskEntry := []
  opcodes : List OpcodeEntry := []
  events : List EventDecl := []
  deriving DecidableEq

namespace Document

open Build (aliased)

/-! ## Merging -/

/-- Carries out a step if there is a number to pin. -/
def pinning (value : Option UInt32) (pin : UInt32 → Build Unit) : Build Unit :=
  match value with
  | some v => pin v
  | none => pure ()

/-- Of the properties of a provider only the id is replaced through the aliases. -/
def mergeProvider (e : ProviderEntry) : Build Unit := do
  let id ←
    match e.id with
    | some text => some <$> (do Build.ofExcept (ProviderId.parse (← aliased text)))
    | none => pure none
  Build.defineProvider {
    id
    name := e.name
    symbol := e.symbol
    description := e.description
    resourceName := e.resourceName }

/-- The type of a typedef is read before the typedef is defined. -/
def mergeTypedef (name typeName : String) : Build Unit := do
  Build.defineTypedef name (← Build.word FieldType (← aliased typeName))

/-- A channel is defined and then pinned. -/
def mergeChannel (e : ChannelEntry) : Build Unit := do
  let id ← aliased e.id
  let type ← Build.word ChannelType (← aliased e.type)
  Build.defineChannel id (← aliased e.name) type
  pinning e.value (Build.pinChannel id)

/-- An opcode of a task is defined and then pinned. -/
def mergeLocalOpcode (task : String) (e : OpcodeEntry) : Build Unit := do
  let name ← aliased e.name
  Build.defineLocalOpcode task name
  pinning e.value (Build.pinTaskOpcode task name)

/-- A task is defined and pinned before the opcodes of its own. -/
def mergeTask (e : TaskEntry) : Build Unit := do
  let name ← aliased e.name
  Build.defineTask name
  pinning e.value (Build.pinTask name)
  e.opcodes.forM (mergeLocalOpcode name)

/-- An opcode of the provider is defined and then pinned. -/
def mergeOpcode (e : OpcodeEntry) : Build Unit := do
  let name ← aliased e.name
  Build.defineOpcode name
  pinning e.value (Build.pinOpcode name)

/-- An event is defined together with its number. -/
def mergeEvent (e : EventDecl) : Build Unit := do
  let text := (← get).aliased
  Build.defineEvent {
    subsystem := text e.subsystem
    severity := text e.severity
    level := text e.level
    channel := text e.channel
    task := text e.task
    opcode := text e.opcode
    params := e.params.map fun param => (text param.1, text param.2)
    value := e.value }

/-- Puts the included files in front of the queue and the sources behind it, each in order. -/
def mergeFiles (d : Document) : Build Unit := do
  let text := (← get).aliased
  Build.updateQueue fun q =>
    (d.sources.map text).foldl WorkQueue.pushBack (q.pushFrontAll (d.includes.map text))

/-- Merges a document into a draft, up to the first declaration that fails. -/
def merge (d : Document) : Build Unit := do
  match d.provider with
  | some e => mergeProvider e
  | none => pure ()
  d.aliases.entries.forM fun e => Build.defineAlias e.1 e.2
  d.typedefs.entries.forM fun e => mergeTypedef e.1 e.2
  d.channels.forM mergeChannel
  d.tasks.forM mergeTask
  d.opcodes.forM mergeOpcode
  d.events.forM mergeEvent
  d.mergeFiles

end Document

end EventSchema
