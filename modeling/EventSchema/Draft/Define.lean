import EventSchema.Draft.Basic

/-!
Definitions. A repeated definition is accepted when it says the same as the first and is an error
otherwise; tasks and opcodes have nothing to disagree about. Everything an event refers to has to be
there before the event.
-/

namespace EventSchema

/-- The properties of a provider that a declaration may give. -/
structure ProviderDecl where
  id : Option Nat := none
  name : Option String := none
  symbol : Option String := none
  description : Option String := none
  resourceName : Option String := none
  deriving DecidableEq

/-- An event as declared, its references and words still texts. -/
structure EventDecl where
  subsystem : String
  severity : String
  level : String
  channel : String
  task : String
  opcode : String
  /-- The type name and the name of each parameter. -/
  params : List (String × String) := []
  value : Option UInt32 := none
  deriving DecidableEq

/-! ## Properties that are set once -/

/-- A property after it was given a value: a missing one is set, and another value is an error. -/
def setOnce {α : Type} [DecidableEq α] (what : Scalar) (shown : α → ScalarValue)
    (current : Option α) (new : α) : Except Error (Option α) :=
  match current with
  | none => .ok (some new)
  | some old =>
    if old = new then .ok (some old) else .error (.redefined what (shown old) (shown new))

/-- A property after it was given a value or left out. -/
def setIfGiven {α : Type} [DecidableEq α] (what : Scalar) (shown : α → ScalarValue)
    (current given : Option α) : Except Error (Option α) :=
  match given with
  | none => .ok current
  | some new => setOnce what shown current new

/-- A number after it was pinned. -/
def pinOnce (what : Scalar) (current : Option UInt32) (new : UInt32) :
    Except Error (Option UInt32) :=
  setOnce what (fun v => .number v.toNat) current new

namespace Provider

/-! ## Single changes -/

/-- An alias may be defined again with the value that it has. -/
def defineAlias (p : Provider) (name value : String) : Except Error Provider :=
  match p.aliases.find? name with
  | none => .ok { p with aliases := p.aliases.insert name value }
  | some old => if old = value then .ok p else .error (.aliasRedefined name old value)

/-- A typedef may be defined again with the type that it has. -/
def defineTypedef (p : Provider) (name : String) (type : FieldType) : Except Error Provider :=
  match p.typedefs.find? name with
  | none => .ok { p with typedefs := p.typedefs.insert name type }
  | some old => if old = type then .ok p else .error (.typedefRedefined name old type)

/-- A channel may be defined again with the name and the type that it has. -/
def defineChannel (p : Provider) (id name : String) (type : ChannelType) :
    Except Error Provider :=
  match p.channels.find? id with
  | none => .ok { p with channels := p.channels.insert id ⟨id, name, type, none⟩ }
  | some old =>
    if old.name = name ∧ old.type = type then .ok p
    else .error (.channelRedefined id name type old.name old.type)

/-- The first definition of a task stays. -/
def defineTask (p : Provider) (name : String) : Provider :=
  { p with tasks := p.tasks.insertNew name { name } }

/-- The first definition of an opcode stays. -/
def defineOpcode (p : Provider) (name : String) : Provider :=
  { p with opcodes := p.opcodes.insertNew name { name } }

/-- Makes an opcode available to a task. Unless the task has it among its own, it becomes one of the
provider. -/
def defineTaskOpcode (p : Provider) (task opcode : String) : Except Error Provider :=
  match p.tasks.find? task with
  | none => .error (.taskOpcodeWithoutTask task)
  | some t => .ok (if t.opcodes.contains opcode then p else p.defineOpcode opcode)

/-- Adds an opcode to those of one task. -/
def defineLocalOpcode (p : Provider) (task opcode : String) : Except Error Provider :=
  if p.tasks.contains task then
    .ok { p with
      tasks := p.tasks.modify task fun t =>
        { t with opcodes := t.opcodes.insertNew opcode { name := opcode } } }
  else .error (.localOpcodeWithoutTask task opcode)

/-! ## Pinned numbers -/

/-- Pins the number of a channel, which has to be there. -/
def pinChannel (p : Provider) (id : String) (value : UInt32) : Except Error Provider :=
  match p.channels.find? id with
  | none => .error (.noChannelToPin id)
  | some c => do
    let pinned ← pinOnce .channelValue c.value value
    return { p with channels := p.channels.modify id fun c => { c with value := pinned } }

/-- Pins the number of a task, which has to be there. -/
def pinTask (p : Provider) (name : String) (value : UInt32) : Except Error Provider :=
  match p.tasks.find? name with
  | none => .error (.noTaskToPin name)
  | some t => do
    let pinned ← pinOnce .taskValue t.value value
    return { p with tasks := p.tasks.modify name fun t => { t with value := pinned } }

/-- Pins the number of an opcode of the provider, which has to be there. -/
def pinOpcode (p : Provider) (name : String) (value : UInt32) : Except Error Provider :=
  match p.opcodes.find? name with
  | none => .error (.noOpcodeToPin name)
  | some o => do
    let pinned ← pinOnce .opcodeValue o.value value
    return { p with opcodes := p.opcodes.modify name fun o => { o with value := pinned } }

/-- Pins the number of an opcode of a task, which has to be there. -/
def pinTaskOpcode (p : Provider) (task name : String) (value : UInt32) : Except Error Provider :=
  match (p.tasks.find? task).bind fun t => t.opcodes.find? name with
  | none => .error (.noTaskOpcodeToPin task name)
  | some o => do
    let pinned ← pinOnce .taskOpcodeValue o.value value
    return { p with
      tasks := p.tasks.modify task fun t =>
        { t with opcodes := t.opcodes.modify name fun o => { o with value := pinned } } }

/-! ## Events -/

/-- Makes sure that the channel, the task and the opcode of an event are there. A predefined opcode
becomes one of the provider when an event first refers to it. -/
def prepareEvent (p : Provider) (decl : EventDecl) : Except Error Provider :=
  if p.channels.contains decl.channel then
    match p.tasks.find? decl.task with
    | none => .error (.eventWithoutTask decl.task)
    | some t =>
      if t.opcodes.contains decl.opcode ∨ p.opcodes.contains decl.opcode then .ok p
      else if (predefinedOpcode? decl.opcode).isSome then .ok (p.defineOpcode decl.opcode)
      else .error (.eventWithoutOpcode decl.opcode)
  else .error (.eventWithoutChannel decl.channel)

/-- The opcode of an event: one of its task's own if there is one of that name. -/
def opcodeRef (p : Provider) (task opcode : String) : OpcodeRef :=
  match p.tasks.find? task with
  | some t => if t.opcodes.contains opcode then .ofTask opcode else .ofProvider opcode
  | none => .ofProvider opcode

/-- The fields of an event with the types of its parameters resolved. -/
def eventFields (p : Provider) (params : List (String × String)) : Except Error (List Field) :=
  params.mapM fun param =>
    match p.fieldType param.1 with
    | .ok type => .ok ⟨type, param.2⟩
    | .error word => .error (.unknownWord word)

/-- Adds an event whose channel, task and opcode are there, and the template of its fields. -/
def addEvent (p : Provider) (decl : EventDecl) (severity : Severity) (level : Level) :
    Except Error Provider := do
  let fields ← p.eventFields decl.params
  let name := eventSymbol decl.subsystem decl.task decl.opcode
  if p.events.contains name then throw (.duplicateEvent name)
  let event : Event := {
    name, severity, level
    subsystem := decl.subsystem
    channel := decl.channel
    task := decl.task
    opcode := p.opcodeRef decl.task decl.opcode
    value := decl.value
    template := if fields.isEmpty then none else some ⟨fields⟩ }
  let p := if fields.isEmpty then p else p.withTemplate fields
  return { p with events := p.events.insert name event }

end Provider

namespace Build

/-! ## Steps -/

/-- Sets the properties that are given, one after the other. -/
def defineProvider (decl : ProviderDecl) : Build Unit := do
  update fun p => do
    return { p with id := ← setIfGiven .providerId .number p.id decl.id }
  update fun p => do
    return { p with name := ← setIfGiven .providerName .text p.name decl.name }
  update fun p => do
    return { p with symbol := ← setIfGiven .providerSymbol .text p.symbol decl.symbol }
  update fun p => do
    return { p with
      description := ← setIfGiven .providerDescription .text p.description decl.description }
  update fun p => do
    return { p with
      resourceName := ← setIfGiven .providerResourceName .text p.resourceName decl.resourceName }

def defineAlias (name value : String) : Build Unit := update (·.defineAlias name value)

def defineTypedef (name : String) (type : FieldType) : Build Unit :=
  update (·.defineTypedef name type)

def defineChannel (id name : String) (type : ChannelType) : Build Unit :=
  update (·.defineChannel id name type)

def defineTask (name : String) : Build Unit := update fun p => .ok (p.defineTask name)

def defineOpcode (name : String) : Build Unit := update fun p => .ok (p.defineOpcode name)

def defineTaskOpcode (task opcode : String) : Build Unit := update (·.defineTaskOpcode task opcode)

def defineLocalOpcode (task opcode : String) : Build Unit :=
  update (·.defineLocalOpcode task opcode)

def pinChannel (id : String) (value : UInt32) : Build Unit := update (·.pinChannel id value)

def pinTask (name : String) (value : UInt32) : Build Unit := update (·.pinTask name value)

def pinOpcode (name : String) (value : UInt32) : Build Unit := update (·.pinOpcode name value)

def pinTaskOpcode (task name : String) (value : UInt32) : Build Unit :=
  update (·.pinTaskOpcode task name value)

/-- Reads a word of a vocabulary. -/
def word (α : Type) [Vocabulary α] (text : String) : Build α :=
  ofExcept ((Vocabulary.parse α text).mapError .unknownWord)

/-- Resolves an event against the draft and adds it. An opcode that its declaration brought in stays
when the event itself is refused. -/
def defineEvent (decl : EventDecl) : Build Unit := do
  let severity ← word Severity decl.severity
  let level ← word Level decl.level
  update (·.prepareEvent decl)
  update (·.addEvent decl severity level)

/-- Nothing but a check that the provider has no name yet. -/
def guardUnnamed (method : String) : Build Unit :=
  update fun p =>
    match p.name with
    | some name => .error (.providerAlreadyNamed method name)
    | none => .ok p

end Build

end EventSchema
