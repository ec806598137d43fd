import EventSchema.Draft.Define
import EventSchema.Model.ProviderId

/-!
The meaning of clauses. A clause is first read as a statement, with its arguments decoded, and the
statement is then carried out. Arguments are replaced through the alias table once, before they are
decoded.

Provider properties other than the id, source paths, and the names and types of channels have to be
literals. Elsewhere an identifier stands for itself.
-/

namespace EventSchema

/-- What a clause says. -/
inductive Statement
  | defineProvider (decl : ProviderDecl)
  | defineAlias (name value : String)
  /-- Another file is read after those that wait. -/
  | sourceFile (path : String)
  /-- Another file is read before those that wait. -/
  | includedFile (path : String)
  | defineChannel (id name : String) (type : ChannelType)
  | defineTask (name : String)
  | defineOpcode (name : String)
  | defineTaskOpcode (task opcode : String)
  /-- The provider must not have a name. -/
  | guardUnnamed (method : String)
  | defineEvent (decl : EventDecl)
  deriving DecidableEq

namespace Statement

/-! ## Reading arguments -/

/-- The text of an argument that has to be a literal. -/
def literal (arg : String) : Except Error String :=
  (Source.Literal.decode arg).mapError (.literal arg)

/-- The text of an argument that may be an identifier. -/
def literalOrBare (arg : String) : Except Error String :=
  (Source.Literal.decodeOrBare arg).mapError (.literal arg)

/-- Parameters come in threes: type, name and an expression, which is not looked at. -/
def parameters : List String → Except Error (List (String × String))
  | type :: name :: _ :: rest => do
    let type ← literalOrBare type
    let name ← literalOrBare name
    return (type, name) :: (← parameters rest)
  | _ => return []

/-- The number of arguments of an event clause, whose method is the number of its parameters. Both
have to fit into 64 bits. -/
def eventArgumentCount (method : String) : Except Error Nat :=
  match Text.Numeral.read? 10 (method.toList.map Char.toNat) with
  | some arity =>
    if 3 * arity + 6 < UInt64.size then .ok (3 * arity + 6) else .error (.arityTooLarge method)
  | none => .error (.arityTooLarge method)

/-- The declaration in the arguments of an event clause. Parameters are read before the rest. -/
def eventDecl (method : String) (args : List String) : Except Error EventDecl := do
  let expected ← eventArgumentCount method
  let wrong := Error.argumentCount method expected args.length
  if args.length ≠ expected then throw wrong
  match args with
  | subsystem :: severity :: level :: channel :: task :: opcode :: rest =>
    let params ← parameters rest
    return {
      subsystem := ← literalOrBare subsystem
      severity := ← literalOrBare severity
      level := ← literalOrBare level
      channel := ← literalOrBare channel
      task := ← literalOrBare task
      opcode := ← literalOrBare opcode
      params }
  | _ => throw wrong

/-- Whether a method is a number and so announces an event. -/
def isNumber (method : String) : Bool := !method.isEmpty && method.toList.all Char.isDigit

/-- Reads a clause whose aliases have been replaced. -/
def ofArguments (method : String) (args : List String) : Except Error Statement :=
  let wrongCount (expected : Nat) := Except.error (.argumentCount method expected args.length)
  match method with
  | "PROVIDER" =>
    match args with
    | [id, name, symbol, description, resourceName] => do
      return .defineProvider {
        id := some (← ProviderId.parse id)
        name := some (← literal name)
        symbol := some (← literal symbol)
        description := some (← literal description)
        resourceName := some (← literal resourceName) }
    | _ => wrongCount 5
  | "ALIAS" =>
    match args with
    | [name, value] => .ok (.defineAlias name value)
    | _ => wrongCount 2
  | "SOURCE" =>
    match args with
    | [path] => return .sourceFile (← literal path)
    | _ => wrongCount 1
  | "INCLUDE" =>
    match args with
    | [path] => return .includedFile (← literalOrBare path)
    | _ => wrongCount 1
  | "CHANNEL" =>
    match args with
    | [id, name, type] => do
      let typeName ← literal type
      let type ← (Vocabulary.parse ChannelType typeName).mapError .unknownWord
      return .defineChannel (← literalOrBare id) (← literal name) type
    | _ => wrongCount 3
  | "TASK" =>
    match args with
    | [name] => return .defineTask (← literalOrBare name)
    | _ => wrongCount 1
  | "OPCODE" =>
    match args with
    | [name] => return .defineOpcode (← literalOrBare name)
    | _ => wrongCount 1
  | "TASK_OPCODE" =>
    match args with
    | [task, opcode] => return .defineTaskOpcode (← literalOrBare task) (← literalOrBare opcode)
    | _ => wrongCount 2
  | "INIT" | "DEINIT" =>
    match args with
    | [] => .ok (.guardUnnamed method)
    | _ => wrongCount 0
  | _ =>
    if isNumber method then return .defineEvent (← eventDecl method args)
    else .error (.unknownMethod method)

/-! ## Carrying out -/

/-- Carries a statement out. -/
def apply : Statement → Build Unit
  | .defineProvider decl => Build.defineProvider decl
  | .defineAlias name value => Build.defineAlias name value
  | .sourceFile path => Build.updateQueue (·.pushBack path)
  | .includedFile path => Build.updateQueue (·.pushFront path)
  | .defineChannel id name type => Build.defineChannel id name type
  | .defineTask name => Build.defineTask name
  | .defineOpcode name => Build.defineOpcode name
  | .defineTaskOpcode task opcode => Build.defineTaskOpcode task opcode
  | .guardUnnamed method => Build.guardUnnamed method
  | .defineEvent decl => Build.defineEvent decl

end Statement

namespace Build

/-- Carries out a clause with its aliases replaced. -/
def applyClause (c : Source.Clause) : Build Unit := do
  let args := c.args.map (← get).aliased
  (← ofExcept (Statement.ofArguments c.method args)).apply

/-- Reads a text as a clause and carries it out. -/
def applyText (text : String) : Build Unit := do
  applyClause (← ofExcept ((Source.Clause.parse text).mapError (.clause text)))

/-- Carries out the clauses of a source text, in order and up to the first that fails. The result is
their number. -/
def applySource (marker text : String) : Build Nat := do
  let (clauses, fault?) := Source.scan marker text
  clauses.forM applyText
  match fault? with
  | some fault => throw (.scan fault)
  | none => return clauses.length

end Build

end EventSchema
