import EventSchema.Source.Scan
import EventSchema.Source.Clause
import EventSchema.Source.Literal
import EventSchema.Model.Vocabulary
import EventSchema.Numbering.Space
import EventSchema.Text.Quoted

/-!
Everything that can be wrong with a schema, by its cause. The kind of an error and the wording of
its message depend on the cause alone.
-/

namespace EventSchema

/-- The coarse class of an error. -/
inductive ErrorKind
  | invalidContent
  | fileLoadFailure
  | methodNotUnderstood
  | internalError
  deriving DecidableEq, Repr

/-- A property that is set once. -/
inductive Scalar
  | providerId
  | providerName
  | providerSymbol
  | providerDescription
  | providerResourceName
  | channelValue
  | taskValue
  | opcodeValue
  | taskOpcodeValue
  deriving DecidableEq, Repr

/-- The value of a property that is set once. -/
inductive ScalarValue
  | number (n : Nat)
  | text (s : String)
  deriving DecidableEq, Repr

/-- Why a schema cannot be compiled. -/
inductive Error
  /-- A source text holds a marker without a clause. -/
  | scan (fault : Source.ScanFault)
  | clause (text : String) (fault : Source.ClauseFault)
  | literal (text : String) (fault : Source.Literal.Fault)
  | unknownMethod (method : String)
  | argumentCount (method : String) (expected found : Nat)
  /-- The method of an event clause announces more parameters than can be counted. -/
  | arityTooLarge (method : String)
  | unknownWord (word : UnknownWord)
  | providerId (text : String)
  | redefined (what : Scalar) (old new : ScalarValue)
  | aliasRedefined (name old new : String)
  | typedefRedefined (name : String) (old new : FieldType)
  | channelRedefined (id newName : String) (newType : ChannelType) (oldName : String)
      (oldType : ChannelType)
  /-- An opcode is given to a task by a clause, and there is no such task. -/
  | taskOpcodeWithoutTask (task : String)
  /-- An opcode is declared inside a task, and there is no such task. -/
  | localOpcodeWithoutTask (task opcode : String)
  | noChannelToPin (id : String)
  | noTaskToPin (name : String)
  | noOpcodeToPin (name : String)
  | noTaskOpcodeToPin (task name : String)
  | eventWithoutChannel (id : String)
  | eventWithoutTask (name : String)
  | eventWithoutOpcode (name : String)
  | duplicateEvent (name : String)
  /-- The method is only allowed while the provider has no name. -/
  | providerAlreadyNamed (method name : String)
  | numbering (fault : NumberingFault)
  | missingAttribute (element key : String)
  | nonNumericValue (element value : String)
  | paramOutsideEvent
  | malformedJson (path : String)
  | malformedXml (path : String)
  | fileUnavailable (path : String)
  deriving DecidableEq

namespace Error

/-- The class that a cause belongs to. -/
def kind : Error → ErrorKind
  | .unknownMethod _ => .methodNotUnderstood
  | .arityTooLarge _ | .literal _ .digitsNotText => .internalError
  | .fileUnavailable _ => .fileLoadFailure
  | _ => .invalidContent

end Error

/-! ## Wording -/

open Text (quoted)
open Text.Numeral (decimal hex)

/-- What a property is called in a message. -/
def Scalar.noun : Scalar → String
  | .providerId => "provider id"
  | .providerName => "provider name"
  | .providerSymbol => "provider symbol"
  | .providerDescription => "provider description"
  | .providerResourceName => "provider resource name"
  | .channelValue => "channel value"
  | .taskValue => "task value"
  | .opcodeValue => "opcode value"
  | .taskOpcodeValue => "task opcode value"

/-- Numbers are shown in decimal and texts quoted. -/
def ScalarValue.shown : ScalarValue → String
  | .number n => decimal n
  | .text s => quoted s

def Source.ScanFault.message : Source.ScanFault → String
  | .closeBeforeOpen line => s!"unexpected `)` before `(` in clause at line {decimal line}"
  | .noGroup line => s!"clause at line {decimal line} has no `(`"
  | .unclosedGroup line => s!"clause at line {decimal line} is missing its closing `)`"

/-- A byte that should not be there is shown as the character with its number. -/
def Source.ClauseFault.message (text : String) : Source.ClauseFault → String
  | .literalBeforeGroup => s!"unexpected literal before `(` in clause `{text}`"
  | .byteBeforeGroup b => s!"unexpected `{Char.ofNat b.toNat}` before `(` in clause `{text}`"
  | .noArguments => s!"clause `{text}` has no argument list"
  | .unclosedArguments => s!"clause `{text}` is missing its closing `)`"

def Source.Literal.Fault.message (text : String) : Source.Literal.Fault → String
  | .notQuoted => s!"expected a quoted string, found `{text}`"
  | .innerQuote => s!"unescaped quote inside string literal `{text}`"
  | .unfinishedEscape => s!"unterminated escape sequence in `{text}`"
  | .noHexDigits => s!"`\\x` escape without hex digits in `{text}`"
  | .hexDigitsNeeded count =>
    s!"expected exactly {decimal count} hex digits in unicode escape of `{text}`"
  | .digitsNotText => "non-ASCII digits"
  | .escapeOverflow => s!"numeric escape overflows in `{text}`"
  | .byteOverflow value => s!"escape value 0x{hex value} overflows a byte in `{text}`"
  | .notCodePoint value => s!"escape value 0x{hex value} is not a valid code point in `{text}`"
  | .unknownEscape b => s!"unknown escape sequence `\\{Char.ofNat b.toNat}` in `{text}`"
  | .notUtf8 => s!"string literal `{text}` does not decode to UTF-8"

def UnknownWord.message (w : UnknownWord) : String :=
  let expected := ", ".intercalate w.expected
  s!"unknown {w.noun} `{w.word}`, expected one of {expected}"

def NumberingFault.message : NumberingFault → String
  | .outOfRange space owner value =>
    s!"{space.noun} `{owner}` has value {decimal value.toNat} outside of " ++
      s!"{decimal space.first}..={decimal space.last}"
  | .reused space owner value => s!"{space.noun} `{owner}` reuses value {decimal value.toNat}"
  | .exhausted space owner =>
    match space.last? with
    | some last => s!"no free {space.noun} value left for `{owner}` (limit {decimal last})"
    | none => s!"{space.noun} values exhausted while assigning `{owner}`"

namespace Error

open Vocabulary (name)

/-- What is wrong, without the class of the error. -/
def detail : Error → String
  | .scan fault => fault.message
  | .clause text fault => fault.message text
  | .literal text fault => fault.message text
  | .unknownMethod method => s!"method `{method}` is not understood"
  | .argumentCount method expected found =>
    s!"`{method}` expects {decimal expected} argument(s), got {decimal found}"
  | .arityTooLarge method => s!"event arity `{method}` is too large"
  | .unknownWord word => word.message
  | .providerId text => s!"invalid provider id `{text}`"
  | .redefined what old new => s!"{what.noun} redefined from {old.shown} to {new.shown}"
  | .aliasRedefined aliasName old new => s!"alias `{aliasName}` redefined from `{old}` to `{new}`"
  | .typedefRedefined typedef old new =>
    s!"typedef `{typedef}` redefined from {name old} to {name new}"
  | .channelRedefined id newName newType oldName oldType =>
    s!"channel `{id}` redefined as (`{newName}`, {name newType}), " ++
      s!"previously (`{oldName}`, {name oldType})"
  | .taskOpcodeWithoutTask task => s!"TASK_OPCODE references undefined task `{task}`"
  | .localOpcodeWithoutTask task opcode => s!"opcode `{opcode}` declared on undefined task `{task}`"
  | .noChannelToPin id => s!"cannot pin undefined channel `{id}`"
  | .noTaskToPin task => s!"cannot pin undefined task `{task}`"
  | .noOpcodeToPin opcode => s!"cannot pin undefined opcode `{opcode}`"
  | .noTaskOpcodeToPin task opcode => s!"cannot pin undefined opcode `{opcode}` of task `{task}`"
  | .eventWithoutChannel id => s!"event references undefined channel `{id}`"
  | .eventWithoutTask task => s!"event references undefined task `{task}`"
  | .eventWithoutOpcode opcode => s!"event references undefined opcode `{opcode}`"
  | .duplicateEvent event => s!"duplicate event `{event}`"
  | .providerAlreadyNamed method provider =>
    s!"`{method}` is not allowed after provider `{provider}` was defined"
  | .numbering fault => fault.message
  | .missingAttribute element key => s!"<{element}> is missing the `{key}` attribute"
  | .nonNumericValue element value => s!"<{element}> has a non numeric value `{value}`"
  | .paramOutsideEvent => "<param> outside of an <event>"
  | .malformedJson path => s!"failed to parse JSON document `{path}`"
  | .malformedXml path => s!"failed to parse XML document `{path}`"
  | .fileUnavailable path => s!"failed to load file `{path}`"

/-- The whole message. Causes that name themselves are not introduced by their class. -/
def message (e : Error) : String :=
  match e with
  | .unknownMethod _ | .malformedJson _ | .malformedXml _ | .fileUnavailable _ => e.detail
  | .arityTooLarge _ | .literal _ .digitsNotText => "internal error: " ++ e.detail
  | _ => "invalid content: " ++ e.detail

end Error

end EventSchema
