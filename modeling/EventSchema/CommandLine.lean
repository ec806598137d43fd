import EventSchema.Compilation.Basic

/-!
The arguments of the program. They are read from left to right: an option that asks for the version
or for help ends the reading at once, and so does the first mistake.
-/

namespace EventSchema.CommandLine

/-! ## Requests -/

/-- What is written about a compiled schema. -/
inductive Format
  | summary
  | json
  deriving DecidableEq, Repr

/-- A compilation that was asked for. -/
structure Job where
  input : String
  output : Option String := none
  format : Format := .summary
  settings : Settings := {}
  /-- Whether a file is only overwritten after a confirmation. -/
  confirmOverwrite : Bool := true
  verbosity : Nat := 0
  deriving DecidableEq

/-- What the arguments ask for. -/
inductive Request
  | compile (job : Job)
  | showVersion
  | showHelp
  /-- The arguments are no command line of the program. -/
  | misuse
  deriving DecidableEq

/-! ## Pieces of arguments -/

/-- An option that takes a value. -/
inductive Setting
  | output
  | format
  | marker
  deriving DecidableEq, Repr

/-- An option without a value. -/
inductive Flag
  | overwrite
  | keepDuplicates
  | verbose
  | version
  | help
  deriving DecidableEq, Repr

/-- A piece of an argument. -/
inductive Piece
  | flag (f : Flag)
  /-- A setting, with its value if the argument holds it. -/
  | setting (s : Setting) (value : Option String)
  | input (text : String)
  | unknown
  deriving DecidableEq, Repr

/-- The piece of an option that is given by its long name. -/
def longPiece (name : String) (value : Option String) : Piece :=
  let flag (f : Flag) : Piece := if value.isNone then .flag f else .unknown
  match name with
  | "output" => .setting .output value
  | "format" => .setting .format value
  | "prefix" => .setting .marker value
  | "no-confirm-overwrite" => flag .overwrite
  | "no-dedupe" => flag .keepDuplicates
  | "version" => flag .version
  | "help" => flag .help
  | _ => .unknown

/-- The value behind the letter of a setting, which an equals sign may introduce. -/
def attached (rest : List Char) : Option String :=
  match rest with
  | [] => none
  | '=' :: value => some (String.ofList value)
  | _ => some (String.ofList rest)

/-- The pieces of options that are given by letters. -/
def letterPieces : List Char → List Piece
  | [] => []
  | 'o' :: rest => [.setting .output (attached rest)]
  | 'f' :: rest => [.setting .format (attached rest)]
  | 'v' :: rest => .flag .verbose :: letterPieces rest
  | 'V' :: rest => .flag .version :: letterPieces rest
  | 'h' :: rest => .flag .help :: letterPieces rest
  | _ :: _ => [.unknown]

/-- The pieces of an argument. A dash alone is an input. -/
def piecesOf (arg : String) : List Piece :=
  match arg.toList with
  | '-' :: '-' :: long =>
    let name := long.takeWhile (· ≠ '=')
    let value :=
      match long.drop name.length with
      | [] => none
      | _ :: value => some (String.ofList value)
    [longPiece (String.ofList name) value]
  | '-' :: c :: letters => letterPieces (c :: letters)
  | _ => [.input arg]

/-- Whether an argument is not a value for the setting before it. -/
def looksLikeOption (arg : String) : Bool := arg.toList.head? == some '-' && arg != "-"

/-! ## Reading -/

/-- What has been read of the arguments. -/
structure Options where
  input : Option String := none
  output : Option String := none
  format : Option Format := none
  marker : Option String := none
  overwrite : Bool := false
  keepDuplicates : Bool := false
  verbosity : Nat := 0
  deriving DecidableEq

namespace Options

/-- Gives a setting its value; it has one at most. -/
def set (o : Options) (s : Setting) (value : String) : Except Request Options :=
  match s with
  | .output => if o.output.isSome then .error .misuse else .ok { o with output := some value }
  | .marker => if o.marker.isSome then .error .misuse else .ok { o with marker := some value }
  | .format =>
    if o.format.isSome then .error .misuse
    else
      match value with
      | "summary" => .ok { o with format := some .summary }
      | "json" => .ok { o with format := some .json }
      | _ => .error .misuse

/-- Takes a flag. Only `verbose` may be repeated. -/
def raise (o : Options) (f : Flag) : Except Request Options :=
  match f with
  | .overwrite => if o.overwrite then .error .misuse else .ok { o with overwrite := true }
  | .keepDuplicates =>
    if o.keepDuplicates then .error .misuse else .ok { o with keepDuplicates := true }
  | .verbose => .ok { o with verbosity := o.verbosity + 1 }
  | .version => .error .showVersion
  | .help => .error .showHelp

/-- Takes an input; there is one at most. -/
def takeInput (o : Options) (text : String) : Except Request Options :=
  if o.input.isSome then .error .misuse else .ok { o with input := some text }

/-- Takes the pieces of an argument. The result may be a setting whose value is the next
argument. -/
def takePieces (o : Options) : List Piece → Except Request (Options × Option Setting)
  | [] => .ok (o, none)
  | .flag f :: rest => do takePieces (← o.raise f) rest
  | .setting s none :: _ => .ok (o, some s)
  | .setting s (some value) :: rest => do takePieces (← o.set s value) rest
  | .input text :: rest => do takePieces (← o.takeInput text) rest
  | .unknown :: _ => .error .misuse

/-- Takes arguments, the first of which may be the value of a setting. After two dashes all
arguments are inputs. -/
def takeArgs (o : Options) (awaiting : Option Setting) : List String → Except Request Options
  | [] => if awaiting.isSome then .error .misuse else .ok o
  | arg :: rest =>
    match awaiting with
    | some s =>
      if looksLikeOption arg then .error .misuse else do takeArgs (← o.set s arg) none rest
    | none =>
      if arg = "--" then rest.foldlM takeInput o
      else do
        let (o, awaiting) ← o.takePieces (piecesOf arg)
        takeArgs o awaiting rest

/-- The job that the options describe. -/
def job? (o : Options) : Option Job :=
  o.input.map fun input => {
    input
    output := o.output
    format := o.format.getD .summary
    settings := {
      marker := o.marker.getD Source.defaultMarker
      skipDuplicates := !o.keepDuplicates }
    confirmOverwrite := !o.overwrite
    verbosity := o.verbosity }

end Options

/-- Reads the arguments of the program. -/
def parse (args : List String) : Request :=
  match ({} : Options).takeArgs none args with
  | .error request => request
  | .ok o =>
    match o.job? with
    | some job => .compile job
    | none => .misuse

end EventSchema.CommandLine
