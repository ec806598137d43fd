import EventSchema.CommandLine
import EventSchema.Compilation.Drain
import EventSchema.Files.Tree
import EventSchema.Report.ModelJson
import EventSchema.Report.Summary

/-!
The program: what it reads and writes for a command line. It works on any file system, on a tree as
well as on the one of the machine, and leaves an output file alone unless the schema compiles.
-/

namespace EventSchema

/-- Loads a file. A file that cannot be read is noted. -/
def loadFile {m : Type → Type} [Monad m] (files : FileSystem m) (tell : (Unit → List Note) → m Unit)
    (path : String) : m (Option Bytes) := do
  match ← files.read path with
  | .ok contents => return some contents
  | .error fault =>
    tell fun _ => [.unreadable path fault]
    return none

/-- Compiles the schema of a root file. Paths are seen from the directory of the root. -/
def compilePath {m : Type → Type} [Monad m] (files : FileSystem m)
    (tell : (Unit → List Note) → m Unit) (settings : Settings) (bound : Nat) (root : String) :
    m (Option (Except Error Compilation)) :=
  match Path.lastSplit? root, Path.fileName? root with
  | some (base, _), some name =>
    Compilation.compileFrom (fun path => loadFile files tell (Path.join base path)) tell settings
      Checksum.fileHash bound name
  | _, _ => pure (some (.error (.fileUnavailable root)))

namespace Program

/-- What a run of the program shows. -/
structure Outcome where
  code : Nat
  output : String := ""
  /-- What goes to the error output at the end, line by line. -/
  errors : List String := []
  deriving DecidableEq

/-- What the program calls itself. -/
def versionText : String := "evtc 0.1.0\n"

/-- How the program is called. -/
def helpText : String :=
  "Usage: evtc [OPTIONS] <INPUT>\n\n" ++
  "  -o, --output <PATH>         write to a file\n" ++
  "      --no-confirm-overwrite  overwrite a file without asking\n" ++
  "  -f, --format <FORMAT>       summary or json\n" ++
  "      --prefix <LITERAL>      the text that introduces a clause\n" ++
  "      --no-dedupe             compile files with equal contents again\n" ++
  "  -v                          say more\n" ++
  "  -h, --help                  show this help\n" ++
  "  -V, --version               show the version\n"

/-! ## What is written -/

/-- A text with a newline at its end. -/
def ended (s : String) : String := if s.toList.getLast? = some '\n' then s else s ++ "\n"

/-- What is written about a provider. -/
def render (format : CommandLine.Format) (p : Provider) : String :=
  match format with
  | .summary => ended (Report.summary p)
  | .json => ended p.toJson.pretty

/-- Writes an output file; the error is the line that is shown. A file is not overwritten when a
confirmation is needed, because nobody is asked. -/
def writeOutput {m : Type → Type} [Monad m] (files : FileSystem m) (confirm : Bool)
    (path text : String) : ExceptT String m Unit := do
  if ← files.isDirectory path then
    throw s!"There is a directory at {path}, refusing to overwrite"
  if confirm then
    if ← files.hasEntry path then
      throw "failed to display confirmation prompt"
  match (Path.parent? path).filter (!·.isEmpty) with
  | some parent =>
    if !(← files.hasEntry parent) then
      if !(← files.makeDirectories parent) then
        throw s!"failed to create `{parent}`"
  | none => pure ()
  if !(← files.write path (Text.Utf8.encode text)) then
    throw s!"failed to create `{path}`"

/-! ## Running -/

/-- Passes on the notes that a job wants to hear. -/
def tellShown {m : Type → Type} [Monad m] (tell : Note → m Unit) (job : CommandLine.Job)
    (notes : Unit → List Note) : m Unit :=
  ((notes ()).filter (·.level.isShown job.verbosity)).forM tell

/-- Carries a job out; `none` if more files than `bound` are needed. -/
def runJob {m : Type → Type} [Monad m] (files : FileSystem m) (tell : Note → m Unit) (bound : Nat)
    (job : CommandLine.Job) : m (Option Outcome) := do
  if 3 < job.verbosity then tell .verbosityCapped
  if job.settings.marker.isEmpty then
    return some { code := 1, errors := ["the clause prefix must not be empty"] }
  match ← compilePath files (tellShown tell job) job.settings bound job.input with
  | none => return none
  | some (.error e) =>
    return some {
      code := 1
      errors := [s!"failed to compile `{job.input}`", "", "Caused by:", "    " ++ e.message] }
  | some (.ok compiled) =>
    tellShown tell job fun _ => [.compiled compiled.files.length compiled.skipped.length]
    let text := render job.format compiled.provider
    match job.output with
    | none => return some { code := 0, output := text }
    | some path =>
      match ← (writeOutput files job.confirmOverwrite path text).run with
      | .error line => return some { code := 1, errors := [line] }
      | .ok () => return some { code := 0 }

/-- Runs the program; `none` if more files than `bound` are needed. -/
def run {m : Type → Type} [Monad m] (files : FileSystem m) (tell : Note → m Unit) (bound : Nat)
    (args : List String) : m (Option Outcome) :=
  match CommandLine.parse args with
  | .showVersion => pure (some { code := 0, output := versionText })
  | .showHelp => pure (some { code := 0, output := helpText })
  | .misuse => pure (some { code := 2, errors := ["error: unexpected arguments", "", helpText] })
  | .compile job => runJob files tell bound job

end Program

end EventSchema
