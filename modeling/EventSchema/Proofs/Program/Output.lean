import EventSchema.Program
import EventSchema.Proofs.Compilation.Termination
import EventSchema.Proofs.Files.Change
import EventSchema.Proofs.Files.Ending

/-!
# What a run does to its output

A run compiles before it writes anything, and compiling changes nothing (`ends_compilePath`).
Writing makes the output file or changes no file (`ends_writeOutput`). So a run that fails leaves
every file as it is, and one that ends well shows the text of the compiled schema (`run_output`).
-/

namespace EventSchema

open FileTree (fileSystem SameFiles)

variable {m : Type → Type} [Monad m] [LawfulMonad m]

/-! ## Compiling -/

section

variable {t : FileTree} {tell : (Unit → List Note) → StateT FileTree m Unit}

namespace Compilation

variable {load : String → StateT FileTree m (Option Bytes)} {contents : String → Option Bytes}

theorem ends_drain (hload : ∀ path, Ends (load path) t (contents path) t)
    (quiet : ∀ notes, Ends (tell notes) t () t) (settings : Settings) (hash : Bytes → String)
    (bound : Nat) (r : Run) :
    Ends (drain load tell settings hash bound r) t
      (drain (m := Id) contents (fun _ => pure ()) settings hash bound r) t := by
  induction bound generalizing r with
  | zero =>
    rw [drain, drain]
    cases nextFile? r with
    | none => exact ends_pure _ t
    | some next => exact ends_pure _ t
  | succ bound ih =>
    cases hnext : nextFile? r with
    | none =>
      rw [drain_of_empty hnext, drain, hnext]
      exact ends_pure _ t
    | some next =>
      obtain ⟨path, r'⟩ := next
      rw [drain_of_next hnext, drain, hnext]
      refine ends_bind (hload path) (ends_bind (quiet _) ?_)
      cases takeFile settings hash r' path (contents path) with
      | error e => exact ends_pure _ t
      | ok r'' => exact ih r''

theorem ends_compileFrom (hload : ∀ path, Ends (load path) t (contents path) t)
    (quiet : ∀ notes, Ends (tell notes) t () t) (settings : Settings) (hash : Bytes → String)
    (bound : Nat) (root : String) :
    Ends (compileFrom load tell settings hash bound root) t
      (compile contents settings hash bound root) t := by
  rw [compile_eq]
  refine ends_bind (hload root) (ends_bind (quiet _) ?_)
  cases start hash root (contents root) with
  | error e => exact ends_pure _ t
  | ok r =>
    dsimp only
    refine ends_bind (ends_drain hload quiet settings hash bound r) ?_
    rcases drain (m := Id) contents (fun _ => pure ()) settings hash bound r with _ | _ | r'
    · exact ends_pure _ t
    · exact ends_pure _ t
    · exact ends_bind (quiet _) (ends_pure _ t)

end Compilation

theorem ends_loadFile (quiet : ∀ notes, Ends (tell notes) t () t) (path : String) :
    Ends (loadFile fileSystem tell path) t (t.read path).toOption t := by
  refine ends_bind (ends_read path t) ?_
  cases t.read path with
  | ok contents => exact ends_pure _ t
  | error fault => exact ends_bind (quiet _) (ends_pure _ t)

/-- What the schema of a root file in a tree compiles to, with a listener that hears nothing; `none`
if more files than `bound` are needed. -/
def compiledIn (t : FileTree) (settings : Settings) (bound : Nat) (root : String) :
    Option (Except Error Compilation) :=
  ((compilePath (fileSystem (m := Id)) (fun _ => pure ()) settings bound root).run t).1

/-- What a directory of a tree holds, by paths that are seen from there. -/
def FileTree.seenFrom (t : FileTree) (base path : String) : Option Bytes :=
  (t.read (Path.join base path)).toOption

theorem FileTree.read_of_seenFrom {base path : String} {c : Bytes}
    (h : t.seenFrom base path = some c) : t.read (Path.join base path) = .ok c := by
  rw [FileTree.seenFrom] at h
  cases hread : t.read (Path.join base path) with
  | error fault =>
    rw [hread] at h
    cases h
  | ok contents =>
    rw [hread] at h
    cases h
    rfl

/-- Compiling a root file ends with what the files seen from its directory compile to. -/
theorem ends_compilePath_seen (quiet : ∀ notes, Ends (tell notes) t () t) (settings : Settings)
    (bound : Nat) (root : String) :
    Ends (compilePath fileSystem tell settings bound root) t
      (match Path.lastSplit? root, Path.fileName? root with
        | some (base, _), some name =>
          Compilation.compile (t.seenFrom base) settings Checksum.fileHash bound name
        | _, _ => some (.error (.fileUnavailable root))) t := by
  rw [compilePath]
  rcases Path.lastSplit? root with _ | ⟨base, _⟩
  · exact ends_pure _ t
  rcases Path.fileName? root with _ | name
  · exact ends_pure _ t
  exact Compilation.ends_compileFrom (fun path => ends_loadFile quiet (Path.join base path)) quiet
    settings Checksum.fileHash bound name

theorem compiledIn_eq (t : FileTree) (settings : Settings) (bound : Nat) (root : String) :
    compiledIn t settings bound root =
      match Path.lastSplit? root, Path.fileName? root with
      | some (base, _), some name =>
        Compilation.compile (t.seenFrom base) settings Checksum.fileHash bound name
      | _, _ => some (.error (.fileUnavailable root)) := by
  rw [compiledIn,
    run_of_ends (ends_compilePath_seen (fun _ => ends_pure () t) settings bound root)]

/-- **Compiling changes nothing**, and what is said meanwhile does not matter for the result. -/
theorem ends_compilePath (quiet : ∀ notes, Ends (tell notes) t () t) (settings : Settings)
    (bound : Nat) (root : String) :
    Ends (compilePath fileSystem tell settings bound root) t (compiledIn t settings bound root) t := by
  rw [compiledIn_eq]
  exact ends_compilePath_seen quiet settings bound root

/-- With duplicates skipped, compiling a root file in a tree comes to an end. -/
theorem compiledIn_ends (t : FileTree) (root marker : String) :
    ∃ enough result, ∀ bound, enough ≤ bound →
      compiledIn t { marker, skipDuplicates := true } bound root = some result := by
  simp only [compiledIn_eq]
  split
  · next base _ name _ _ =>
    have hload : ∀ path c, t.seenFrom base path = some c → c ∈ t.contents :=
      fun path c hc => FileTree.mem_contents_of_read (FileTree.read_of_seenFrom hc)
    exact Compilation.compile_ends_of_mem hload marker Checksum.fileHash name
  · exact ⟨0, _, fun _ _ => rfl⟩

end

/-! ## Writing the output -/

namespace Program

/-- Makes an output file. -/
def makeFile (files : FileSystem m) (path text : String) : ExceptT String m Unit := do
  if !(← files.write path (Text.Utf8.encode text)) then
    throw s!"failed to create `{path}`"

/-- Makes an output file and the directories above it that are missing. -/
def makeOutput (files : FileSystem m) (path text : String) : ExceptT String m Unit := do
  match (Path.parent? path).filter (!·.isEmpty) with
  | some parent =>
    if !(← files.hasEntry parent) then
      if !(← files.makeDirectories parent) then
        throw s!"failed to create `{parent}`"
  | none => pure ()
  makeFile files path text

omit [LawfulMonad m] in
/-- Before anything is made it is checked that nothing is overwritten that should not be. -/
theorem writeOutput_eq (files : FileSystem m) (confirm : Bool) (path text : String) :
    writeOutput files confirm path text = (do
      if ← files.isDirectory path then
        throw s!"There is a directory at {path}, refusing to overwrite"
      if confirm then
        if ← files.hasEntry path then
          throw "failed to display confirmation prompt"
      makeOutput files path text) :=
  rfl

/-- How a tree is left by writing an output file, with success or not. -/
structure Left (t : FileTree) (path text : String) (result : Except String Unit) (t' : FileTree) :
    Prop where
  failed : ∀ line, result = .error line → SameFiles t t' fun _ => True
  written : result = .ok () → t'.read path = .ok (Text.Utf8.encode text) ∧
    ∃ place, t'.locate path = .ok place ∧ SameFiles t t' (· ≠ place)

theorem ends_makeFile {t t₁ : FileTree} (h : SameFiles t t₁ fun _ => True) (path text : String) :
    ∃ result t', Ends (m := m) (makeFile fileSystem path text).run t₁ result t' ∧
      Left t path text result t' ∧
      ((t₁.write path (Text.Utf8.encode text)).2 = true → result = .ok ()) := by
  have hwrite := ends_liftM (ends_write (m := m) path (Text.Utf8.encode text) t₁)
  rcases hresult : t₁.write path (Text.Utf8.encode text) with ⟨t', ok⟩
  rw [hresult] at hwrite
  cases ok with
  | true =>
    refine ⟨.ok (), t', ends_bind_ok hwrite (ends_pure _ _), ⟨nofun, fun _ => ?_⟩, fun _ => rfl⟩
    obtain ⟨place, hlocate, hsame⟩ := FileTree.sameFiles_write hresult
    exact ⟨FileTree.read_of_write hresult, place, hlocate,
      (h.mono fun _ _ => trivial).trans hsame⟩
  | false =>
    have hsame := FileTree.write_eq_false hresult
    exact ⟨.error _, t', ends_bind_ok hwrite (ends_throw _ _), ⟨fun _ _ => hsame ▸ h, nofun⟩, nofun⟩

/-- Whether an output file can be made as things stand: the directory above it is there, no
directory is in its place, and no confirmation is needed. -/
structure CanMake (t : FileTree) (confirm : Bool) (path : String) : Prop where
  parent : ∀ parent, (Path.parent? path).filter (!·.isEmpty) = some parent →
    t.hasEntry parent = true
  place : ∃ place, t.locate path = .ok place ∧ t.isDirectoryAt place = false
  unasked : confirm = true → t.hasEntry path = false

theorem CanMake.write {t : FileTree} {confirm : Bool} {path : String} (h : CanMake t confirm path)
    (contents : Bytes) : (t.write path contents).2 = true := by
  obtain ⟨place, hlocate, hdirectory⟩ := h.place
  exact FileTree.write_of_locate hlocate hdirectory contents

theorem CanMake.isDirectory {t : FileTree} {confirm : Bool} {path : String}
    (h : CanMake t confirm path) : t.isDirectory path = false := by
  obtain ⟨place, hlocate, hdirectory⟩ := h.place
  exact FileTree.isDirectory_of_locate hlocate hdirectory

theorem ends_makeOutput (confirm : Bool) (path text : String) (t : FileTree) :
    ∃ result t', Ends (m := m) (makeOutput fileSystem path text).run t result t' ∧
      Left t path text result t' ∧ (CanMake t confirm path → result = .ok ()) := by
  have hsame : SameFiles t t fun _ => True := FileTree.sameFiles_refl t _
  obtain ⟨result, t', hmake, hleft, hmade⟩ := ends_makeFile (m := m) hsame path text
  have hmade : CanMake t confirm path → result = .ok () := fun h => hmade (h.write _)
  rw [makeOutput]
  split
  · next parent hparent =>
    have hentry := ends_liftM (ends_hasEntry (m := m) parent t)
    cases hthere : t.hasEntry parent with
    | true =>
      rw [hthere] at hentry
      exact ⟨result, t', ends_bind_ok hentry hmake, hleft, hmade⟩
    | false =>
      -- A directory has to be made first, which `CanMake` rules out.
      have hcannot : ∀ {r : Except String Unit}, CanMake t confirm path → r = .ok () := by
        intro r h
        rw [h.parent parent hparent] at hthere
        cases hthere
      rw [hthere] at hentry
      have hdirectories := ends_liftM (ends_makeDirectories (m := m) parent t)
      have hkept := FileTree.sameFiles_makeDirectories t parent
      rcases hmade : t.makeDirectories parent with ⟨t₁, ok⟩
      rw [hmade] at hdirectories hkept
      cases ok with
      | true =>
        obtain ⟨result, t', hmake, hleft, -⟩ := ends_makeFile (m := m) hkept path text
        exact ⟨result, t', ends_bind_ok hentry (ends_bind_ok hdirectories hmake), hleft, hcannot⟩
      | false =>
        exact ⟨.error _, t₁, ends_bind_ok hentry (ends_bind_ok hdirectories
          (ends_bind_error (ends_throw _ _))), ⟨fun _ _ => hkept, nofun⟩, hcannot⟩
  · exact ⟨result, t', hmake, hleft, hmade⟩

/-- **Writing an output file** makes that file or changes no file, makes it if it can be made, and
changes nothing if there is a directory at its path. -/
theorem ends_writeOutput (confirm : Bool) (path text : String) (t : FileTree) :
    ∃ result t', Ends (m := m) (writeOutput fileSystem confirm path text).run t result t' ∧
      Left t path text result t' ∧ (CanMake t confirm path → result = .ok ()) ∧
      (t.isDirectory path = true → (∃ line, result = .error line) ∧ t' = t) := by
  have hdirectory := ends_liftM (ends_isDirectory (m := m) path t)
  have hrefused : ∀ line, Left t path text (.error line) t :=
    fun _ => ⟨fun _ _ => FileTree.sameFiles_refl t _, nofun⟩
  rw [writeOutput_eq]
  cases hthere : t.isDirectory path with
  | true =>
    rw [hthere] at hdirectory
    refine ⟨.error _, t, ends_bind_ok hdirectory (ends_bind_error (ends_throw _ t)), hrefused _,
      fun h => ?_, fun _ => ⟨⟨_, rfl⟩, rfl⟩⟩
    rw [h.isDirectory] at hthere
    cases hthere
  | false =>
    rw [hthere] at hdirectory
    obtain ⟨result, t', hmake, hleft, hmade⟩ := ends_makeOutput (m := m) confirm path text t
    cases confirm with
    | false => exact ⟨result, t', ends_bind_ok hdirectory hmake, hleft, hmade, nofun⟩
    | true =>
      have hentry := ends_liftM (ends_hasEntry (m := m) path t)
      cases hfound : t.hasEntry path with
      | true =>
        rw [hfound] at hentry
        refine ⟨.error _, t, ends_bind_ok hdirectory (ends_bind_ok hentry
          (ends_bind_error (ends_throw _ t))), hrefused _, fun h => ?_, nofun⟩
        rw [h.unasked rfl] at hfound
        cases hfound
      | false =>
        rw [hfound] at hentry
        exact ⟨result, t', ends_bind_ok hdirectory (ends_bind_ok hentry hmake), hleft, hmade, nofun⟩

/-! ## Whole runs -/

/-- What is written about a provider, without the newline that may have to be added. -/
def generated (format : CommandLine.Format) (p : Provider) : String :=
  match format with
  | .summary => Report.summary p
  | .json => p.toJson.pretty

/-- The newline that a text lacks. -/
def missingNewline (s : String) : String := if s.toList.getLast? = some '\n' then "" else "\n"

theorem render_eq (format : CommandLine.Format) (p : Provider) :
    render format p = generated format p ++ missingNewline (generated format p) := by
  have hended : ∀ s, ended s = s ++ missingNewline s := by
    intro s
    rw [ended, missingNewline]
    split
    · rw [String.append_empty]
    · rfl
  cases format with
  | summary => exact hended _
  | json => exact hended _

theorem ends_tellShown (say : Note → m Unit) (job : CommandLine.Job) (notes : Unit → List Note)
    (t : FileTree) :
    Ends (tellShown (fun note => StateT.lift (say note)) job notes) t () t := by
  rw [tellShown]
  induction (notes ()).filter (·.level.isShown job.verbosity) with
  | nil => exact ends_pure () t
  | cons note rest ih => exact ends_bind (ends_lift (say note) t) ih

/-- What a run shows and how it leaves the tree, by what its schema compiles to. -/
structure OutputOf (t : FileTree) (job : CommandLine.Job) (result : Except Error Compilation)
    (outcome : Outcome) (t' : FileTree) : Prop where
  failed : ∀ e, result = .error e → outcome.code = 1 ∧ outcome.output = "" ∧ t' = t
  directory : ∀ path, job.output = some path → t.isDirectory path = true →
    outcome.code = 1 ∧ outcome.output = "" ∧ t' = t
  refused : outcome.code ≠ 0 →
    outcome.code = 1 ∧ outcome.output = "" ∧ SameFiles t t' fun _ => True
  succeeds : ∀ compiled, result = .ok compiled →
    (∀ path, job.output = some path → CanMake t job.confirmOverwrite path) → outcome.code = 0
  done : outcome.code = 0 → ∃ compiled text, result = .ok compiled ∧
    text = generated job.format compiled.provider ++
      missingNewline (generated job.format compiled.provider) ∧
    (job.output = none → outcome.output = text ∧ t' = t) ∧
    ∀ path, job.output = some path → outcome.output = "" ∧
      t'.read path = .ok (Text.Utf8.encode text) ∧
      ∃ place, t'.locate path = .ok place ∧ SameFiles t t' (· ≠ place)

variable {t t' : FileTree} {job : CommandLine.Job} {compiled : Compilation}

theorem outputOf_error (e : Error) (errors : List String) :
    OutputOf t job (.error e) { code := 1, errors } t where
  failed _ _ := ⟨rfl, rfl, rfl⟩
  directory _ _ _ := ⟨rfl, rfl, rfl⟩
  refused _ := ⟨rfl, rfl, FileTree.sameFiles_refl t _⟩
  succeeds _ hcompiled := nomatch hcompiled
  done hcode := nomatch hcode

theorem outputOf_shown (stdout : job.output = none) :
    OutputOf t job (.ok compiled) { code := 0, output := render job.format compiled.provider } t where
  failed _ he := nomatch he
  directory path hpath := by
    rw [stdout] at hpath
    cases hpath
  refused hcode := absurd rfl hcode
  succeeds _ _ _ := rfl
  done _ := by
    refine ⟨compiled, _, rfl, render_eq _ _, fun _ => ⟨rfl, rfl⟩, fun path hpath => ?_⟩
    rw [stdout] at hpath
    cases hpath

theorem outputOf_written {path : String} (file : job.output = some path)
    (free : t.isDirectory path = false)
    (left : Left t path (render job.format compiled.provider) (.ok ()) t') :
    OutputOf t job (.ok compiled) { code := 0 } t' where
  failed _ he := nomatch he
  directory path' hpath h := by
    rw [file] at hpath
    cases hpath
    rw [free] at h
    cases h
  refused hcode := absurd rfl hcode
  succeeds _ _ _ := rfl
  done _ := by
    refine ⟨compiled, _, rfl, render_eq _ _, fun hnone => ?_, fun path' hpath => ?_⟩
    · rw [file] at hnone
      cases hnone
    · rw [file] at hpath
      cases hpath
      exact ⟨rfl, left.written rfl⟩

theorem outputOf_refused {path line : String} (file : job.output = some path)
    (left : Left t path (render job.format compiled.provider) (.error line) t')
    (cannot : ¬ CanMake t job.confirmOverwrite path)
    (directory : t.isDirectory path = true → t' = t) :
    OutputOf t job (.ok compiled) { code := 1, errors := [line] } t' where
  failed _ he := nomatch he
  directory path' hpath h := by
    rw [file] at hpath
    cases hpath
    exact ⟨rfl, rfl, directory h⟩
  refused _ := ⟨rfl, rfl, left.failed line rfl⟩
  succeeds _ _ h := absurd (h path file) cannot
  done hcode := nomatch hcode

/-- What a job does with its compiled schema. -/
def deliver (files : FileSystem m) (tell : Note → m Unit) (job : CommandLine.Job)
    (compiled : Compilation) : m (Option Outcome) := do
  tellShown tell job fun _ => [.compiled compiled.files.length compiled.skipped.length]
  let text := render job.format compiled.provider
  match job.output with
  | none => return some { code := 0, output := text }
  | some path =>
    match ← (writeOutput files job.confirmOverwrite path text).run with
    | .error line => return some { code := 1, errors := [line] }
    | .ok () => return some { code := 0 }

theorem ends_deliver (say : Note → m Unit) (job : CommandLine.Job) (compiled : Compilation)
    (t : FileTree) :
    ∃ outcome t', Ends (deliver fileSystem (fun note => StateT.lift (say note)) job compiled) t
      (some outcome) t' ∧ OutputOf t job (.ok compiled) outcome t' := by
  have hnote := ends_tellShown say job
    (fun _ => [.compiled compiled.files.length compiled.skipped.length]) t
  rw [deliver]
  cases houtput : job.output with
  | none => exact ⟨_, t, ends_bind hnote (ends_pure (some _) t), outputOf_shown houtput⟩
  | some path =>
    obtain ⟨result, t', hwrite, hleft, hmade, hdirectory⟩ := ends_writeOutput (m := m)
      job.confirmOverwrite path (render job.format compiled.provider) t
    cases result with
    | error line =>
      exact ⟨_, t', ends_bind hnote (ends_bind hwrite (ends_pure (some _) t')),
        outputOf_refused houtput hleft (fun h => nomatch hmade h) fun h => (hdirectory h).2⟩
    | ok u =>
      have hfree : t.isDirectory path = false := by
        rw [← Bool.not_eq_true]
        intro h
        obtain ⟨⟨line, hline⟩, -⟩ := hdirectory h
        cases hline
      exact ⟨_, t', ends_bind hnote (ends_bind hwrite (ends_pure (some _) t')),
        outputOf_written houtput hfree hleft⟩

theorem ends_runJob (say : Note → m Unit) (bound : Nat) (hmarker : job.settings.marker ≠ "")
    (t : FileTree) :
    ∃ outcome? t',
      Ends (runJob fileSystem (fun note => StateT.lift (say note)) bound job) t outcome? t' ∧
      (compiledIn t job.settings bound job.input = none → outcome? = none ∧ t' = t) ∧
      ∀ result, compiledIn t job.settings bound job.input = some result →
        ∃ outcome, outcome? = some outcome ∧ OutputOf t job result outcome t' := by
  have hcompile := ends_compilePath (fun notes => ends_tellShown say job notes t) job.settings bound
    job.input
  have hmarker : ¬ job.settings.marker.isEmpty = true := by
    rwa [String.isEmpty_iff]
  rw [runJob]
  refine Exists.imp (fun _ => Exists.imp fun _ =>
    And.imp_left (ends_after_said (ends_lift (say .verbosityCapped) t))) ?_
  rw [if_neg hmarker]
  generalize compiledIn t job.settings bound job.input = compiled? at hcompile
  rcases compiled? with _ | e | compiled
  · exact ⟨none, t, ends_bind hcompile (ends_pure none t), fun _ => ⟨rfl, rfl⟩, nofun⟩
  · refine ⟨_, t, ends_bind hcompile (ends_pure (some _) t), nofun, fun _ hresult => ?_⟩
    cases hresult
    exact ⟨_, rfl, outputOf_error e _⟩
  · obtain ⟨outcome, t', hends, houtput⟩ := ends_deliver say job compiled t
    refine ⟨some outcome, t', ends_bind hcompile hends, nofun, fun _ hresult => ?_⟩
    cases hresult
    exact ⟨outcome, rfl, houtput⟩

/-- **A run that fails leaves its output alone, and one that ends well leaves the whole text
there.** Where duplicates are skipped, the compilation of every tree ends. On every tree, and
whatever is said meanwhile, a run for a compilation with a clause prefix that is not empty ends if
its compilation does. If the schema does not compile, or if there is a directory at the path of the
output, nothing is shown and nothing is changed. If it does, and the output file can be made, the
run ends well. If the run ends well, the text of the compiled schema, with a newline if it ends
without, is shown or is the contents of the output file, and no other file is changed; if it does
not, every file is as it was. -/
theorem run_output (say : Note → m Unit) {args : List String}
    (hargs : CommandLine.parse args = .compile job) (hmarker : job.settings.marker ≠ "")
    (t : FileTree) :
    (job.settings.skipDuplicates = true → ∃ enough result, ∀ bound, enough ≤ bound →
      compiledIn t job.settings bound job.input = some result) ∧
    ∀ bound, ∃ outcome? t',
      Ends (run fileSystem (fun note => StateT.lift (say note)) bound args) t outcome? t' ∧
      (compiledIn t job.settings bound job.input = none → outcome? = none ∧ t' = t) ∧
      ∀ result, compiledIn t job.settings bound job.input = some result →
        ∃ outcome, outcome? = some outcome ∧ OutputOf t job result outcome t' := by
  refine ⟨fun hskip => ?_, fun bound => ?_⟩
  · obtain ⟨enough, result, h⟩ := compiledIn_ends t job.input job.settings.marker
    rw [← hskip] at h
    exact ⟨enough, result, h⟩
  · rw [run, hargs]
    exact ends_runJob say bound hmarker t

/-- A tree with an old output and an empty document. -/
def oldOutput : FileTree :=
  ⟨.ofList [(["out.txt"], .file [0x41]), (["root.json"], .file [0x7b, 0x7d])], []⟩

/-- A run that is to replace the old output. -/
def replaceOutput (input : String) : Option Outcome × FileTree :=
  (run (fileSystem (m := Id)) (fun _ => pure ()) 0
    ["--no-confirm-overwrite", "-o", "out.txt", input]).run oldOutput

/-- What is written about a model with nothing in it. -/
def emptySummary : String :=
  "Provider <unnamed> (-)\nChannels: 0\nTasks: 0\nOpcodes: 0\nEvents: 0\nTemplates: 0\n"

/-- A missing root file leaves the old output there, and the empty document replaces it. -/
theorem run_output_replaced :
    (∃ outcome, replaceOutput "root.xml" = (some outcome, oldOutput) ∧ outcome.code = 1) ∧
    ∃ outcome t', replaceOutput "root.json" = (some outcome, t') ∧ outcome.code = 0 ∧
      t'.read "out.txt" = .ok (Text.Utf8.encode emptySummary) := by
  constructor
  · have hargs : CommandLine.parse ["--no-confirm-overwrite", "-o", "out.txt", "root.xml"] =
        .compile { input := "root.xml", output := some "out.txt", confirmOverwrite := false } := rfl
    obtain ⟨outcome?, t', hends, -, houtput⟩ :=
      (run_output (m := Id) (fun _ => pure ()) hargs (by decide) oldOutput).2 0
    obtain ⟨e, he⟩ : ∃ e, compiledIn oldOutput {} 0 "root.xml" = some (.error e) := ⟨_, rfl⟩
    obtain ⟨outcome, rfl, h⟩ := houtput _ he
    obtain ⟨hcode, -, rfl⟩ := h.failed e rfl
    exact ⟨outcome, run_of_ends hends, hcode⟩
  · have hargs : CommandLine.parse ["--no-confirm-overwrite", "-o", "out.txt", "root.json"] =
        .compile { input := "root.json", output := some "out.txt", confirmOverwrite := false } := rfl
    obtain ⟨outcome?, t', hends, -, houtput⟩ :=
      (run_output (m := Id) (fun _ => pure ()) hargs (by decide) oldOutput).2 0
    have hcompiled : ((compiledIn oldOutput {} 0 "root.json").bind fun result =>
        result.toOption.map fun c => Report.summary c.provider) = some emptySummary := by
      decide +kernel
    obtain ⟨result, hresult, hcompiled⟩ := Option.bind_eq_some_iff.1 hcompiled
    obtain ⟨outcome, rfl, h⟩ := houtput result hresult
    obtain ⟨compiled, hok, hsummary⟩ := Option.map_eq_some_iff.1 hcompiled
    obtain rfl : result = .ok compiled := by
      cases result with
      | error e => cases hok
      | ok c => exact congrArg Except.ok (Option.some.inj hok)
    have hmake : CanMake oldOutput false "out.txt" :=
      ⟨fun _ h => (nomatch h), ⟨["out.txt"], rfl, rfl⟩, nofun⟩
    have hcode : outcome.code = 0 := h.succeeds compiled rfl fun path hpath => by
      cases hpath
      exact hmake
    obtain ⟨compiled', text, hsame, htext, -, hfile⟩ := h.done hcode
    cases hsame
    obtain ⟨-, hread, -⟩ := hfile "out.txt" rfl
    refine ⟨outcome, t', run_of_ends hends, hcode, ?_⟩
    have hended : missingNewline emptySummary = "" := by decide +kernel
    rw [hread, htext, generated, hsummary, hended, String.append_empty]

end Program

end EventSchema
