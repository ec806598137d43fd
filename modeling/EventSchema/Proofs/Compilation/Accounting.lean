import EventSchema.Proofs.Compilation.Trace
import EventSchema.Proofs.Draft.Queue

/-!
# Every file is accounted for

A compilation is what reading its files by themselves gives, one after the other and without a queue
(`readInOrder`): the root file comes first, each file is read as a whole, and the files that are
skipped add nothing. The files that are read and those that are skipped are, together and each as
often as it was named, the root file and the paths that the files name (`compile_accounts`).

One step moves a path from the queue to one of the two lists, and what the step queues is what the
file names (`accounted_of_takes`).
-/

namespace EventSchema.Compilation

variable {load : String → Option Bytes} {settings : Settings} {hash : Bytes → String}

/-! ## Files by themselves -/

/-- What a step makes of a provider, and the paths that it names, when no other files wait. -/
def readAlone (step : Build Unit) (provider : Option Provider) :
    Except Error (Option Provider × List String) :=
  (draftAfter step { provider }).map fun d => (d.provider, d.queue.pending)

/-- Reads a file after others, which have made a provider and named some paths. -/
def readNext (load : String → Option Bytes) (marker : String)
    (before : Option Provider × List String) (path : String) :
    Except Error (Option Provider × List String) :=
  match load path with
  | none => .error (.fileUnavailable path)
  | some contents => do
    let (provider, named) ←
      readAlone (takeText marker path (Text.Utf8.decodeLossy contents)) before.1
    return (provider, before.2 ++ named)

/-- Reads the root file and then others, in the order given: the provider that they make, if any,
and the paths that they name. -/
def readInOrder (load : String → Option Bytes) (marker root : String) (others : List String) :
    Except Error (Option Provider × List String) :=
  match load root with
  | none => .error (.fileUnavailable root)
  | some contents => do
    let first ← readAlone (mergeDocuments root (Text.Utf8.decodeLossy contents)) none
    others.foldlM (readNext load marker) first

/-- A file at the end is read with what the others have made. -/
theorem readInOrder_concat {marker root path : String} {others : List String}
    {before : Option Provider × List String}
    (h : readInOrder load marker root others = .ok before) :
    readInOrder load marker root (others ++ [path]) = readNext load marker before path := by
  unfold readInOrder at h ⊢
  cases hroot : load root with
  | none =>
    rw [hroot] at h
    cases h
  | some c =>
    rw [hroot] at h
    dsimp only at h ⊢
    cases hfirst : readAlone (mergeDocuments root (Text.Utf8.decodeLossy c)) none with
    | error e =>
      rw [hfirst] at h
      cases h
    | ok first =>
      rw [hfirst] at h
      change others.foldlM (readNext load marker) first = .ok before at h
      change (others ++ [path]).foldlM (readNext load marker) first = _
      rw [List.foldlM_append, h]
      change [path].foldlM (readNext load marker) before = _
      rw [List.foldlM_cons]
      cases readNext load marker before path <;> rfl

/-! ## The account of a run -/

/-- The files of a run, read by themselves, make its provider, and the paths that they name are
those that the run has read, skipped or still to take. -/
structure Accounted (load : String → Option Bytes) (marker root : String) (r : Run)
    (others named : List String) : Prop where
  files : r.files = root :: others
  read : readInOrder load marker root others = .ok (r.draft.provider, named)
  paths : (r.files ++ r.skipped ++ r.draft.queue.pending).Perm (root :: named)

theorem accounted_start {marker root : String} {r : Run}
    (h : start hash root (load root) = .ok r) :
    Accounted load marker root r [] r.draft.queue.pending := by
  obtain ⟨c, d, hload, text, rfl⟩ := start_eq_ok_iff.1 h
  refine ⟨rfl, ?_, .refl _⟩
  unfold readInOrder readAlone
  rw [hload]
  dsimp only
  rw [draftAfter_eq_ok.2 ⟨(), text⟩]
  rfl

/-- **One file keeps the account.** -/
theorem accounted_of_takes {root path : String} {r r' : Run} {others named : List String}
    (htakes : Takes load settings hash r path r')
    (h : Accounted load settings.marker root r others named) :
    ∃ others' named', Accounted load settings.marker root r' others' named' := by
  cases htakes with
  | @skip rest c queue contents known =>
    refine ⟨others, named, h.files, h.read, ?_⟩
    have hpaths := h.paths
    rw [queue] at hpaths
    change (r.files ++ (r.skipped ++ [path]) ++ rest).Perm (root :: named)
    rwa [List.append_assoc, List.append_assoc, List.singleton_append, ← List.append_assoc]
  | @read rest c seen d queue contents remembered text =>
    have made : MadeOf (Topic.AliasesIf True)
        (takeText settings.marker path (Text.Utf8.decodeLossy c)) :=
      madeOf_takeText fun _ => trivial
    obtain ⟨front, back, hpending, hframe⟩ := made.frame_of_ok text
    have alone : readAlone (takeText settings.marker path (Text.Utf8.decodeLossy c))
        r.draft.provider = .ok (d.provider, front ++ back) := by
      rw [readAlone, draftAfter_eq_ok.2 ⟨(), hframe []⟩, List.append_nil]
      rfl
    refine ⟨others ++ [path], named ++ (front ++ back), ?_, ?_, ?_⟩
    · change r.files ++ [path] = _
      rw [h.files]
      rfl
    · rw [readInOrder_concat h.read, readNext, contents]
      dsimp only
      rw [alone]
      rfl
    · have hpaths := h.paths
      rw [queue] at hpaths
      change (r.files ++ [path] ++ r.skipped ++ d.queue.pending).Perm _
      rw [hpending, List.perm_iff_count]
      intro file
      have hfile := hpaths.count_eq file
      simp only [List.count_append, List.count_cons, List.count_nil] at hfile ⊢
      omega

/-- Files are skipped only where duplicates are not wanted. -/
theorem skipped_of_takes {path : String} {r r' : Run} (htakes : Takes load settings hash r path r')
    (h : settings.skipDuplicates = false → r.skipped = []) :
    settings.skipDuplicates = false → r'.skipped = [] := by
  intro wanted
  cases htakes with
  | skip queue contents known =>
    rw [(remembered?_eq_none_iff.1 known).1] at wanted
    cases wanted
  | read => exact h wanted

/-- **Every file is accounted for.** A schema that compiles is made by its files alone: the root
file and then the others, each read as a whole and in order, make its provider before that is
numbered.
The files that are read and those that are skipped are the root file and the paths that the files
which are read name, each as often as it is named, and none is skipped if duplicates are wanted. -/
theorem compile_accounts {load : String → Option Bytes} {settings : Settings}
    {hash : Bytes → String} {bound : Nat} {root : String} {c : Compilation}
    (h : compile load settings hash bound root = some (.ok c)) :
    ∃ others provider? named, c.files = root :: others ∧
      readInOrder load settings.marker root others = .ok (provider?, named) ∧
      (c.files ++ c.skipped).Perm (root :: named) ∧
      (settings.skipDuplicates = false → c.skipped = []) ∧
      (provider?.getD {}).numbered = .ok c.provider := by
  obtain ⟨r₀, paths, r, hstart, -, trace, empty, hfinish⟩ := compile_eq_ok_iff.1 h
  obtain ⟨hprovider, hfiles, hskipped⟩ := finish_eq_ok_iff.1 hfinish
  have account : ∃ others named, Accounted load settings.marker root r others named :=
    trace.keeps (P := fun s => ∃ others named, Accounted load settings.marker root s others named)
      (fun _ _ _ htakes ⟨_, _, hs⟩ => accounted_of_takes htakes hs)
      ⟨_, _, accounted_start hstart⟩
  obtain ⟨others, named, account⟩ := account
  have none_skipped : settings.skipDuplicates = false → r.skipped = [] := by
    refine trace.keeps (fun _ _ _ htakes => skipped_of_takes htakes) fun _ => ?_
    obtain ⟨_, _, _, _, rfl⟩ := start_eq_ok_iff.1 hstart
    rfl
  have hpaths := account.paths
  rw [empty, List.append_nil] at hpaths
  rw [hfiles, hskipped]
  exact ⟨others, r.draft.provider, named, account.files, account.read, hpaths, none_skipped,
    hprovider⟩

/-- The files of a schema with two sources that include the same file. -/
def includedTwiceFiles : Table String Bytes := .ofList [
  ("root.json", Text.Utf8.encode "\x7b\"sources\": [\"a.c\", \"b.c\"]\x7d"),
  ("a.c", Text.Utf8.encode "EVT_SCHEMA_INCLUDE(\"c.c\") EVT_SCHEMA_TASK(Read)"),
  ("b.c", Text.Utf8.encode "EVT_SCHEMA_INCLUDE(\"c.c\")"),
  ("c.c", Text.Utf8.encode "EVT_SCHEMA_TASK(Write)")]

/-- What the files compile to. -/
def includedTwice : Compilation where
  provider := { tasks := .ofList [("Read", ⟨"Read", some 1, ∅⟩), ("Write", ⟨"Write", some 2, ∅⟩)] }
  files := ["root.json", "a.c", "c.c", "b.c"]
  skipped := ["c.c"]

/-- The included file is named twice and read once, before the source that waits. -/
theorem compile_accounts_includedTwice :
    compile includedTwiceFiles.find? {} Checksum.fileHash 4 "root.json" =
        some (.ok includedTwice) ∧
      ∃ provider? named,
        readInOrder includedTwiceFiles.find? Source.defaultMarker "root.json"
          ["a.c", "c.c", "b.c"] = .ok (provider?, named) ∧
        ["root.json", "a.c", "c.c", "b.c", "c.c"].Perm ("root.json" :: named) ∧
        (provider?.getD {}).numbered = .ok includedTwice.provider := by
  have hcompile : compile includedTwiceFiles.find? {} Checksum.fileHash 4 "root.json" =
      some (.ok includedTwice) := by decide +kernel
  obtain ⟨others, provider?, named, hfiles, hread, hpaths, -, hprovider⟩ :=
    compile_accounts hcompile
  cases hfiles
  exact ⟨hcompile, provider?, named, hread, hpaths, hprovider⟩

end EventSchema.Compilation
