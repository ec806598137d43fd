import EventSchema.Proofs.Compilation.Trace
import Mathlib.Data.List.Nodup

/-!
# Duplicates are files with equal contents

Where duplicates are skipped, a file is skipped exactly when it has the contents of the root file or
of a file that was read before it, and no two of the files that are read have the same contents. The
hash decides nothing of this (`compile_skips_equal_contents`): what a run remembers, under any hash,
are the contents of the files that it has read (`Remembers`).
-/

namespace EventSchema.Compilation

variable {load : String → Option Bytes} {hash hash' : Bytes → String} {marker : String}

/-! ## What is remembered -/

/-- What a run remembers are the contents of the files that it has read. -/
def Remembers (load : String → Option Bytes) (hash : Bytes → String) (r : Run) : Prop :=
  ∀ c, r.seen.has hash c = true ↔ ∃ file ∈ r.files, load file = some c

theorem has_empty (hash : Bytes → String) (c : Bytes) : Seen.has hash ∅ c = false := rfl

theorem remembers_start {root : String} {r : Run} (h : start hash root (load root) = .ok r) :
    Remembers load hash r := by
  obtain ⟨c, d, hload, -, rfl⟩ := start_eq_ok_iff.1 h
  have hnew : remember? hash ∅ c ≠ none := by
    rw [Ne, remember?_eq_none_iff, has_empty]
    exact Bool.false_ne_true
  obtain ⟨seen, hseen⟩ := Option.ne_none_iff_exists'.1 hnew
  intro other
  rw [hseen, Option.getD_some, has_of_remember? hseen, has_empty]
  simp [hload, eq_comm]

/-- A file that is read is remembered. -/
theorem remembers_read {r : Run} {path : String} {c : Bytes} {seen : Seen}
    (hr : Remembers load hash r) (contents : load path = some c)
    (remembered : remembered? { marker, skipDuplicates := true } hash r.seen c = some seen)
    (d : Draft) :
    Remembers load hash { draft := d, seen, files := r.files ++ [path], skipped := r.skipped } := by
  intro other
  have hother := hr other
  have hseen : remember? hash r.seen c = some seen := remembered
  simp only [has_of_remember? hseen, Bool.or_eq_true, decide_eq_true_eq, hother, List.mem_append,
    List.mem_singleton]
  constructor
  · rintro (rfl | ⟨file, hfile, hc⟩)
    · exact ⟨path, .inr rfl, contents⟩
    · exact ⟨file, .inl hfile, hc⟩
  · rintro ⟨file, hfile | rfl, hc⟩
    · exact .inr ⟨file, hfile, hc⟩
    · exact .inl (Option.some.inj (hc.symm.trans contents))

theorem remembers_of_takes {r r' : Run} {path : String}
    (h : Takes load { marker, skipDuplicates := true } hash r path r')
    (hr : Remembers load hash r) : Remembers load hash r' := by
  cases h with
  | skip => exact hr
  | read queue contents remembered text => exact remembers_read hr contents remembered _

/-- A file is skipped when one that was read has its contents. -/
theorem remembered?_eq_none_of_remembers {r : Run} (hr : Remembers load hash r) {c : Bytes} :
    remembered? { marker, skipDuplicates := true } hash r.seen c = none ↔
      ∃ file ∈ r.files, load file = some c := by
  rw [remembered?_eq_none_iff, ← hr c]
  exact and_iff_right rfl

theorem not_read_of_remembered {r : Run} (hr : Remembers load hash r) {c : Bytes} {seen : Seen}
    (remembered : remembered? { marker, skipDuplicates := true } hash r.seen c = some seen) :
    ¬ ∃ file ∈ r.files, load file = some c := by
  intro hread
  rw [(remembered?_eq_none_of_remembers hr).2 hread] at remembered
  cases remembered

/-! ## Two hashes -/

/-- Runs that differ only in how they remember what they have read. -/
structure Alike (load : String → Option Bytes) (hash hash' : Bytes → String) (r r' : Run) :
    Prop where
  draft : r'.draft = r.draft
  files : r'.files = r.files
  skipped : r'.skipped = r.skipped
  remembers : Remembers load hash r
  remembers' : Remembers load hash' r'

theorem finish_of_alike {r r' : Run} (h : Alike load hash hash' r r') : finish r' = finish r := by
  rw [finish, finish, h.draft, h.files, h.skipped]

/-- Outcomes of two runs that stay alike or have the same error. -/
inductive AlikeOutcomes (load : String → Option Bytes) (hash hash' : Bytes → String) :
    Except Error Run → Except Error Run → Prop
  | error (e : Error) : AlikeOutcomes load hash hash' (.error e) (.error e)
  | ok {r r' : Run} (h : Alike load hash hash' r r') :
      AlikeOutcomes load hash hash' (.ok r) (.ok r')

theorem start_alike (root : String) :
    AlikeOutcomes load hash hash' (start hash root (load root)) (start hash' root (load root)) := by
  cases contents : load root with
  | none => exact .error _
  | some c =>
    rw [start_some, start_some]
    cases hd : draftAfter (mergeDocuments root (Text.Utf8.decodeLossy c)) {} with
    | error e => exact .error e
    | ok d =>
      obtain ⟨_, text⟩ := draftAfter_eq_ok.1 hd
      have hstart (hash : Bytes → String) : Remembers load hash
          { draft := d, seen := (remember? hash ∅ c).getD ∅, files := [root] } :=
        remembers_start (start_eq_ok_iff.2 ⟨c, d, contents, text, rfl⟩)
      exact .ok ⟨rfl, rfl, rfl, hstart hash, hstart hash'⟩

/-- Alike runs do the same with a file. -/
theorem takeFile_alike {r r' : Run} (h : Alike load hash hash' r r') (path : String) :
    AlikeOutcomes load hash hash'
      (takeFile { marker, skipDuplicates := true } hash r path (load path))
      (takeFile { marker, skipDuplicates := true } hash' r' path (load path)) := by
  cases contents : load path with
  | none => exact .error _
  | some c =>
    rw [takeFile_some, takeFile_some]
    have hknown : remembered? { marker, skipDuplicates := true } hash r.seen c = none ↔
        ∃ file ∈ r.files, load file = some c := remembered?_eq_none_of_remembers h.remembers
    have hknown' : remembered? { marker, skipDuplicates := true } hash' r'.seen c = none ↔
        ∃ file ∈ r'.files, load file = some c := remembered?_eq_none_of_remembers h.remembers'
    rw [h.files, ← hknown] at hknown'
    cases hseen : remembered? { marker, skipDuplicates := true } hash r.seen c with
    | none =>
      rw [hknown'.2 hseen, h.skipped]
      exact .ok { h with skipped := rfl }
    | some seen =>
      have hnew : remembered? { marker, skipDuplicates := true } hash' r'.seen c ≠ none := by
        rw [Ne, hknown', hseen]
        exact Option.some_ne_none seen
      obtain ⟨seen', hseen'⟩ := Option.ne_none_iff_exists'.1 hnew
      rw [hseen', h.draft]
      cases draftAfter (takeText marker path (Text.Utf8.decodeLossy c)) r.draft with
      | error e => exact .error e
      | ok d =>
        exact .ok {
          draft := rfl
          files := by rw [h.files]
          skipped := h.skipped
          remembers := remembers_read h.remembers contents hseen d
          remembers' := remembers_read h.remembers' contents hseen' d }

theorem nextFile?_alike {r r' s : Run} (h : Alike load hash hash' r r') {path : String}
    (hnext : nextFile? r = some (path, s)) :
    ∃ s', nextFile? r' = some (path, s') ∧ Alike load hash hash' s s' := by
  obtain ⟨rest, queue, rfl⟩ := nextFile?_eq_some_iff.1 hnext
  rw [← h.draft] at queue
  exact ⟨_, nextFile?_eq_some_iff.2 ⟨rest, queue, rfl⟩, { h with draft := by rw [h.draft] }⟩

/-- Alike runs take the same files and have the same end. -/
theorem drain_alike {r r' : Run} (h : Alike load hash hash' r r') (bound : Nat) :
    (drain (m := Id) load (fun _ => pure ()) { marker, skipDuplicates := true } hash bound r).map
        (·.bind finish) =
      (drain (m := Id) load (fun _ => pure ()) { marker, skipDuplicates := true } hash' bound
        r').map (·.bind finish) := by
  induction bound generalizing r r' with
  | zero =>
    cases hnext : nextFile? r with
    | none =>
      have hnext' : nextFile? r' = none := by
        rw [nextFile?_eq_none_iff, h.draft, ← nextFile?_eq_none_iff, hnext]
      rw [drain_of_empty hnext, drain_of_empty hnext', Option.map_some, Option.map_some]
      exact congrArg some (finish_of_alike h).symm
    | some next =>
      obtain ⟨s', hnext', -⟩ := nextFile?_alike h hnext
      rw [drain, hnext, drain, hnext']
  | succ bound ih =>
    cases hnext : nextFile? r with
    | none =>
      have hnext' : nextFile? r' = none := by
        rw [nextFile?_eq_none_iff, h.draft, ← nextFile?_eq_none_iff, hnext]
      rw [drain_of_empty hnext, drain_of_empty hnext', Option.map_some, Option.map_some]
      exact congrArg some (finish_of_alike h).symm
    | some next =>
      obtain ⟨path, s⟩ := next
      obtain ⟨s', hnext', hs⟩ := nextFile?_alike h hnext
      rw [drain_of_next hnext, drain_of_next hnext']
      generalize htake : takeFile _ hash s path (load path) = result
      generalize htake' : takeFile _ hash' s' path (load path) = result'
      have halike : AlikeOutcomes load hash hash' result result' :=
        htake ▸ htake' ▸ takeFile_alike hs path
      cases halike with
      | error e => rfl
      | ok hr => exact ih hr

/-! ## Whole runs -/

/-- No two files that were read have the same contents. -/
theorem nodup_of_takes {r r' : Run} {path : String}
    (h : Takes load { marker, skipDuplicates := true } hash r path r')
    (hr : Remembers load hash r) (hnodup : (r.files.map load).Nodup) :
    (r'.files.map load).Nodup := by
  cases h with
  | skip => exact hnodup
  | @read rest c seen d queue contents remembered text =>
    have hnew := not_read_of_remembered hr remembered
    rw [List.map_append, List.map_singleton, contents, ← List.concat_eq_append, List.nodup_concat]
    exact ⟨fun hmem => hnew (List.mem_map.1 hmem), hnodup⟩

/-- A file is skipped, or it is read, as its contents have been read before or not. -/
theorem skipped_iff_of_takes {r r' : Run} {path : String}
    (h : Takes load { marker, skipDuplicates := true } hash r path r')
    (hr : Remembers load hash r) :
    (r'.skipped = r.skipped ++ [path] ↔ ∃ file ∈ r.files, load file = load path) ∧
      (r'.files = r.files ++ [path] ↔ ¬ ∃ file ∈ r.files, load file = load path) := by
  cases h with
  | @skip rest c queue contents known =>
    have hread := (remembered?_eq_none_of_remembers hr).1 known
    rw [contents]
    exact ⟨iff_of_true rfl hread, iff_of_false (by simp) (not_not_intro hread)⟩
  | @read rest c seen d queue contents remembered text =>
    have hnew := not_read_of_remembered hr remembered
    rw [contents]
    exact ⟨iff_of_false (by simp) hnew, iff_of_true rfl hnew⟩

/-- **Only contents decide what a duplicate is.** Where duplicates are skipped, any two hashes give
the same result. The files that are read have different contents, and a file that the run takes from
its queue is skipped exactly when it has the contents of the root file or of a file that was read
before. -/
theorem compile_skips_equal_contents (load : String → Option Bytes) (marker : String)
    (hash hash' : Bytes → String) (bound : Nat) (root : String) :
    compile load { marker, skipDuplicates := true } hash bound root =
        compile load { marker, skipDuplicates := true } hash' bound root ∧
      ∀ c, compile load { marker, skipDuplicates := true } hash bound root = some (.ok c) →
        (c.files.map load).Nodup ∧
        ∃ r₀ paths r, start hash root (load root) = .ok r₀ ∧
          Trace load { marker, skipDuplicates := true } hash r₀ paths r ∧
          r.draft.queue.pending = [] ∧ finish r = .ok c ∧
          ∀ before s path s', Trace load { marker, skipDuplicates := true } hash r₀ before s →
            Takes load { marker, skipDuplicates := true } hash s path s' →
              (s'.skipped = s.skipped ++ [path] ↔ ∃ file ∈ s.files, load file = load path) ∧
              (s'.files = s.files ++ [path] ↔ ¬ ∃ file ∈ s.files, load file = load path) := by
  constructor
  · rw [compile_eq, compile_eq]
    generalize hstart : start hash root (load root) = result
    generalize hstart' : start hash' root (load root) = result'
    have halike : AlikeOutcomes load hash hash' result result' :=
      hstart ▸ hstart' ▸ start_alike root
    cases halike with
    | error e => rfl
    | ok h => exact drain_alike h bound
  · intro c h
    obtain ⟨r₀, paths, r, hstart, -, trace, empty, hfinish⟩ := compile_eq_ok_iff.1 h
    have remembers {before : List String} {s : Run}
        (htrace : Trace load { marker, skipDuplicates := true } hash r₀ before s) :
        Remembers load hash s :=
      htrace.keeps (fun _ _ _ => remembers_of_takes) (remembers_start hstart)
    refine ⟨?_, r₀, paths, r, hstart, trace, empty, hfinish, fun before s path s' htrace htakes =>
      skipped_iff_of_takes htakes (remembers htrace)⟩
    rw [(finish_eq_ok_iff.1 hfinish).2.1]
    have hkeeps : Remembers load hash r ∧ (r.files.map load).Nodup :=
      trace.keeps (P := fun s => Remembers load hash s ∧ (s.files.map load).Nodup)
        (fun _ _ _ htakes hs => ⟨remembers_of_takes htakes hs.1, nodup_of_takes htakes hs.1 hs.2⟩)
        ⟨remembers_start hstart, by
          obtain ⟨_, _, _, _, rfl⟩ := start_eq_ok_iff.1 hstart
          exact List.nodup_singleton _⟩
    exact hkeeps.2

/-- The contents of a root file that names a copy of itself and two sources. -/
def copiedRoot : Bytes :=
  Text.Utf8.encode "\x7b\"sources\": [\"copy.json\", \"a.c\", \"b.c\"]\x7d"

/-- The files of a schema with two equal documents. -/
def copiedRootFiles : Table String Bytes := .ofList [
  ("root.json", copiedRoot),
  ("copy.json", copiedRoot),
  ("a.c", Text.Utf8.encode "EVT_SCHEMA_TASK(Read)"),
  ("b.c", Text.Utf8.encode "EVT_SCHEMA_TASK(Write)")]

/-- What the files compile to. -/
def copiedRootCompiled : Compilation where
  provider := { tasks := .ofList [("Read", ⟨"Read", some 1, ∅⟩), ("Write", ⟨"Write", some 2, ∅⟩)] }
  files := ["root.json", "a.c", "b.c"]
  skipped := ["copy.json"]

/-- The sources are told apart although they share a hash, and the copy is skipped. -/
theorem compile_skips_equal_contents_copiedRoot :
    compile copiedRootFiles.find? {} (fun _ => "same") 3 "root.json" =
        some (.ok copiedRootCompiled) ∧
      compile copiedRootFiles.find? {} Checksum.fileHash 3 "root.json" =
        some (.ok copiedRootCompiled) ∧
      (copiedRootCompiled.files.map copiedRootFiles.find?).Nodup ∧
      ∃ r₀ r, start (fun _ => "same") "root.json" (copiedRootFiles.find? "root.json") = .ok r₀ ∧
        Takes copiedRootFiles.find? {} (fun _ => "same") r₀ "copy.json" r ∧
        r.skipped = r₀.skipped ++ ["copy.json"] := by
  have hcompile : compile copiedRootFiles.find? {} (fun _ => "same") 3 "root.json" =
      some (.ok copiedRootCompiled) := by decide +kernel
  have hroot : copiedRootFiles.find? "root.json" = some copiedRoot := by decide +kernel
  have hcopy : copiedRootFiles.find? "copy.json" = some copiedRoot := by decide +kernel
  have hdraft : draftAfter (mergeDocuments "root.json" (Text.Utf8.decodeLossy copiedRoot)) {} =
      .ok { queue := ⟨["copy.json", "a.c", "b.c"]⟩ } := by decide +kernel
  have hknown : remembered? {} (fun _ => "same")
      ((remember? (fun _ => "same") ∅ copiedRoot).getD ∅) copiedRoot = none := by decide +kernel
  obtain ⟨hsame, hruns⟩ := compile_skips_equal_contents copiedRootFiles.find? Source.defaultMarker
    (fun _ => "same") Checksum.fileHash 3 "root.json"
  obtain ⟨hnodup, r₀, _, _, hstart, -, -, -, hsteps⟩ := hruns _ hcompile
  have hr₀ := hstart
  rw [hroot, start_some, hdraft] at hr₀
  cases hr₀
  have htakes : Takes copiedRootFiles.find? {} (fun _ => "same")
      ⟨⟨none, ⟨["copy.json", "a.c", "b.c"]⟩⟩, (remember? (fun _ => "same") ∅ copiedRoot).getD ∅,
        ["root.json"], []⟩ "copy.json" _ := .skip rfl hcopy hknown
  have hskipped := (hsteps [] _ _ _ (.done _) htakes).1.2
    ⟨"root.json", List.mem_singleton_self _, hroot.trans hcopy.symm⟩
  exact ⟨hcompile, hsame ▸ hcompile, hnodup, _, _, hstart, htakes, hskipped⟩

end EventSchema.Compilation
