import EventSchema.Compilation.Drain

/-!
# The files that a run takes

`Takes` is what a run does with the first file of its queue, and `Trace` what it does with several
files, one after the other. A run ends without an error exactly when a trace leads from its start to
an empty queue (`drain_eq_ok_iff`, `compile_eq_ok_iff`), so what every step keeps holds of every
compilation (`Trace.keeps`).
-/

namespace EventSchema.Compilation

variable {load : String → Option Bytes} {settings : Settings} {hash : Bytes → String}

/-! ## Single steps -/

theorem draftAfter_eq_ok {α : Type} {step : Build α} {d e : Draft} :
    draftAfter step d = .ok e ↔ ∃ a, step d = .ok a e := by
  rw [draftAfter]
  cases step d <;> simp

/-- A root file with contents is read as a document. -/
theorem start_some (root : String) (c : Bytes) :
    start hash root (some c) =
      (draftAfter (mergeDocuments root (Text.Utf8.decodeLossy c)) {}).map fun d =>
        { draft := d, seen := (remember? hash ∅ c).getD ∅, files := [root] } := by
  rw [start.eq_def]
  dsimp only
  cases draftAfter (mergeDocuments root (Text.Utf8.decodeLossy c)) {} <;> rfl

/-- A run starts when the root file is there and its documents can be merged. -/
theorem start_eq_ok_iff {root : String} {contents? : Option Bytes} {r : Run} :
    start hash root contents? = .ok r ↔
      ∃ c d, contents? = some c ∧ mergeDocuments root (Text.Utf8.decodeLossy c) {} = .ok () d ∧
        r = { draft := d, seen := (remember? hash ∅ c).getD ∅, files := [root] } := by
  cases contents? with
  | none => simp [start]
  | some c =>
    rw [start_some]
    constructor
    · intro h
      cases hd : draftAfter (mergeDocuments root (Text.Utf8.decodeLossy c)) {} with
      | error e =>
        rw [hd] at h
        cases h
      | ok d =>
        rw [hd] at h
        cases h
        obtain ⟨_, text⟩ := draftAfter_eq_ok.1 hd
        exact ⟨c, d, rfl, text, rfl⟩
    · rintro ⟨_, d, ⟨⟩, text, rfl⟩
      rw [draftAfter_eq_ok.2 ⟨(), text⟩]
      rfl

/-- The next file is the first of the queue, which loses it. -/
theorem nextFile?_eq_some_iff {r s : Run} {path : String} :
    nextFile? r = some (path, s) ↔
      ∃ rest, r.draft.queue.pending = path :: rest ∧
        s = { r with draft := { r.draft with queue := ⟨rest⟩ } } := by
  rw [nextFile?, Option.map_eq_some_iff]
  constructor
  · rintro ⟨⟨next, rest⟩, hpop, ⟨⟩⟩
    exact ⟨rest.pending, WorkQueue.pop?_eq_some_iff.1 hpop, rfl⟩
  · rintro ⟨rest, hpending, rfl⟩
    exact ⟨(path, ⟨rest⟩), WorkQueue.pop?_eq_some_iff.2 hpending, rfl⟩

theorem nextFile?_eq_none_iff {r : Run} :
    nextFile? r = none ↔ r.draft.queue.pending = [] := by
  rw [nextFile?, Option.map_eq_none_iff, WorkQueue.pop?_eq_none_iff, WorkQueue.isEmpty_iff]

theorem remember?_eq_none_iff {seen : Seen} {c : Bytes} :
    remember? hash seen c = none ↔ seen.has hash c = true := by
  rw [← remember?_isNone_iff, Option.isNone_iff_eq_none]

/-- What is remembered once contents have been read, or `none` if the file is to be skipped. -/
def remembered? (settings : Settings) (hash : Bytes → String) (seen : Seen) (contents : Bytes) :
    Option Seen :=
  if settings.skipDuplicates then remember? hash seen contents else some seen

theorem remembered?_eq_none_iff {seen : Seen} {c : Bytes} :
    remembered? settings hash seen c = none ↔
      settings.skipDuplicates = true ∧ seen.has hash c = true := by
  rw [remembered?]
  split
  · next hskip => simp [hskip, remember?_eq_none_iff]
  · next hskip => simp [hskip]

/-- A file with contents is skipped, or read as its text says. -/
theorem takeFile_some (r : Run) (path : String) (c : Bytes) :
    takeFile settings hash r path (some c) =
      match remembered? settings hash r.seen c with
      | none => .ok { r with skipped := r.skipped ++ [path] }
      | some seen =>
        (draftAfter (takeText settings.marker path (Text.Utf8.decodeLossy c)) r.draft).map fun d =>
          { draft := d, seen, files := r.files ++ [path], skipped := r.skipped } := by
  rw [remembered?]
  cases hskip : settings.skipDuplicates with
  | false =>
    simp only [takeFile, hskip]
    cases draftAfter (takeText settings.marker path (Text.Utf8.decodeLossy c)) r.draft <;> rfl
  | true =>
    simp only [takeFile, hskip, if_true]
    cases remember? hash r.seen c with
    | none => rfl
    | some seen =>
      cases draftAfter (takeText settings.marker path (Text.Utf8.decodeLossy c)) r.draft <;> rfl

/-! ## One file -/

/-- What a run does, without an error, with the first file of its queue. -/
inductive Takes (load : String → Option Bytes) (settings : Settings) (hash : Bytes → String) :
    Run → String → Run → Prop
  /-- The contents of the file have been read before. -/
  | skip {r : Run} {path : String} {rest : List String} {c : Bytes}
      (queue : r.draft.queue.pending = path :: rest) (contents : load path = some c)
      (known : remembered? settings hash r.seen c = none) :
      Takes load settings hash r path
        { r with draft := { r.draft with queue := ⟨rest⟩ }, skipped := r.skipped ++ [path] }
  /-- The contents of the file are new, or duplicates are wanted. -/
  | read {r : Run} {path : String} {rest : List String} {c : Bytes} {seen : Seen} {d : Draft}
      (queue : r.draft.queue.pending = path :: rest) (contents : load path = some c)
      (remembered : remembered? settings hash r.seen c = some seen)
      (text : takeText settings.marker path (Text.Utf8.decodeLossy c)
        { r.draft with queue := ⟨rest⟩ } = .ok () d) :
      Takes load settings hash r path
        { draft := d, seen, files := r.files ++ [path], skipped := r.skipped }

/-- The relation is the loop of a run at one file. -/
theorem takes_iff {r r' : Run} {path : String} :
    Takes load settings hash r path r' ↔
      ∃ s, nextFile? r = some (path, s) ∧ takeFile settings hash s path (load path) = .ok r' := by
  constructor
  · intro h
    cases h with
    | skip queue contents known =>
      refine ⟨_, nextFile?_eq_some_iff.2 ⟨_, queue, rfl⟩, ?_⟩
      simp only [contents, takeFile_some, known]
    | read queue contents remembered text =>
      refine ⟨_, nextFile?_eq_some_iff.2 ⟨_, queue, rfl⟩, ?_⟩
      simp only [contents, takeFile_some, remembered, draftAfter_eq_ok.2 ⟨(), text⟩, Except.map]
  · rintro ⟨s, hnext, htake⟩
    obtain ⟨rest, queue, rfl⟩ := nextFile?_eq_some_iff.1 hnext
    cases contents : load path with
    | none =>
      rw [contents] at htake
      cases htake
    | some c =>
      rw [contents, takeFile_some] at htake
      split at htake
      · next known =>
        cases htake
        exact .skip queue contents known
      · next seen remembered =>
        cases hdraft : draftAfter (takeText settings.marker path (Text.Utf8.decodeLossy c))
            { r.draft with queue := ⟨rest⟩ } with
        | error e =>
          rw [hdraft] at htake
          cases htake
        | ok d =>
          rw [hdraft] at htake
          cases htake
          obtain ⟨_, text⟩ := draftAfter_eq_ok.1 hdraft
          exact .read queue contents remembered text

/-! ## File after file -/

/-- The files that a run takes, one after the other. -/
inductive Trace (load : String → Option Bytes) (settings : Settings) (hash : Bytes → String) :
    Run → List String → Run → Prop
  | done (r : Run) : Trace load settings hash r [] r
  | next {r s r' : Run} {path : String} {paths : List String}
      (takes : Takes load settings hash r path s) (trace : Trace load settings hash s paths r') :
      Trace load settings hash r (path :: paths) r'

/-- What every step keeps holds at the end of a trace. -/
theorem Trace.keeps {P : Run → Prop} {r r' : Run} {paths : List String}
    (h : Trace load settings hash r paths r')
    (step : ∀ r path r', Takes load settings hash r path r' → P r → P r') (start : P r) :
    P r' := by
  induction h with
  | done => exact start
  | next takes _ ih => exact ih (step _ _ _ takes start)

/-- An empty queue leads nowhere. -/
theorem exists_trace_iff_of_empty {bound : Nat} {r r' : Run} (empty : r.draft.queue.pending = []) :
    (∃ paths, paths.length ≤ bound ∧ Trace load settings hash r paths r' ∧
      r'.draft.queue.pending = []) ↔ r = r' := by
  constructor
  · rintro ⟨paths, -, trace, -⟩
    cases trace with
    | done => rfl
    | next takes _ =>
      obtain ⟨s, hnext, -⟩ := takes_iff.1 takes
      rw [nextFile?_eq_none_iff.2 empty] at hnext
      cases hnext
  · rintro rfl
    exact ⟨[], Nat.zero_le _, .done r, empty⟩

/-- A run ends without an error, within a bound, when that many files lead to an empty queue. -/
theorem drain_eq_ok_iff {bound : Nat} {r r' : Run} :
    drain (m := Id) load (fun _ => pure ()) settings hash bound r = some (.ok r') ↔
      ∃ paths, paths.length ≤ bound ∧ Trace load settings hash r paths r' ∧
        r'.draft.queue.pending = [] := by
  induction bound generalizing r with
  | zero =>
    cases hnext : nextFile? r with
    | none =>
      rw [drain_of_empty hnext, exists_trace_iff_of_empty (nextFile?_eq_none_iff.1 hnext),
        Option.some.injEq, Except.ok.injEq]
    | some next =>
      rw [drain, hnext]
      constructor
      · rintro ⟨⟩
      · rintro ⟨paths, hlength, trace, empty⟩
        obtain rfl := List.length_eq_zero_iff.1 (Nat.le_zero.1 hlength)
        cases trace
        rw [nextFile?_eq_none_iff.2 empty] at hnext
        cases hnext
  | succ bound ih =>
    cases hnext : nextFile? r with
    | none =>
      rw [drain_of_empty hnext, exists_trace_iff_of_empty (nextFile?_eq_none_iff.1 hnext),
        Option.some.injEq, Except.ok.injEq]
    | some next =>
      obtain ⟨path, s⟩ := next
      rw [drain_of_next hnext]
      constructor
      · intro h
        cases htake : takeFile settings hash s path (load path) with
        | error e =>
          rw [htake] at h
          cases h
        | ok s' =>
          rw [htake] at h
          obtain ⟨paths, hlength, trace, empty⟩ := ih.1 h
          exact ⟨path :: paths, Nat.succ_le_succ hlength,
            .next (takes_iff.2 ⟨s, hnext, htake⟩) trace, empty⟩
      · rintro ⟨paths, hlength, trace, empty⟩
        cases trace with
        | done =>
          rw [nextFile?_eq_none_iff.2 empty] at hnext
          cases hnext
        | next takes trace =>
          obtain ⟨t, hnext', htake⟩ := takes_iff.1 takes
          rw [hnext] at hnext'
          cases hnext'
          rw [htake]
          exact ih.2 ⟨_, Nat.le_of_succ_le_succ hlength, trace, empty⟩

/-- A schema compiles, within a bound, when a trace leads from its root file to an empty queue and
the provider can be numbered. -/
theorem compile_eq_ok_iff {bound : Nat} {root : String} {c : Compilation} :
    compile load settings hash bound root = some (.ok c) ↔
      ∃ r₀ paths r, start hash root (load root) = .ok r₀ ∧ paths.length ≤ bound ∧
        Trace load settings hash r₀ paths r ∧ r.draft.queue.pending = [] ∧ finish r = .ok c := by
  rw [compile_eq]
  cases hstart : start hash root (load root) with
  | error e => simp
  | ok r₀ =>
    rw [Option.map_eq_some_iff]
    constructor
    · rintro ⟨_ | r, hdrain, hfinish⟩
      · cases hfinish
      · obtain ⟨paths, hlength, trace, empty⟩ := drain_eq_ok_iff.1 hdrain
        exact ⟨r₀, paths, r, rfl, hlength, trace, empty, hfinish⟩
    · rintro ⟨_, paths, r, ⟨⟩, hlength, trace, empty, hfinish⟩
      exact ⟨.ok r, drain_eq_ok_iff.2 ⟨paths, hlength, trace, empty⟩, hfinish⟩

/-- A run whose files are all read is shown as it is, with its provider numbered. -/
theorem finish_eq_ok_iff {r : Run} {c : Compilation} :
    finish r = .ok c ↔
      (r.draft.provider.getD {}).numbered = .ok c.provider ∧ c.files = r.files ∧
        c.skipped = r.skipped := by
  rw [finish]
  cases (r.draft.provider.getD {}).numbered with
  | error e => simp [bind, Except.bind]
  | ok p =>
    obtain ⟨provider, files, skipped⟩ := c
    simp only [bind, Except.bind, pure, Except.pure, Except.ok.injEq, Compilation.mk.injEq]
    grind

end EventSchema.Compilation
