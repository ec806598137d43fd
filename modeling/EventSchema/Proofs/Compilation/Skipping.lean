import EventSchema.Proofs.Compilation.Contents
import EventSchema.Proofs.Compilation.Duplicates
import EventSchema.Proofs.Compilation.Pruning
import EventSchema.Proofs.Draft.Queue

/-!
# Skipping duplicates only saves work

Without aliases, and where a file is read as its contents alone say, a schema that compiles with
every file read also compiles, to the same provider, when files with known contents are skipped
(`compile_skips_alike`).

Reading known contents once more defines nothing (`MadeOf.repeats`), but it queues the files that
they name again, so the two runs have different queues. That this does no harm rests on two facts
about the run that reads everything (`Settled`): when known contents come up again, all files that
they include have been read, since contents that include themselves would be read forever
(`acc_of_trace`); and all their sources have been read or stand in the queue already. So the other
queue is always the same without some files whose contents are known when their turn comes
(`Follows`).
-/

namespace EventSchema.Compilation

open Relation (TransGen)

variable {load : String → Option Bytes} {marker : String} {hash : Bytes → String}

/-! ## The run that reads everything -/

/-- What a run does that reads the contents of the next file, whatever its path. -/
structure Reads (load : String → Option Bytes) (marker : String) (r : Run) (path : String)
    (rest : List String) (c : Bytes) (s : Run) : Prop where
  queue : r.draft.queue.pending = path :: rest
  contents : load path = some c
  noAlias : NoAlias marker c
  text : takeContents marker c { r.draft with queue := ⟨rest⟩ } = .ok () s.draft
  files : s.files = r.files ++ [path]

/-- A run that skips nothing reads every file. -/
theorem exists_reads_of_takes {r s : Run} {path : String}
    (h : Takes load { marker, skipDuplicates := false } hash r path s)
    (plain : Plain load marker path) : ∃ rest c, Reads load marker r path rest c s := by
  cases h with
  | skip _ _ hknown => cases (remembered?_eq_none_iff.1 hknown).1
  | @read rest c _ _ queue contents _ text =>
    exact ⟨rest, c, {
      queue
      contents
      noAlias := noAlias_of_plain plain contents
      text := (takeText_eq_ok_iff (plain.json c contents)).1 text
      files := rfl }⟩

/-- What reading contents leaves behind. -/
theorem Reads.leaves (n : Naming marker) {r s : Run} {path : String} {rest : List String}
    {c : Bytes} (h : Reads load marker r path rest c s) (aliasFree : r.draft.AliasFree) :
    s.draft.AliasFree ∧ r.draft.Grown s.draft ∧
      s.draft.queue.pending = n.front (load path) ++ rest ++ n.back (load path) := by
  rw [h.contents]
  exact n.read h.noAlias aliasFree h.text

theorem not_transGen_of_acc {α : Type} {R : α → α → Prop} {x : α} (h : Acc (fun y x => R x y) x) :
    ¬ TransGen R x x := by
  induction h with
  | intro x _ ih =>
    intro hcycle
    obtain ⟨y, hxy, hyx⟩ := TransGen.head'_iff.1 hcycle
    exact ih y hxy (TransGen.tail' hyx hxy)

/-- Where a run that skips nothing comes to an end, the contents that wait do not include each other
forever. -/
theorem acc_of_trace (n : Naming marker) {r r' : Run} {paths : List String}
    (trace : Trace load { marker, skipDuplicates := false } hash r paths r')
    (empty : r'.draft.queue.pending = []) (plain : ∀ path ∈ paths, Plain load marker path)
    (aliasFree : r.draft.AliasFree) :
    ∀ path ∈ r.draft.queue.pending, Acc (fun y x => n.Includes load x y) (load path) := by
  induction trace with
  | done r =>
    rw [empty]
    exact fun _ hpath => (List.not_mem_nil hpath).elim
  | @next r s r' path paths takes _ ih =>
    obtain ⟨rest, c, reads⟩ := exists_reads_of_takes takes (plain path List.mem_cons_self)
    obtain ⟨aliasFree', -, pending⟩ := reads.leaves n aliasFree
    have hacc := ih empty (fun other hother => plain other (List.mem_cons_of_mem _ hother))
      aliasFree'
    rw [pending] at hacc
    rw [reads.queue]
    intro other hother
    rcases List.mem_cons.1 hother with rfl | hrest
    · refine ⟨_, ?_⟩
      rintro _ ⟨included, hincluded, rfl⟩
      exact hacc included (by simp [hincluded])
    · exact hacc other (by simp [hrest])

/-- What known contents include is known or waits, and nothing waits before it but what they
include, at any depth. So they come up again only after all that they include, unless they include
themselves. -/
def IncludesFirst (load : String → Option Bytes) (n : Naming marker) (files queue : List String) :
    Prop :=
  ∀ file ∈ files, ∀ path ∈ n.front (load file), load path ∈ known load files ∨
    Before load (TransGen (n.Includes load) (load file)) (load path) queue

/-- The sources of known contents are known or wait. -/
def SourcesWait (load : String → Option Bytes) (n : Naming marker) (files queue : List String) :
    Prop :=
  ∀ file ∈ files, ∀ path ∈ n.back (load file), load path ∈ known load files ∨
    ∃ other ∈ queue, load other = load path

section

variable {n : Naming marker} {files rest : List String} {path : String}

theorem includesFirst_read (h : IncludesFirst load n files (path :: rest)) :
    IncludesFirst load n (files ++ [path])
      (n.front (load path) ++ rest ++ n.back (load path)) := by
  intro file hfile other hother
  rw [known_concat]
  have included : ∀ p ∈ n.front (load path), n.Includes load (load path) (load p) :=
    fun p hp => ⟨p, hp, rfl⟩
  rcases List.mem_append.1 hfile with hold | hnew
  · rcases h file hold other hother with hknown | hbefore
    · exact .inl (.inr hknown)
    · cases hbefore with
      | here heq => exact .inl (.inl heq.symm)
      | there hbelow hbefore =>
        exact .inr ((hbefore.prepend fun p hp => hbelow.tail (included p hp)).append _)
  · obtain rfl := List.mem_singleton.1 hnew
    exact .inr (((Before.of_mem (fun p hp => .single (included p hp)) hother).append _).append _)

theorem sourcesWait_read (h : SourcesWait load n files (path :: rest)) :
    SourcesWait load n (files ++ [path])
      (n.front (load path) ++ rest ++ n.back (load path)) := by
  intro file hfile other hother
  rw [known_concat]
  rcases List.mem_append.1 hfile with hold | hnew
  · rcases h file hold other hother with hknown | ⟨waiting, hwaiting, heq⟩
    · exact .inl (.inr hknown)
    · rcases List.mem_cons.1 hwaiting with rfl | hrest
      · exact .inl (.inl heq.symm)
      · exact .inr ⟨waiting, by simp [hrest], heq⟩
  · obtain rfl := List.mem_singleton.1 hnew
    exact .inr ⟨other, by simp [hother], rfl⟩

/-- When known contents come up again, all that they include is known. -/
theorem known_of_includesFirst (h : IncludesFirst load n files (path :: rest))
    (acyclic : ¬ TransGen (n.Includes load) (load path) (load path))
    (hknown : load path ∈ known load files) :
    ∀ p ∈ n.front (load path), load p ∈ known load files := by
  obtain ⟨file, hfile, hsame⟩ := hknown
  intro p hp
  rcases h file hfile p (hsame ▸ hp) with hknown | hbefore
  · exact hknown
  · cases hbefore with
    | here heq => exact ⟨file, hfile, hsame.trans heq⟩
    | there hbelow => exact (acyclic (hsame ▸ hbelow)).elim

theorem known_or_waits_of_sourcesWait (h : SourcesWait load n files (path :: rest))
    (hknown : load path ∈ known load files) :
    ∀ p ∈ n.back (load path), load p ∈ known load files ∨ ∃ other ∈ rest, load other = load p := by
  obtain ⟨file, hfile, hsame⟩ := hknown
  intro p hp
  rcases h file hfile p (hsame ▸ hp) with hknown | ⟨other, hother, heq⟩
  · exact .inl hknown
  · rcases List.mem_cons.1 hother with rfl | hrest
    · exact .inl ⟨file, hfile, hsame.trans heq⟩
    · exact .inr ⟨other, hrest, heq⟩

end

/-- What holds between two files of a run that skips nothing. -/
structure Settled (load : String → Option Bytes) (n : Naming marker) (r : Run) : Prop where
  aliasFree : r.draft.AliasFree
  /-- Nothing has been taken back since a file was read. -/
  grown : ∀ file ∈ r.files, ∀ c, load file = some c →
    ∃ d₀ d₁, d₀.AliasFree ∧ takeContents marker c d₀ = .ok () d₁ ∧ d₁.Grown r.draft
  includes : IncludesFirst load n r.files r.draft.queue.pending
  sources : SourcesWait load n r.files r.draft.queue.pending

section

variable {n : Naming marker} {rest : List String} {path : String} {c : Bytes} {r s : Run}

/-- **Reading one more file keeps a run settled.** -/
theorem settled_of_reads (hr : Settled load n r) (h : Reads load marker r path rest c s) :
    Settled load n s := by
  obtain ⟨aliasFree, grown, pending⟩ := h.leaves n hr.aliasFree
  refine ⟨aliasFree, ?_, ?_, ?_⟩
  · intro file hfile c' hc'
    rw [h.files] at hfile
    rcases List.mem_append.1 hfile with hold | hnew
    · obtain ⟨d₀, d₁, hd₀, hread, hgrown⟩ := hr.grown file hold c' hc'
      exact ⟨d₀, d₁, hd₀, hread, trans_of Draft.Grown hgrown grown⟩
    · obtain rfl := List.mem_singleton.1 hnew
      rw [h.contents] at hc'
      cases hc'
      exact ⟨{ r.draft with queue := ⟨rest⟩ }, s.draft, hr.aliasFree, h.text,
        refl_of Draft.Grown s.draft⟩
  · rw [h.files, pending]
    exact includesFirst_read (h.queue ▸ hr.includes)
  · rw [h.files, pending]
    exact sourcesWait_read (h.queue ▸ hr.sources)

/-- **Known contents say nothing new.** -/
theorem provider_of_reads_known (hr : Settled load n r) (h : Reads load marker r path rest c s)
    (hknown : load path ∈ known load r.files) : s.draft.provider = r.draft.provider := by
  obtain ⟨file, hfile, hsame⟩ := hknown
  obtain ⟨d₀, d₁, hd₀, hread, hgrown⟩ := hr.grown file hfile c (hsame.trans h.contents)
  exact (madeOf_takeContents h.noAlias).repeats (d := { r.draft with queue := ⟨rest⟩ }) hd₀
    hr.aliasFree hread hgrown h.text

end

/-! ## The run that skips -/

/-- A run that skips duplicates, beside the one that reads everything. -/
structure Follows (load : String → Option Bytes) (hash : Bytes → String) (r r' : Run) : Prop where
  provider : r'.draft.provider = r.draft.provider
  knows : known load r'.files = known load r.files
  remembers : Remembers load hash r'
  queue : Pruned load (known load r.files) r.draft.queue.pending r'.draft.queue.pending

section

variable {n : Naming marker} {rest rest' : List String} {path : String} {c : Bytes} {r r' s : Run}

/-- Nothing has to be done where known contents are read, but for the file to leave the queue. -/
theorem follows_known (hr : Settled load n r) (hfollows : Follows load hash r r')
    (h : Reads load marker r path rest c s)
    (acyclic : ¬ TransGen (n.Includes load) (load path) (load path))
    (hknown : load path ∈ known load r.files)
    (hrest : Pruned load (known load r.files) rest rest') (skipped : List String) :
    Follows load hash s { r' with draft := { r'.draft with queue := ⟨rest'⟩ }, skipped } := by
  obtain ⟨-, -, pending⟩ := h.leaves n hr.aliasFree
  have front := known_of_includesFirst (h.queue ▸ hr.includes) acyclic hknown
  have back := known_or_waits_of_sourcesWait (h.queue ▸ hr.sources) hknown
  have same : known load s.files = known load r.files := by
    rw [h.files, known_concat, Set.insert_eq_of_mem hknown]
  refine ⟨?_, hfollows.knows.trans same.symm, hfollows.remembers, ?_⟩
  · rw [provider_of_reads_known hr h hknown]
    exact hfollows.provider
  · rw [same, pending, List.append_assoc]
    exact (hrest.append_known back).prepend_known front

/-- Where new contents are read, they are read in both runs. -/
theorem follows_new (hr : Settled load n r) (hfollows : Follows load hash r r')
    (h : Reads load marker r path rest c s) (plain : Plain load marker path)
    (hnew : load path ∉ known load r.files)
    (hqueue : r'.draft.queue.pending = path :: rest')
    (hrest : Pruned load (insert (load path) (known load r.files)) rest rest') :
    ∃ s', Takes load { marker, skipDuplicates := true } hash r' path s' ∧
      Follows load hash s s' := by
  have fresh : remembered? { marker, skipDuplicates := true } hash r'.seen c ≠ none := by
    rw [Ne, remembered?_eq_none_of_remembers hfollows.remembers, ← h.contents]
    exact fun hread => hnew (hfollows.knows.subset hread)
  obtain ⟨seen, hseen⟩ := Option.ne_none_iff_exists'.1 fresh
  -- the providers are the same, and so the contents are read alike whatever waits
  obtain ⟨front, back, -, hframe⟩ := (madeOf_takeContents h.noAlias).frame_of_ok h.text
  have text := hframe rest'
  have alike : ({ r'.draft with queue := ⟨rest'⟩ } : Draft) = { r.draft with queue := ⟨rest'⟩ } :=
    congrArg (Draft.mk · ⟨rest'⟩) hfollows.provider
  have text' : takeText marker path (Text.Utf8.decodeLossy c)
      { r'.draft with queue := ⟨rest'⟩ } =
        .ok () { s.draft with queue := ⟨front ++ rest' ++ back⟩ } := by
    rw [takeText_eq_ok_iff (plain.json c h.contents), alike]
    exact text
  have known_next : known load s.files = insert (load path) (known load r.files) := by
    rw [h.files, known_concat]
  obtain ⟨-, -, pending⟩ := h.leaves n hr.aliasFree
  obtain ⟨-, -, pending'⟩ := n.read h.noAlias hr.aliasFree text
  refine ⟨_, .read hqueue h.contents hseen text', {
    provider := rfl
    knows := by rw [known_concat, known_next, hfollows.knows]
    remembers := remembers_read hfollows.remembers h.contents hseen _
    queue := ?_ }⟩
  rw [known_next, pending, pending', ← h.contents]
  exact (hrest.prepend _).append _

/-- **The run that skips takes the same file, or none.** -/
theorem follows_of_reads (hr : Settled load n r) (hfollows : Follows load hash r r')
    (h : Reads load marker r path rest c s)
    (acyclic : ¬ TransGen (n.Includes load) (load path) (load path))
    (plain : Plain load marker path) :
    Follows load hash s r' ∨
      ∃ s', Takes load { marker, skipDuplicates := true } hash r' path s' ∧
        Follows load hash s s' := by
  have hpruned := hfollows.queue
  rw [h.queue] at hpruned
  generalize hqueue : r'.draft.queue.pending = queue' at hpruned
  cases hpruned with
  | drop hknown hrest =>
    rw [← hqueue] at hrest
    exact .inl (follows_known hr hfollows h acyclic hknown hrest r'.skipped)
  | @keep _ _ _ rest' hrest =>
    right
    by_cases hknown : load path ∈ known load r.files
    · have seen : remembered? { marker, skipDuplicates := true } hash r'.seen c = none := by
        rw [remembered?_eq_none_of_remembers hfollows.remembers, ← h.contents]
        exact hfollows.knows.symm.subset hknown
      rw [Set.insert_eq_of_mem hknown] at hrest
      exact ⟨_, .skip hqueue h.contents seen, follows_known hr hfollows h acyclic hknown hrest _⟩
    · exact follows_new hr hfollows h plain hknown hqueue hrest

/-- **To the end of the queue.** A run that reads everything is followed by one that skips and takes
no more files. -/
theorem exists_trace_of_follows (n : Naming marker) {r r' s : Run} {paths : List String}
    (trace : Trace load { marker, skipDuplicates := false } hash r paths s)
    (empty : s.draft.queue.pending = []) (plain : ∀ path ∈ paths, Plain load marker path)
    (hr : Settled load n r) (hfollows : Follows load hash r r') :
    ∃ paths' s', paths'.length ≤ paths.length ∧
      Trace load { marker, skipDuplicates := true } hash r' paths' s' ∧
      s'.draft.queue.pending = [] ∧ s'.draft.provider = s.draft.provider := by
  induction trace generalizing r' with
  | done r =>
    have hqueue := hfollows.queue
    rw [empty] at hqueue
    exact ⟨[], r', Nat.le_refl _, .done r', hqueue.eq_nil, hfollows.provider⟩
  | @next r m s path paths takes trace ih =>
    have plain_path := plain path List.mem_cons_self
    have plain_paths : ∀ other ∈ paths, Plain load marker other :=
      fun other hother => plain other (List.mem_cons_of_mem _ hother)
    obtain ⟨rest, c, reads⟩ := exists_reads_of_takes takes plain_path
    have acyclic : ¬ TransGen (n.Includes load) (load path) (load path) :=
      not_transGen_of_acc (acc_of_trace n (.next takes trace) empty plain hr.aliasFree path
        (reads.queue ▸ List.mem_cons_self))
    have hm := settled_of_reads hr reads
    rcases follows_of_reads hr hfollows reads acyclic plain_path with h | ⟨m', takes', h⟩
    · obtain ⟨paths', s', hlength, trace', hend⟩ := ih empty plain_paths hm h
      exact ⟨paths', s', Nat.le_succ_of_le hlength, trace', hend⟩
    · obtain ⟨paths', s', hlength, trace', hend⟩ := ih empty plain_paths hm h
      exact ⟨path :: paths', s', Nat.succ_le_succ hlength, .next takes' trace', hend⟩

end

/-! ## Whole runs -/

theorem files_of_trace {r s : Run} {paths : List String}
    (trace : Trace load { marker, skipDuplicates := false } hash r paths s) :
    s.files = r.files ++ paths := by
  induction trace with
  | done r => exact (List.append_nil _).symm
  | @next r m s path paths takes _ ih =>
    cases takes with
    | skip _ _ hknown => cases (remembered?_eq_none_iff.1 hknown).1
    | read => rw [ih, List.append_assoc, List.singleton_append]

/-- A run is settled after a root file of JSON documents. -/
theorem settled_start (n : Naming marker) {root : String} {r : Run}
    (hstart : start hash root (load root) = .ok r)
    (json : ∀ c, load root = some c → isJson (Text.Utf8.decodeLossy c) = true)
    (plain : Plain load marker root) : Settled load n r := by
  obtain ⟨c, d, contents, text, rfl⟩ := start_eq_ok_iff.1 hstart
  have hjson := json c contents
  have htext : takeText marker root (Text.Utf8.decodeLossy c) {} = .ok () d := by
    rw [takeText, isDocumentFile_eq_isJson fun _ => hjson, if_pos hjson]
    exact text
  have initial : Settled load n { draft := { queue := ⟨[root]⟩ } } :=
    ⟨rfl, fun _ h => (List.not_mem_nil h).elim, fun _ h => (List.not_mem_nil h).elim,
      fun _ h => (List.not_mem_nil h).elim⟩
  exact settled_of_reads initial {
    queue := rfl
    contents
    noAlias := noAlias_of_plain plain contents
    text := (takeText_eq_ok_iff fun _ => hjson).1 htext
    files := rfl }

/-- **Skipping duplicates only saves work.** If the root file is JSON, no other file is called JSON
without being so, and no file defines an alias, then a schema that compiles with every file read
compiles to the same provider when duplicates are skipped. -/
theorem compile_skips_alike {load : String → Option Bytes} {marker : String}
    {hash : Bytes → String} {bound : Nat} {root : String} {c : Compilation}
    (h : compile load { marker, skipDuplicates := false } hash bound root = some (.ok c))
    (rootJson : ∀ contents, load root = some contents →
      isJson (Text.Utf8.decodeLossy contents) = true)
    (json : ∀ path ∈ c.files, ∀ contents, load path = some contents →
      hasJsonSuffix path = true → isJson (Text.Utf8.decodeLossy contents) = true)
    (noAlias : ∀ path ∈ c.files, ∀ contents, load path = some contents →
      ¬ DefinesAlias marker path (Text.Utf8.decodeLossy contents)) :
    ∃ c', compile load { marker, skipDuplicates := true } hash bound root = some (.ok c') ∧
      c'.provider = c.provider := by
  obtain ⟨r₀, paths, r, hstart, hlength, trace, empty, hfinish⟩ := compile_eq_ok_iff.1 h
  obtain ⟨hprovider, hfiles, -⟩ := finish_eq_ok_iff.1 hfinish
  have plain (path : String) (hpath : path ∈ c.files) : Plain load marker path :=
    ⟨json path hpath, noAlias path hpath⟩
  have files₀ : r₀.files = [root] := by
    obtain ⟨_, _, _, _, rfl⟩ := start_eq_ok_iff.1 hstart
    rfl
  rw [hfiles, files_of_trace trace, files₀] at plain
  obtain ⟨n⟩ := nonempty_naming marker
  have hs := settled_start n hstart rootJson (plain root List.mem_cons_self)
  have hfollows : Follows load hash r₀ r₀ := ⟨rfl, rfl, remembers_start hstart, .refl load _ _⟩
  obtain ⟨paths', r', hlength', trace', empty', provider⟩ := exists_trace_of_follows n trace empty
    (fun path hpath => plain path (List.mem_cons_of_mem _ hpath)) hs hfollows
  refine ⟨{ provider := c.provider, files := r'.files, skipped := r'.skipped }, ?_, rfl⟩
  refine compile_eq_ok_iff.2 ⟨r₀, paths', r', hstart, Nat.le_trans hlength' hlength, trace', empty',
    finish_eq_ok_iff.2 ⟨?_, rfl, rfl⟩⟩
  rw [provider]
  exact hprovider

/-- The contents of a source that includes another file. -/
def includer : Bytes :=
  Text.Utf8.encode "EVT_SCHEMA_INCLUDE(\"tasks.c\") EVT_SCHEMA_TASK(Read)"

/-- The files of a schema with two equal sources, each of which includes the same file. -/
def repeatedFiles : Table String Bytes := .ofList [
  ("root.json", Text.Utf8.encode "\x7b\"sources\": [\"a.c\", \"b.c\"]\x7d"),
  ("a.c", includer),
  ("b.c", includer),
  ("tasks.c", Text.Utf8.encode "EVT_SCHEMA_TASK(Write) EVT_SCHEMA_SOURCE(\"last.c\")"),
  ("last.c", Text.Utf8.encode "EVT_SCHEMA_OPCODE(Send)")]

/-- What the files compile to when each is read as often as it is named. -/
def repeatedCompiled : Compilation where
  provider := {
    tasks := .ofList [("Read", ⟨"Read", some 1, ∅⟩), ("Write", ⟨"Write", some 2, ∅⟩)]
    opcodes := .ofList [("Send", ⟨"Send", some 10⟩)] }
  files := ["root.json", "a.c", "tasks.c", "b.c", "tasks.c", "last.c", "last.c"]
  skipped := []

theorem compile_skips_alike_repeated :
    compile repeatedFiles.find? { skipDuplicates := false } Checksum.fileHash 6 "root.json" =
        some (.ok repeatedCompiled) ∧
      ∃ c', compile repeatedFiles.find? { skipDuplicates := true } Checksum.fileHash 6 "root.json" =
          some (.ok c') ∧ c'.provider = repeatedCompiled.provider := by
  have hcompile : compile repeatedFiles.find? { skipDuplicates := false } Checksum.fileHash 6
      "root.json" = some (.ok repeatedCompiled) := by decide +kernel
  have rootJson : ∀ contents ∈ repeatedFiles.find? "root.json",
      isJson (Text.Utf8.decodeLossy contents) = true := by decide +kernel
  have json : ∀ path ∈ repeatedCompiled.files, ∀ contents ∈ repeatedFiles.find? path,
      hasJsonSuffix path = true → isJson (Text.Utf8.decodeLossy contents) = true := by
    decide +kernel
  have noAlias : ∀ path ∈ repeatedCompiled.files, ∀ contents ∈ repeatedFiles.find? path,
      ¬ DefinesAlias Source.defaultMarker path (Text.Utf8.decodeLossy contents) := by
    decide +kernel
  exact ⟨hcompile, compile_skips_alike hcompile rootJson json noAlias⟩

end EventSchema.Compilation
