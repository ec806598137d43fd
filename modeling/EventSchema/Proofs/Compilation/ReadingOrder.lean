import EventSchema.Proofs.Compilation.Trace
import EventSchema.Proofs.Draft.NamedFiles
import EventSchema.Proofs.QueueHistory

/-!
# The order in which files are read

A run does to its queue what the files name that it reads, clause by clause and document by document
(`Operates`), so the files that it takes are the ones that come out of the queue, in that order
(`history_of_operates`), and everything that holds of a queue holds of the run
(`files_read_in_order`).
-/

namespace EventSchema

/-! ## Names as operations -/

/-- What naming some files does to the queue. -/
def Named.ops (n : Named) : List QueueOp := .front n.included :: n.sources.map .back

theorem ne_take_of_mem_ops {names : List Named} {op : QueueOp} (h : op ∈ names.flatMap Named.ops) :
    op ≠ .take := by
  obtain ⟨n, -, hop⟩ := List.mem_flatMap.1 h
  rcases List.mem_cons.1 hop with rfl | hop
  · exact nofun
  · obtain ⟨path, -, rfl⟩ := List.mem_map.1 hop
    exact nofun

theorem pending_foldl_ops (names : List Named) (q : WorkQueue) :
    ((names.flatMap Named.ops).foldl QueueOp.apply q).pending =
      names.reverse.flatMap (·.included) ++ q.pending ++ names.flatMap (·.sources) := by
  induction names generalizing q with
  | nil => exact (List.append_nil _).symm
  | cons n rest ih =>
    rw [List.flatMap_cons, List.foldl_append, ih, Named.ops, List.foldl_cons, List.foldl_map]
    change _ ++ ((n.sources.foldl WorkQueue.pushBack (q.pushFrontAll n.included)).pending) ++ _ = _
    rw [Document.pending_foldl_pushBack, WorkQueue.pending_pushFrontAll]
    simp only [List.reverse_cons, List.flatMap_append, List.flatMap_cons, List.flatMap_nil,
      List.append_nil, List.append_assoc]

namespace History

/-- Only paths that come out are taken. -/
theorem taken_after {ops : List QueueOp} (h : History) (hops : ∀ op ∈ ops, op ≠ .take) :
    (h.after ops).taken = h.taken := by
  induction ops generalizing h with
  | nil => rfl
  | cons op rest ih =>
    have hrest : ∀ other ∈ rest, other ≠ .take :=
      fun other hother => hops other (List.mem_cons_of_mem _ hother)
    refine (ih (h.step op) hrest).trans ?_
    cases op with
    | take => exact absurd rfl (hops .take List.mem_cons_self)
    | front paths => rfl
    | back path => rfl

end History

namespace Compilation

variable {load : String → Option Bytes} {settings : Settings} {hash : Bytes → String}

/-! ## Files -/

/-- The files that the documents of a text name. -/
def namesInDocuments (path text : String) (d : Draft) : List Named :=
  match Document.parse path text with
  | .ok documents => documentNames documents d
  | .error _ => []

/-- The files that a text names, be it documents or clauses. -/
def namesInText (marker path text : String) (d : Draft) : List Named :=
  if isDocumentFile path text then namesInDocuments path text d else clauseNames marker text d

/-- The files that the root file names. -/
def namesInRoot (load : String → Option Bytes) (root : String) : List Named :=
  match load root with
  | some contents => namesInDocuments root (Text.Utf8.decodeLossy contents) {}
  | none => []

/-- The files that the next file of a run names, unless it is skipped. -/
def namesInFile (load : String → Option Bytes) (settings : Settings) (hash : Bytes → String)
    (r : Run) (path : String) : List Named :=
  match load path with
  | some contents =>
    match remembered? settings hash r.seen contents with
    | some _ => namesInText settings.marker path (Text.Utf8.decodeLossy contents)
        { r.draft with queue := ⟨r.draft.queue.pending.tail⟩ }
    | none => []
  | none => []

theorem pending_of_mergeDocuments {path text : String} {d d' : Draft}
    (h : mergeDocuments path text d = .ok () d') :
    d'.queue.pending = (namesInDocuments path text d).reverse.flatMap (·.included) ++
      d.queue.pending ++ (namesInDocuments path text d).flatMap (·.sources) := by
  obtain ⟨documents, hparse, hmerge⟩ := Build.ofExcept_bind_eq_ok.1 h
  rw [namesInDocuments, hparse]
  exact pending_of_merges hmerge

theorem pending_of_takeText {marker path text : String} {d d' : Draft}
    (h : takeText marker path text d = .ok () d') :
    d'.queue.pending = (namesInText marker path text d).reverse.flatMap (·.included) ++
      d.queue.pending ++ (namesInText marker path text d).flatMap (·.sources) := by
  unfold takeText at h
  unfold namesInText
  split at h
  · next hdocument =>
    rw [if_pos hdocument]
    exact pending_of_mergeDocuments h
  · next hsource =>
    rw [if_neg hsource]
    obtain ⟨n, hclauses⟩ := discard_eq_ok.1 h
    rw [← reverse_included_clauseNames]
    exact pending_of_clauses (clauses_of_applySource hclauses)

/-! ## Runs -/

/-- What a run does to its queue while it takes some files. -/
inductive Operates (load : String → Option Bytes) (settings : Settings) (hash : Bytes → String) :
    Run → List String → List QueueOp → Run → Prop
  | done (r : Run) : Operates load settings hash r [] [] r
  | next {r s r' : Run} {path : String} {paths : List String} {ops : List QueueOp}
      (takes : Takes load settings hash r path s)
      (operates : Operates load settings hash s paths ops r') :
      Operates load settings hash r (path :: paths)
        (.take :: (namesInFile load settings hash r path).flatMap Named.ops ++ ops) r'

theorem exists_operates {r r' : Run} {paths : List String}
    (trace : Trace load settings hash r paths r') :
    ∃ ops, Operates load settings hash r paths ops r' := by
  induction trace with
  | done r => exact ⟨[], .done r⟩
  | next takes _ ih =>
    obtain ⟨ops, operates⟩ := ih
    exact ⟨_, .next takes operates⟩

/-- What a run makes of its queue with one file. -/
theorem pending_of_takes {r s : Run} {path : String} (takes : Takes load settings hash r path s) :
    ∃ rest, r.draft.queue.pending = path :: rest ∧
      s.draft.queue.pending =
        (namesInFile load settings hash r path).reverse.flatMap (·.included) ++ rest ++
          (namesInFile load settings hash r path).flatMap (·.sources) := by
  unfold namesInFile
  cases takes with
  | skip queue contents known =>
    rw [contents]
    simp only [known]
    exact ⟨_, queue, (List.append_nil _).symm⟩
  | read queue contents remembered text =>
    rw [contents]
    simp only [remembered]
    refine ⟨_, queue, ?_⟩
    rw [queue]
    exact pending_of_takeText text

/-- A history of a run: the files that it has taken, and its queue. -/
structure HistoryOf (h : History) (taken : List String) (r : Run) : Prop where
  taken : h.taken.map (·.path) = taken
  queue : h.queue = r.draft.queue

/-- A file comes out of the queue, and what it names goes in. -/
theorem historyOf_takes {h : History} {taken : List String} {r s : Run} {path : String}
    (hr : HistoryOf h taken r) (takes : Takes load settings hash r path s) :
    HistoryOf (h.after (.take :: (namesInFile load settings hash r path).flatMap Named.ops))
      (taken ++ [path]) s := by
  obtain ⟨rest, hrest, pending⟩ := pending_of_takes takes
  have hpending : h.waiting.map (·.path) = path :: rest :=
    (congrArg WorkQueue.pending hr.queue).trans hrest
  obtain ⟨next, waiting, hwaiting, hpath, hwaits⟩ := List.map_eq_cons_iff.1 hpending
  change HistoryOf ((h.step .take).after _) _ _
  rw [History.step_take_of_cons hwaiting]
  constructor
  · rw [History.taken_after _ fun op => ne_take_of_mem_ops]
    dsimp only
    rw [List.map_append, hr.taken, List.map_singleton, hpath]
  · rw [History.queue_after]
    refine congrArg WorkQueue.mk ?_
    rw [pending_foldl_ops, pending, ← hwaits]
    rfl

/-- **A run takes the files that come out of its queue.** -/
theorem historyOf_operates {h : History} {taken paths : List String} {r r' : Run}
    {ops : List QueueOp} (hr : HistoryOf h taken r)
    (operates : Operates load settings hash r paths ops r') :
    HistoryOf (h.after ops) (taken ++ paths) r' := by
  induction operates generalizing h taken with
  | done r => rwa [List.append_nil]
  | next takes _ ih =>
    have hs := ih (historyOf_takes hr takes)
    rwa [List.append_assoc, ← History.after_append] at hs

/-- The root file is not in the queue. -/
theorem historyOf_start {root : String} {r : Run} (h : start hash root (load root) = .ok r) :
    HistoryOf (History.after {} ((namesInRoot load root).flatMap Named.ops)) [] r := by
  obtain ⟨c, d, contents, text, rfl⟩ := start_eq_ok_iff.1 h
  constructor
  · rw [History.taken_after _ fun op => ne_take_of_mem_ops]
    rfl
  · rw [History.queue_after]
    refine congrArg WorkQueue.mk ?_
    rw [pending_foldl_ops, namesInRoot, contents]
    exact (pending_of_mergeDocuments text).symm

/-- **Files are read in order.** The clauses of a source put the files that they include in front
of the queue, the last first, and their sources behind it. So do the documents of a list, but the
includes of one document stay in their order. What a run does to its queue, clause by clause and
document by document, leaves the files that it takes and those that wait, and at every moment, up
to the next file that it would take, they come out in order: whatever is the next file at a moment,
only files that are included from then on come out before it, by the file that is being read or by
those that have come out since, and sources come out as they came in. -/
theorem files_read_in_order :
    (∀ (marker text : String) (d d' : Draft),
      (Source.scan marker text).1.forM Build.applyText d = .ok () d' →
        stateAfter (Build.applySource marker text) d = d' ∧
          d'.queue.pending = ((clauseNames marker text d).flatMap (·.included)).reverse ++
            d.queue.pending ++ (clauseNames marker text d).flatMap (·.sources)) ∧
    (∀ (documents : List Document) (d d' : Draft), documents.forM Document.merge d = .ok () d' →
      d'.queue.pending = (documentNames documents d).reverse.flatMap (·.included) ++
        d.queue.pending ++ (documentNames documents d).flatMap (·.sources)) ∧
    ∀ (load : String → Option Bytes) (settings : Settings) (hash : Bytes → String) (root : String)
      (r₀ : Run) (paths : List String) (r : Run), start hash root (load root) = .ok r₀ →
        Trace load settings hash r₀ paths r →
          ∃ ops, Operates load settings hash r₀ paths ops r ∧
            HistoryOf (.after {} ((namesInRoot load root).flatMap Named.ops ++ ops)) paths r ∧
            InOrder ((namesInRoot load root).flatMap Named.ops ++ ops ++ [.take]) := by
  refine ⟨fun _ _ _ _ h => ⟨stateAfter_applySource h, pending_of_clauses h⟩,
    fun _ _ _ => pending_of_merges, fun load settings hash root r₀ paths r hstart trace => ?_⟩
  obtain ⟨ops, operates⟩ := exists_operates trace
  have history := historyOf_operates (historyOf_start hstart) operates
  rw [← History.after_append] at history
  exact ⟨ops, operates, history, inOrder _⟩

/-- A source that includes two files and names a third one between them. -/
def namingSource : String :=
  "EVT_SCHEMA_INCLUDE(a) EVT_SCHEMA_SOURCE(\"s.c\") EVT_SCHEMA_INCLUDE(\"b.h\")"

/-- Two documents, of which the first includes two files. -/
def namingDocuments : List Document :=
  [{ includes := ["a", "b.h"], sources := ["s.c"] }, { includes := ["c.h"], sources := ["t.c"] }]

/-- A draft with a file that waits and an alias. -/
def waitingDraft : Draft where
  provider := some { aliases := .ofList [("a", "a.h")] }
  queue := ⟨["q.c"]⟩

/-- The files of a schema whose included source includes and names others. -/
def namingFiles : Table String Bytes := .ofList [
  ("root.json", Text.Utf8.encode "\x7b\"includes\": [\"a.c\"], \"sources\": [\"d.c\"]\x7d"),
  ("a.c", Text.Utf8.encode "EVT_SCHEMA_SOURCE(\"e.c\") EVT_SCHEMA_INCLUDE(\"b.c\")"),
  ("b.c", Text.Utf8.encode "EVT_SCHEMA_INCLUDE(\"c.c\")"),
  ("c.c", Text.Utf8.encode ""),
  ("d.c", Text.Utf8.encode "EVT_SCHEMA_TASK(Read)"),
  ("e.c", Text.Utf8.encode "EVT_SCHEMA_TASK(Write)")]

/-- What the files compile to. -/
def namingCompiled : Compilation where
  provider := { tasks := .ofList [("Read", ⟨"Read", some 1, ∅⟩), ("Write", ⟨"Write", some 2, ∅⟩)] }
  files := ["root.json", "a.c", "b.c", "c.c", "d.c", "e.c"]
  skipped := []

/-- The includes pass what waits, in a source, in documents and in a compilation. -/
theorem files_read_in_order_naming :
    ((clauseNames Source.defaultMarker namingSource waitingDraft).flatMap (·.included)).reverse ++
      ["q.c"] ++ (clauseNames Source.defaultMarker namingSource waitingDraft).flatMap (·.sources) =
        ["b.h", "a.h", "q.c", "s.c"] ∧
    (documentNames namingDocuments waitingDraft).reverse.flatMap (·.included) ++
      ["q.c"] ++ (documentNames namingDocuments waitingDraft).flatMap (·.sources) =
        ["c.h", "a.h", "b.h", "q.c", "s.c", "t.c"] ∧
    compile namingFiles.find? {} Checksum.fileHash 5 "root.json" = some (.ok namingCompiled) ∧
    ∃ r₀ paths r ops, Operates namingFiles.find? {} Checksum.fileHash r₀ paths ops r ∧
      r.files = namingCompiled.files ∧
      let first := (namesInRoot namingFiles.find? "root.json").flatMap Named.ops
      HistoryOf (.after {} (first ++ ops)) paths r ∧ InOrder (first ++ ops ++ [.take]) := by
  obtain ⟨hsource, hdocuments, hrun⟩ := files_read_in_order
  obtain ⟨⟨⟩, clauses⟩ : ∃ u,
      (Source.scan Source.defaultMarker namingSource).1.forM Build.applyText waitingDraft =
        .ok u { waitingDraft with queue := ⟨["b.h", "a.h", "q.c", "s.c"]⟩ } :=
    draftAfter_eq_ok.1 (by decide +kernel)
  obtain ⟨⟨⟩, documents⟩ : ∃ u, namingDocuments.forM Document.merge waitingDraft =
      .ok u { waitingDraft with queue := ⟨["c.h", "a.h", "b.h", "q.c", "s.c", "t.c"]⟩ } :=
    draftAfter_eq_ok.1 (by decide +kernel)
  have hcompile : compile namingFiles.find? {} Checksum.fileHash 5 "root.json" =
      some (.ok namingCompiled) := by decide +kernel
  obtain ⟨r₀, paths, r, hstart, -, trace, -, hfinish⟩ := compile_eq_ok_iff.1 hcompile
  obtain ⟨ops, operates, history, order⟩ := hrun _ _ _ _ r₀ paths r hstart trace
  exact ⟨(hsource _ _ _ _ clauses).2.symm, (hdocuments _ _ _ documents).symm, hcompile,
    r₀, paths, r, ops, operates, (finish_eq_ok_iff.1 hfinish).2.1.symm, history, order⟩

end Compilation

end EventSchema
