import EventSchema.Proofs.Compilation.Contents
import EventSchema.Proofs.Draft.NamedFiles

/-!
# What a file does that is not the root

Two tests decide how such a file is read. The name or the contents make it a document, but only the
contents tell the two kinds of documents apart. Where the tests agree, JSON is merged, the clauses of
every other text are carried out, or the file is refused (`FileOutcome`). Where only the name speaks
for JSON, the text is read as markup, and its document is merged like that of a root file
(`outcome_of_takeText`, `exists_markup_merged`).
-/

namespace EventSchema.Compilation

variable {marker path text : String} {d : Draft}

/-! ## Documents -/

theorem mergeDocuments_of_parse {documents : List Document}
    (h : Document.parse path text = .ok documents) :
    mergeDocuments path text = documents.forM Document.merge := by
  rw [mergeDocuments, h]
  rfl

theorem mergeDocuments_of_error {fault : Error} (h : Document.parse path text = .error fault) :
    mergeDocuments path text d = .error fault d := by
  rw [mergeDocuments, h]
  rfl

theorem parse_of_malformed (json : isJson text = true)
    (missing : Document.listOfJson? (Text.trimStart text) = none) :
    Document.parse path text = .error (.malformedJson path) := by
  rw [Document.parse, if_pos json, missing]

theorem parse_of_markup (path : String) (markup : isJson text = false) :
    Document.parse path text = (Document.ofMarkup path text).map ([·]) := by
  rw [Document.parse, markup]
  rfl

/-- A markup text is merged when it can be read and its document can be merged. -/
theorem mergeDocuments_markup_eq_ok {e : Draft} (markup : isJson text = false) :
    mergeDocuments path text d = .ok () e ↔
      ∃ doc, Document.ofMarkup path text = .ok doc ∧ doc.merge d = .ok () e := by
  have hsingle (doc : Document) : [doc].forM Document.merge d = .ok () e ↔
      doc.merge d = .ok () e := by
    change (doc.merge >>= fun _ => pure ()) d = _ ↔ _
    rw [bind_pure_unit]
  constructor
  · intro h
    obtain ⟨documents, hparse, hmerge⟩ := Build.ofExcept_bind_eq_ok.1 h
    rw [parse_of_markup path markup] at hparse
    obtain ⟨doc, hdoc, rfl⟩ := Source.map_eq_ok hparse
    exact ⟨doc, hdoc, (hsingle doc).1 hmerge⟩
  · rintro ⟨doc, hdoc, hmerge⟩
    refine Build.ofExcept_bind_eq_ok.2 ⟨[doc], ?_, (hsingle doc).2 hmerge⟩
    rw [parse_of_markup path markup, hdoc]
    rfl

/-! ## Files -/

/-- What comes of a file that is read as its contents say. -/
inductive FileOutcome (marker path text : String) (d : Draft) :
    EStateM.Result Error Draft Unit → Prop
  /-- The contents are JSON, and their documents are merged. -/
  | documents {documents : List Document} {e : Draft} (json : isJson text = true)
      (found : Document.listOfJson? (Text.trimStart text) = some documents)
      (merged : documents.forM Document.merge d = .ok () e) :
      FileOutcome marker path text d (.ok () e)
  /-- The contents are something else, and their clauses are carried out. -/
  | clauses {e : Draft} (source : isJson text = false)
      (scanned : (Source.scan marker text).2 = none)
      (applied : (Source.scan marker text).1.forM Build.applyText d = .ok () e) :
      FileOutcome marker path text d (.ok () e)
  | malformed (json : isJson text = true)
      (missing : Document.listOfJson? (Text.trimStart text) = none) :
      FileOutcome marker path text d (.error (.malformedJson path) d)
  | documentRefused {documents : List Document} {fault : Error} {e : Draft}
      (json : isJson text = true)
      (found : Document.listOfJson? (Text.trimStart text) = some documents)
      (refused : documents.forM Document.merge d = .error fault e) :
      FileOutcome marker path text d (.error fault e)
  | clauseRefused {fault : Error} {e : Draft} (source : isJson text = false)
      (refused : (Source.scan marker text).1.forM Build.applyText d = .error fault e) :
      FileOutcome marker path text d (.error fault e)
  /-- The clauses up to the place where the scan stops are carried out. -/
  | stopped {stop : Source.ScanFault} {e : Draft} (source : isJson text = false)
      (unscanned : (Source.scan marker text).2 = some stop)
      (applied : (Source.scan marker text).1.forM Build.applyText d = .ok () e) :
      FileOutcome marker path text d (.error (.scan stop) e)

theorem fileOutcome_mergeDocuments (json : isJson text = true) :
    FileOutcome marker path text d (mergeDocuments path text d) := by
  cases found : Document.listOfJson? (Text.trimStart text) with
  | none =>
    rw [mergeDocuments_of_error (parse_of_malformed json found)]
    exact .malformed json found
  | some documents =>
    rw [mergeDocuments_of_parse ((parse_eq_ok_iff_of_json json).2 found)]
    cases merged : documents.forM Document.merge d with
    | ok _ e => exact .documents json found merged
    | error fault e => exact .documentRefused json found merged

theorem fileOutcome_applySource (source : isJson text = false) :
    FileOutcome marker path text d ((discard (Build.applySource marker text) : Build Unit) d) := by
  cases hsteps : (discard (Build.applySource marker text) : Build Unit) d with
  | ok _ e =>
    obtain ⟨n, happly⟩ := discard_eq_ok.1 hsteps
    obtain ⟨applied, scanned, -⟩ := applySource_eq_ok.1 happly
    exact .clauses source scanned applied
  | error fault e =>
    rcases applySource_eq_error.1 (discard_eq_error.1 hsteps) with refused | ⟨applied, stop, h, rfl⟩
    · exact .clauseRefused source refused
    · exact .stopped source h applied

/-- **What comes of a file that is not the root.** Unless its name speaks for JSON and its contents do
not, JSON documents are merged, clauses are carried out, or the file is refused, after some of its
documents or clauses. Otherwise its contents are accepted exactly when they are markup whose
document can be merged. -/
theorem outcome_of_takeText (marker path text : String) (d : Draft) :
    ((hasJsonSuffix path = true → isJson text = true) →
      FileOutcome marker path text d (takeText marker path text d)) ∧
    (hasJsonSuffix path = true → isJson text = false →
      ∀ e, takeText marker path text d = .ok () e ↔
        ∃ doc, Document.ofMarkup path text = .ok doc ∧ doc.merge d = .ok () e) := by
  constructor
  · intro agree
    rw [takeText, isDocumentFile_eq_isJson agree]
    cases kind : isJson text with
    | true => exact fileOutcome_mergeDocuments kind
    | false => exact fileOutcome_applySource kind
  · intro suffix markup e
    rw [takeText, isDocumentFile, suffix, Bool.true_or, if_pos rfl]
    exact mergeDocuments_markup_eq_ok markup

/-- A source text whose only clause defines a task. -/
def taskClauseText : String := "EVT_SCHEMA_TASK(A)"

/-- A markup text with the same task. -/
def taskMarkupText : String := "<task name='A'/>"

theorem takeText_taskMarkup :
    ∃ e, takeText Source.defaultMarker "a.json" taskMarkupText {} = .ok () e ∧
      (e.provider.getD {}).tasks.contains "A" = true := by decide +kernel

theorem outcome_of_takeText_task :
    (∃ e, takeText Source.defaultMarker "a.h" taskClauseText {} = .ok () e ∧
      (e.provider.getD {}).tasks.contains "A" = true) ∧
    FileOutcome Source.defaultMarker "a.h" taskClauseText {}
      (takeText Source.defaultMarker "a.h" taskClauseText {}) ∧
    ∃ doc e, Document.ofMarkup "a.json" taskMarkupText = .ok doc ∧ doc.merge {} = .ok () e := by
  have suffix : hasJsonSuffix "a.json" = true := by decide +kernel
  have markup : isJson taskMarkupText = false := by decide +kernel
  have agree : hasJsonSuffix "a.h" = true → isJson taskClauseText = true := by decide +kernel
  refine ⟨by decide +kernel, (outcome_of_takeText _ _ _ _).1 agree, ?_⟩
  obtain ⟨e, htake, -⟩ := takeText_taskMarkup
  obtain ⟨doc, hread, hmerge⟩ := ((outcome_of_takeText _ _ _ _).2 suffix markup e).1 htake
  exact ⟨doc, e, hread, hmerge⟩

/-- **Markup is accepted below the root**: a file whose name speaks for JSON defines a task, although
its text is neither JSON nor has a clause. -/
theorem exists_markup_merged :
    ¬ ∀ (marker path text : String) (d e : Draft), takeText marker path text d = .ok () e →
      FileOutcome marker path text d (.ok () e) := by
  intro h
  have unclaused : (Source.scan Source.defaultMarker taskMarkupText).1 = [] := by decide +kernel
  obtain ⟨e, htake, hdefined⟩ := takeText_taskMarkup
  cases h _ _ _ _ _ htake with
  | documents json => exact absurd json (by decide +kernel)
  | clauses _ _ applied =>
    rw [unclaused] at applied
    cases applied
    exact absurd hdefined (by decide)

end EventSchema.Compilation
