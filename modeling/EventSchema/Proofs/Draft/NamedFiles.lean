import EventSchema.Proofs.Draft.Parts

/-!
# The files that clauses and documents name

Definitions leave the queue alone (`MadeOf.same_queue`). A clause or a document that is carried out
puts the files that it includes in front of the queue and its sources behind it, so after several of
them the last includes come first, and the sources stand in the order in which they were named
(`pending_of_forM`). The clauses of a source text and the documents of a list are cases of this
(`pending_of_clauses`, `pending_of_merges`).
-/

namespace EventSchema

variable {α β : Type}

/-! ## Named files -/

/-- The files that something names, in order. -/
structure Named where
  included : List String := []
  sources : List String := []
  deriving DecidableEq

/-- A step names files: where it succeeds, it puts the ones that it includes in front of the queue
and its sources behind it. -/
def Names (x : Build Unit) (d : Draft) (n : Named) : Prop :=
  ∀ d', x d = .ok () d' → d'.queue.pending = n.included ++ d.queue.pending ++ n.sources

/-- What several steps name, carried out one after the other. -/
def namedInTurn (step : α → Build Unit) (named : α → Draft → Named) : List α → Draft → List Named
  | [], _ => []
  | a :: rest, d => named a d :: namedInTurn step named rest (stateAfter (step a) d)

theorem forall_mem_namedInTurn {step : α → Build Unit} {named : α → Draft → Named}
    {P : Named → Prop} (h : ∀ a d, P (named a d)) {l : List α} {d : Draft} :
    ∀ n ∈ namedInTurn step named l d, P n := by
  induction l generalizing d with
  | nil => exact nofun
  | cons a rest ih =>
    intro n hn
    rcases List.mem_cons.1 hn with rfl | hn
    · exact h a d
    · exact ih n hn

/-- **Includes pile up in front of the queue, and sources line up behind it.** -/
theorem pending_of_forM {step : α → Build Unit} {named : α → Draft → Named}
    (names : ∀ a d, Names (step a) d (named a d)) {l : List α} {d d' : Draft}
    (h : l.forM step d = .ok () d') :
    d'.queue.pending = (namedInTurn step named l d).reverse.flatMap (·.included) ++
      d.queue.pending ++ (namedInTurn step named l d).flatMap (·.sources) := by
  induction l generalizing d with
  | nil =>
    cases h
    exact (List.append_nil _).symm
  | cons a rest ih =>
    obtain ⟨⟨⟩, m, hstep, hrest⟩ := bind_eq_ok.1 h
    rw [ih hrest, names a d m hstep, namedInTurn, stateAfter_of_ok hstep]
    simp only [List.reverse_cons, List.flatMap_append, List.flatMap_cons, List.flatMap_nil,
      List.append_nil, List.append_assoc]

/-! ### Clauses -/

/-- The file that a clause names: `INCLUDE` takes an identifier or a literal, `SOURCE` a literal,
after the aliases are replaced. -/
def Source.Clause.named (c : Source.Clause) (d : Draft) : Named :=
  match c.method, c.args with
  | "INCLUDE", [arg] => { included := (Statement.literalOrBare (d.aliased arg)).toOption.toList }
  | "SOURCE", [arg] => { sources := (Statement.literal (d.aliased arg)).toOption.toList }
  | _, _ => {}

theorem ofArguments_include {args : List String} {s : Statement}
    (h : Statement.ofArguments "INCLUDE" args = .ok s) :
    ∃ arg path, args = [arg] ∧ Statement.literalOrBare arg = .ok path ∧ s = .includedFile path := by
  rcases args with _ | ⟨arg, _ | ⟨_, _⟩⟩
  · cases (show Except.error _ = Except.ok s from h)
  · change (Statement.literalOrBare arg).map .includedFile = .ok s at h
    obtain ⟨path, hpath, rfl⟩ := Source.map_eq_ok h
    exact ⟨arg, path, rfl, hpath, rfl⟩
  · cases (show Except.error _ = Except.ok s from h)

theorem ofArguments_source {args : List String} {s : Statement}
    (h : Statement.ofArguments "SOURCE" args = .ok s) :
    ∃ arg path, args = [arg] ∧ Statement.literal arg = .ok path ∧ s = .sourceFile path := by
  rcases args with _ | ⟨arg, _ | ⟨_, _⟩⟩
  · cases (show Except.error _ = Except.ok s from h)
  · change (Statement.literal arg).map .sourceFile = .ok s at h
    obtain ⟨path, hpath, rfl⟩ := Source.map_eq_ok h
    exact ⟨arg, path, rfl, hpath, rfl⟩
  · cases (show Except.error _ = Except.ok s from h)

theorem names_of_made {x : Build Unit} (h : MadeOf (· ≠ .files) x) (d : Draft) : Names x d {} := by
  intro d' hx
  have hqueue : d'.queue = d.queue := stateAfter_of_ok hx ▸ h.same_queue d
  rw [hqueue]
  exact (List.append_nil _).symm

/-- Statements that name no file leave the queue alone. -/
theorem Statement.topic_ne_files {s : Statement} (hinclude : ∀ path, s ≠ .includedFile path)
    (hsource : ∀ path, s ≠ .sourceFile path) : s.topic ≠ .files := by
  cases s with
  | includedFile path => exact absurd rfl (hinclude path)
  | sourceFile path => exact absurd rfl (hsource path)
  | defineProvider | defineAlias | guardUnnamed => exact nofun
  | defineChannel | defineTask | defineOpcode | defineTaskOpcode | defineEvent => exact nofun

theorem names_applyClause (c : Source.Clause) (d : Draft) :
    Names (Build.applyClause c) d (c.named d) := by
  intro d' h
  obtain ⟨s, hs, happly⟩ := Build.applyClause_eq_ok.1 h
  unfold Source.Clause.named
  split
  · next arg hmethod hargs =>
    rw [hmethod, hargs] at hs
    obtain ⟨_, path, ⟨⟩, hpath, rfl⟩ := ofArguments_include hs
    cases happly
    rw [hpath]
    exact (List.append_nil _).symm
  · next arg hmethod hargs =>
    rw [hmethod, hargs] at hs
    obtain ⟨_, path, ⟨⟩, hpath, rfl⟩ := ofArguments_source hs
    cases happly
    rw [hpath]
    rfl
  · next hinclude hsource =>
    refine names_of_made (madeOf_statement (Statement.topic_ne_files ?_ ?_)) d d' happly
    · rintro path rfl
      have hmethod : c.method = "INCLUDE" := Statement.hasMethod_of_ofArguments hs
      rw [hmethod] at hs
      obtain ⟨_, _, hargs, -⟩ := ofArguments_include hs
      obtain ⟨arg, hargs, -⟩ := List.map_eq_singleton_iff.1 hargs
      exact hinclude arg hmethod hargs
    · rintro path rfl
      have hmethod : c.method = "SOURCE" := Statement.hasMethod_of_ofArguments hs
      rw [hmethod] at hs
      obtain ⟨_, _, hargs, -⟩ := ofArguments_source hs
      obtain ⟨arg, hargs, -⟩ := List.map_eq_singleton_iff.1 hargs
      exact hsource arg hmethod hargs

/-- The file that the text of a clause names. -/
def namedByText (text : String) (d : Draft) : Named :=
  match Source.Clause.parse text with
  | .ok c => c.named d
  | .error _ => {}

theorem names_applyText (text : String) (d : Draft) :
    Names (Build.applyText text) d (namedByText text d) := by
  intro d' h
  obtain ⟨c, hparse, happly⟩ := Build.ofExcept_bind_eq_ok.1 h
  unfold namedByText
  cases hclause : Source.Clause.parse text with
  | error fault =>
    rw [hclause] at hparse
    cases hparse
  | ok found =>
    rw [hclause] at hparse
    cases hparse
    exact names_applyClause c d d' happly

/-- What the clauses of a source text name, one after the other. -/
def clauseNames (marker text : String) (d : Draft) : List Named :=
  namedInTurn Build.applyText namedByText (Source.scan marker text).1 d

theorem reverse_included_namedByText (text : String) (d : Draft) :
    (namedByText text d).included.reverse = (namedByText text d).included := by
  unfold namedByText
  split
  · next c _ =>
    unfold Source.Clause.named
    split
    · next arg _ _ => cases Statement.literalOrBare (d.aliased arg) <;> rfl
    all_goals rfl
  · rfl

/-- A clause includes one file at most. -/
theorem reverse_included_clauseNames (marker text : String) (d : Draft) :
    ((clauseNames marker text d).flatMap (·.included)).reverse =
      (clauseNames marker text d).reverse.flatMap (·.included) := by
  rw [List.reverse_flatMap]
  refine List.flatMap_congr fun n hn => ?_
  exact forall_mem_namedInTurn (P := fun n => n.included.reverse = n.included)
    reverse_included_namedByText n (List.mem_reverse.1 hn)

/-- A source text is read when all of its clauses can be carried out and it can be scanned to its
end. -/
theorem applySource_eq_ok {marker text : String} {d d' : Draft} {n : Nat} :
    Build.applySource marker text d = .ok n d' ↔
      (Source.scan marker text).1.forM Build.applyText d = .ok () d' ∧
        (Source.scan marker text).2 = none ∧ n = (Source.scan marker text).1.length := by
  unfold Build.applySource
  generalize Source.scan marker text = found
  obtain ⟨clauses, fault?⟩ := found
  constructor
  · intro h
    obtain ⟨⟨⟩, m, hclauses, hfault⟩ := bind_eq_ok.1 h
    cases fault? with
    | none =>
      cases hfault
      exact ⟨hclauses, rfl, rfl⟩
    | some fault => cases hfault
  · rintro ⟨hclauses, rfl, rfl⟩
    exact bind_eq_ok.2 ⟨(), d', hclauses, rfl⟩

/-- A source text fails in one of its clauses, or where it cannot be scanned any further. -/
theorem applySource_eq_error {marker text : String} {d e : Draft} {fault : Error} :
    Build.applySource marker text d = .error fault e ↔
      (Source.scan marker text).1.forM Build.applyText d = .error fault e ∨
        (Source.scan marker text).1.forM Build.applyText d = .ok () e ∧
          ∃ stop, (Source.scan marker text).2 = some stop ∧ fault = .scan stop := by
  unfold Build.applySource
  generalize Source.scan marker text = found
  obtain ⟨clauses, stop?⟩ := found
  refine bind_eq_error.trans (or_congr_right ?_)
  constructor
  · rintro ⟨⟨⟩, m, hclauses, hstop⟩
    cases stop? with
    | none => cases hstop
    | some stop =>
      cases hstop
      exact ⟨hclauses, stop, rfl, rfl⟩
  · rintro ⟨hclauses, stop, rfl, rfl⟩
    exact ⟨(), e, hclauses, rfl⟩

/-- A source text that is read as a whole has all of its clauses carried out. -/
theorem clauses_of_applySource {marker text : String} {d d' : Draft} {n : Nat}
    (h : Build.applySource marker text d = .ok n d') :
    (Source.scan marker text).1.forM Build.applyText d = .ok () d' :=
  (applySource_eq_ok.1 h).1

/-- Once all of its clauses are carried out, a source text has done what it does, also if it cannot
be scanned to its end. -/
theorem stateAfter_applySource {marker text : String} {d d' : Draft}
    (h : (Source.scan marker text).1.forM Build.applyText d = .ok () d') :
    stateAfter (Build.applySource marker text) d = d' := by
  unfold Build.applySource
  generalize Source.scan marker text = found at h ⊢
  obtain ⟨clauses, fault?⟩ := found
  exact (stateAfter_bind_of_ok h).trans (by cases fault? <;> rfl)

/-- **The files of a source text**: what its clauses include stands in front of the queue, the last
first, and what they name as sources behind it. -/
theorem pending_of_clauses {marker text : String} {d d' : Draft}
    (h : (Source.scan marker text).1.forM Build.applyText d = .ok () d') :
    d'.queue.pending = ((clauseNames marker text d).flatMap (·.included)).reverse ++
      d.queue.pending ++ (clauseNames marker text d).flatMap (·.sources) := by
  rw [reverse_included_clauseNames]
  exact pending_of_forM names_applyText h

/-! ### Documents -/

/-- The files that a document names, with the aliases that there are after its declarations. -/
def Document.named (doc : Document) (d : Draft) : Named :=
  let text := (stateAfter doc.merge d).aliased
  { included := doc.includes.map text, sources := doc.sources.map text }

namespace Document

/-- A step ends with the files of a document. -/
def Queues (doc : Document) (x : Build Unit) : Prop :=
  ∀ d d', x d = .ok () d' →
    d'.queue.pending =
      doc.includes.map d'.aliased ++ d.queue.pending ++ doc.sources.map d'.aliased

theorem Queues.bind {doc : Document} {x : Build α} {f : α → Build Unit}
    (hx : MadeOf (· ≠ .files) x) (hf : ∀ a, doc.Queues (f a)) : doc.Queues (x >>= f) := by
  intro d d' h
  obtain ⟨a, m, hm, hrest⟩ := bind_eq_ok.1 h
  have hqueue : m.queue = d.queue := stateAfter_of_ok hm ▸ hx.same_queue d
  rw [hf a m d' hrest, hqueue]

theorem queues_mergeFiles (doc : Document) : doc.Queues doc.mergeFiles := by
  intro d d' h
  cases h
  rw [pending_foldl_pushBack, WorkQueue.pending_pushFrontAll]
  rfl

theorem queues_merge (doc : Document) : doc.Queues doc.merge := by
  rw [merge_eq_mergeEntities]
  refine .bind (madeOf_mergeEntities nofun (fun _ => nofun) nofun nofun) fun _ => ?_
  exact .bind (madeOf_mergeEvents nofun doc.events) fun _ => queues_mergeFiles doc

theorem names_merge (doc : Document) (d : Draft) : Names doc.merge d (doc.named d) := by
  intro d' h
  rw [named, stateAfter_of_ok h]
  exact queues_merge doc d d' h

end Document

/-- What the documents of a list name, one after the other. -/
def documentNames (documents : List Document) (d : Draft) : List Named :=
  namedInTurn Document.merge Document.named documents d

/-- **The files of documents**: the includes of the last document stand in front of the queue, then
those of the document before it, and the sources behind it, document after document. -/
theorem pending_of_merges {documents : List Document} {d d' : Draft}
    (h : documents.forM Document.merge d = .ok () d') :
    d'.queue.pending = (documentNames documents d).reverse.flatMap (·.included) ++
      d.queue.pending ++ (documentNames documents d).flatMap (·.sources) :=
  pending_of_forM Document.names_merge h

end EventSchema
