import EventSchema.Document.Writer
import EventSchema.Draft.Statement
import EventSchema.Proofs.Source.ClauseText

/-!
# Clauses in any style

The clauses of a document are read as they are written (`readable_toClauses`), whichever literals
spell its texts and whichever identifiers stand for the expressions of its parameters, and they say
what the document says (`ofArguments_channel`, `ofArguments_of_saysOfText`, `ofArguments_event`).
-/

namespace EventSchema

open Source (Clause IsWord isWordChar)
open Source.Literal (Spells)
open Text.Numeral (decimal)
open Text.Utf8 (encode)

/-! ## The clauses of events -/

theorem isWordChar_of_isDigit {c : Char} (h : c.isDigit = true) : isWordChar c = true := by
  rw [Char.isDigit, Bool.and_eq_true, decide_eq_true_iff, decide_eq_true_iff] at h
  rw [isWordChar]
  have hdigit : ('0' ≤ c && c ≤ '9') = true := by
    rw [Bool.and_eq_true, decide_eq_true_iff, decide_eq_true_iff]
    exact h
  rw [hdigit]
  rfl

theorem isNumber_decimal (n : Nat) : Statement.isNumber (decimal n) = true := by
  have hne : ¬ (decimal n).isEmpty = true := by
    rw [String.isEmpty_iff, ← String.toList_eq_nil_iff, decimal, String.toList_ofList]
    exact Nat.toDigits_ne_nil
  rw [Statement.isNumber, Bool.and_eq_true, Bool.not_eq_true', Bool.eq_false_iff]
  exact ⟨hne, List.all_eq_true.2 fun c hc => Text.Numeral.isDigit_of_mem_decimal hc⟩

theorem eventArgumentCount_decimal {n : Nat} (h : 3 * n + 6 < UInt64.size) :
    Statement.eventArgumentCount (decimal n) = .ok (3 * n + 6) := by
  simp only [Statement.eventArgumentCount, Text.Numeral.read?_decimal, if_pos h]

theorem ofArguments_of_isNumber {method : String} (h : Statement.isNumber method = true)
    (args : List String) :
    Statement.ofArguments method args =
      (do return .defineEvent (← Statement.eventDecl method args)) := by
  rw [Statement.ofArguments, if_pos h]
  all_goals
    rintro rfl
    exact absurd h (by decide)

section

variable {style : ClauseStyle}

theorem length_flatten_parameterArguments (expression : Nat → String)
    (params : List (String × String)) :
    (params.mapIdx fun i => parameterArguments style (expression i)).flatten.length =
      3 * params.length := by
  induction params generalizing expression with
  | nil => rfl
  | cons param params ih =>
    rw [List.mapIdx_cons, List.flatten_cons, List.length_append, List.length_cons,
      ih fun i => expression (i + 1), Nat.mul_succ, Nat.add_comm]
    rfl

theorem length_args_toClause (place : Nat) (e : EventDecl) :
    (e.toClause style place).args.length = 3 * e.params.length + 6 := by
  rw [EventDecl.toClause, List.length_append, length_flatten_parameterArguments, Nat.add_comm]
  rfl

end

/-! ## Styles -/

/-- Styles whose literals spell their texts and whose expressions are identifiers. -/
structure ClauseStyle.Lawful (style : ClauseStyle) : Prop where
  literal : ∀ s, Spells s (style.literal s)
  expression : ∀ place i, IsWord (style.expression place i)

section

variable {style : ClauseStyle} (lawful : style.Lawful)
include lawful

theorem ClauseStyle.Lawful.wholeArgument (s : String) :
    Source.WholeArgument (encode (style.literal s)) :=
  Source.WholeLiteral.wholeArgument (Source.Literal.skip?_of_spells (lawful.literal s))

theorem Statement.literal_of_lawful (s : String) : Statement.literal (style.literal s) = .ok s := by
  rw [Statement.literal, Source.Literal.decode_of_spells (lawful.literal s)]
  rfl

theorem Statement.literalOrBare_of_lawful (s : String) :
    Statement.literalOrBare (style.literal s) = .ok s := by
  rw [Statement.literalOrBare, Source.Literal.decodeOrBare_of_spells (lawful.literal s)]
  rfl

/-! ## The clauses are read as they are written -/

theorem readable_literals {method : String} (hmethod : method.toList.all isWordChar = true)
    (texts : List String) : Clause.Readable ⟨method, texts.map style.literal⟩ where
  method := hmethod
  args a ha := by
    obtain ⟨s, -, rfl⟩ := List.mem_map.1 ha
    exact lawful.wholeArgument s

theorem EventDecl.readable_toClause (place : Nat) (e : EventDecl) :
    (e.toClause style place).Readable where
  method := List.all_eq_true.2 fun c hc =>
    isWordChar_of_isDigit (Text.Numeral.isDigit_of_mem_decimal hc)
  args a ha := by
    rcases List.mem_append.1 ha with ha | ha
    · obtain ⟨s, -, rfl⟩ := List.mem_map.1 ha
      exact lawful.wholeArgument s
    · obtain ⟨args, hargs, ha⟩ := List.mem_flatten.1 ha
      obtain ⟨i, hi, rfl⟩ := List.mem_mapIdx.1 hargs
      simp only [parameterArguments, List.mem_cons, List.not_mem_nil, or_false] at ha
      rcases ha with rfl | rfl | rfl
      · exact lawful.wholeArgument _
      · exact lawful.wholeArgument _
      · exact (lawful.expression place i).wholeArgument

theorem Document.readable_toClauses (d : Document) : ∀ c ∈ d.toClauses style, c.Readable := by
  intro c hc
  simp only [Document.toClauses, List.mem_append, List.mem_map, List.mem_mapIdx] at hc
  rcases hc with ((((⟨e, -, rfl⟩ | ⟨t, -, rfl⟩) | ⟨o, -, rfl⟩) | ⟨i, hi, rfl⟩) | ⟨path, -, rfl⟩) |
    ⟨path, -, rfl⟩
  · exact readable_literals lawful (by decide) [e.id, e.name, e.type]
  · exact readable_literals lawful (by decide) [t.name]
  · exact readable_literals lawful (by decide) [o.name]
  · exact EventDecl.readable_toClause lawful i _
  · exact readable_literals lawful (by decide) [path]
  · exact readable_literals lawful (by decide) [path]

/-! ## What the clauses say -/

theorem ofArguments_channel (e : ChannelEntry) :
    Statement.ofArguments (e.toClause style).method (e.toClause style).args =
      (Vocabulary.parse ChannelType e.type).mapError .unknownWord >>= fun type =>
        .ok (.defineChannel e.id e.name type) := by
  simp only [ChannelEntry.toClause, Statement.ofArguments, List.map_cons, List.map_nil,
    Statement.literal_of_lawful lawful, Statement.literalOrBare_of_lawful lawful, bind, Except.bind,
    pure, Except.pure]

/-- The methods whose only argument is a text, and what such a clause says. -/
inductive SaysOfText : String → (String → Statement) → Prop
  | task : SaysOfText "TASK" .defineTask
  | opcode : SaysOfText "OPCODE" .defineOpcode
  | includedFile : SaysOfText "INCLUDE" .includedFile
  | sourceFile : SaysOfText "SOURCE" .sourceFile

theorem ofArguments_of_saysOfText {method : String} {meaning : String → Statement}
    (h : SaysOfText method meaning) (text : String) :
    Statement.ofArguments method [style.literal text] = .ok (meaning text) := by
  cases h
  all_goals
    simp only [Statement.ofArguments, Statement.literal_of_lawful lawful,
      Statement.literalOrBare_of_lawful lawful]
    rfl

theorem parameters_flatten (expression : Nat → String) (params : List (String × String)) :
    Statement.parameters (params.mapIdx fun i => parameterArguments style (expression i)).flatten =
      .ok params := by
  induction params generalizing expression with
  | nil => rfl
  | cons param params ih =>
    rw [List.mapIdx_cons, List.flatten_cons, parameterArguments, List.cons_append, List.cons_append,
      List.cons_append, List.nil_append, Statement.parameters,
      Statement.literalOrBare_of_lawful lawful, Statement.literalOrBare_of_lawful lawful,
      ih fun i => expression (i + 1)]
    rfl

theorem ofArguments_event (place : Nat) (e : EventDecl)
    (fits : 3 * e.params.length + 6 < UInt64.size) :
    Statement.ofArguments (e.toClause style place).method (e.toClause style place).args =
      .ok (.defineEvent { e with value := none }) := by
  have hdecl : Statement.eventDecl (decimal e.params.length) (e.toClause style place).args =
      .ok { e with value := none } := by
    rw [Statement.eventDecl, eventArgumentCount_decimal fits]
    simp only [bind, Except.bind, length_args_toClause, ne_eq, not_true_eq_false, if_false]
    simp only [EventDecl.toClause, List.map_cons, List.map_nil, List.cons_append, List.nil_append,
      parameters_flatten lawful, Statement.literalOrBare_of_lawful lawful]
    rfl
  rw [EventDecl.toClause, ofArguments_of_isNumber (isNumber_decimal _)]
  rw [EventDecl.toClause] at hdecl
  rw [hdecl]
  rfl

end

end EventSchema
