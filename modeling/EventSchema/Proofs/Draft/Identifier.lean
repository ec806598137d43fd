import EventSchema.Proofs.Document.ClauseStyle
import EventSchema.Proofs.Draft.Parts

/-!
# Identifiers and their literals

Where an argument may be an identifier (`takesBare`), the identifier and the literal that spells it
say the same. So a clause may be written with either, at any choice of these places
(`applyClause_quoteAt`): it has the same result, also when it is refused, and leaves the same draft
behind.
-/

namespace EventSchema

open Source.Literal (quote isLiteral Spells)

namespace Statement

/-! ## Places of identifiers -/

/-- Whether the argument at a place of a clause may be an identifier. Of a channel only the id may
be one, and of an event all but the expressions of its parameters. -/
def takesBare (method : String) (place : Nat) : Bool :=
  match method with
  | "INCLUDE" | "TASK" | "OPCODE" | "TASK_OPCODE" => true
  | "CHANNEL" => place == 0
  | _ => isNumber method && (place < 6 || place % 3 != 2)

/-- Two rows of arguments of a clause, from one of its places on, that differ at most where both
arguments may be identifiers and stand for one text. -/
inductive Alike (method : String) : Nat → List String → List String → Prop
  | nil (place : Nat) : Alike method place [] []
  | same {place : Nat} {args args' : List String} (a : String)
      (rest : Alike method (place + 1) args args') : Alike method place (a :: args) (a :: args')
  | bare {place : Nat} {args args' : List String} {a a' : String}
      (bare : takesBare method place = true) (text : literalOrBare a = literalOrBare a')
      (rest : Alike method (place + 1) args args') : Alike method place (a :: args) (a' :: args')

section

variable {method : String} {place : Nat} {args args' : List String}

/-- Each argument stands for one text in both rows. -/
theorem Alike.forall₂ (h : Alike method place args args') :
    List.Forall₂ (fun a a' => literalOrBare a = literalOrBare a') args args' := by
  induction h with
  | nil => exact .nil
  | same a _ ih => exact .cons rfl ih
  | bare _ text _ ih => exact .cons text ih

/-- Where no identifier may stand, the rows are the same. -/
theorem Alike.eq_of_not_takesBare (h : Alike method place args args')
    (literal : ∀ i, place ≤ i → takesBare method i = false) : args = args' := by
  induction h with
  | nil => rfl
  | same a _ ih => rw [ih fun i hi => literal i (Nat.le_of_succ_le hi)]
  | bare bare _ _ _ =>
    rw [literal _ (Nat.le_refl _)] at bare
    cases bare

theorem parameters_congr
    (h : List.Forall₂ (fun a a' => literalOrBare a = literalOrBare a') args args') :
    parameters args = parameters args' := by
  induction args using parameters.induct generalizing args' with
  | case1 _ _ _ _ ih =>
    rcases h with _ | ⟨htype, _ | ⟨hname, _ | ⟨-, rest⟩⟩⟩
    rw [parameters, parameters, htype, hname, ih rest]
  | case2 _ hshort =>
    rcases h with _ | ⟨_, _ | ⟨_, _ | _⟩⟩
    · rfl
    · rfl
    · rfl
    · exact absurd rfl (hshort _ _ _ _)

/-- An event clause reads all of its arguments so that they may be identifiers. -/
theorem eventDecl_congr
    (h : List.Forall₂ (fun a a' => literalOrBare a = literalOrBare a') args args') :
    eventDecl method args = eventDecl method args' := by
  have hlength : args.length = args'.length := h.length_eq
  rw [eventDecl, eventDecl, hlength]
  rcases h with
    _ | ⟨subsystem, _ | ⟨severity, _ | ⟨level, _ | ⟨channel, _ | ⟨task, _ | ⟨opcode, rest⟩⟩⟩⟩⟩⟩
  case cons.cons.cons.cons.cons.cons =>
    simp only [parameters_congr rest, subsystem, severity, level, channel, task, opcode]
  all_goals rfl

theorem ofArguments_text_congr (hmethod : method = "INCLUDE" ∨ method = "TASK" ∨ method = "OPCODE")
    (h : List.Forall₂ (fun a a' => literalOrBare a = literalOrBare a') args args') :
    ofArguments method args = ofArguments method args' := by
  have hlength := h.length_eq
  rcases hmethod with rfl | rfl | rfl
  all_goals
    cases h with
    | nil => rfl
    | cons text rest =>
      cases rest with
      | nil => simp only [ofArguments, text]
      | cons _ _ => simp only [ofArguments, hlength]

theorem ofArguments_taskOpcode_congr
    (h : List.Forall₂ (fun a a' => literalOrBare a = literalOrBare a') args args') :
    ofArguments "TASK_OPCODE" args = ofArguments "TASK_OPCODE" args' := by
  have hlength := h.length_eq
  cases h with
  | nil => rfl
  | cons task rest =>
  cases rest with
  | nil => rfl
  | cons opcode rest =>
  cases rest with
  | nil => simp only [ofArguments, task, opcode]
  | cons _ _ => simp only [ofArguments, hlength]

/-- Only the id of a channel may be an identifier. -/
theorem Alike.ofArguments_channel_eq (h : Alike "CHANNEL" 0 args args') :
    ofArguments "CHANNEL" args = ofArguments "CHANNEL" args' := by
  have literal : ∀ i, 1 ≤ i → takesBare "CHANNEL" i = false := fun i hi =>
    beq_eq_false_iff_ne.2 (Nat.ne_of_gt hi)
  cases h with
  | nil => rfl
  | same a rest => rw [rest.eq_of_not_takesBare literal]
  | @bare _ rest _ a a' _ id alike =>
    obtain rfl := alike.eq_of_not_takesBare literal
    rcases rest with _ | ⟨name, _ | ⟨type, _ | _⟩⟩
    · rfl
    · rfl
    · simp only [ofArguments, id]
    · rfl

/-- **Rows of arguments that are alike say the same.** -/
theorem Alike.ofArguments_eq (h : Alike method 0 args args') :
    ofArguments method args = ofArguments method args' := by
  by_cases hsame : args = args'
  · rw [hsame]
  -- Rows that differ belong to a method that takes an identifier somewhere.
  obtain ⟨i, hi⟩ : ∃ i, takesBare method i = true := by
    by_contra hnone
    exact hsame (h.eq_of_not_takesBare fun i _ => Bool.eq_false_iff.2 fun hi => hnone ⟨i, hi⟩)
  unfold takesBare at hi
  split at hi
  · exact ofArguments_text_congr (.inl rfl) h.forall₂
  · exact ofArguments_text_congr (.inr (.inl rfl)) h.forall₂
  · exact ofArguments_text_congr (.inr (.inr rfl)) h.forall₂
  · exact ofArguments_taskOpcode_congr h.forall₂
  · exact h.ofArguments_channel_eq
  · have hnumber : isNumber method = true := (Bool.and_eq_true_iff.1 hi).1
    rw [ofArguments_of_isNumber hnumber, ofArguments_of_isNumber hnumber, eventDecl_congr h.forall₂]

end

end Statement

/-! ## Literals of identifiers -/

/-- Arguments that are not spelled as a literal, can be put between quotes as they are, and stand
for themselves in a draft, with the quotes or without. -/
structure Draft.Quotable (d : Draft) (arg : String) : Prop where
  bare : isLiteral arg = false
  noQuote : '"' ∉ arg.toList
  noBackslash : '\\' ∉ arg.toList
  noAlias : d.model.aliases.find? arg = none
  noAliasQuoted : d.model.aliases.find? (quote arg) = none

instance (d : Draft) (arg : String) : Decidable (d.Quotable arg) :=
  decidable_of_iff (isLiteral arg = false ∧ '"' ∉ arg.toList ∧ '\\' ∉ arg.toList ∧
      d.model.aliases.find? arg = none ∧ d.model.aliases.find? (quote arg) = none)
    ⟨fun ⟨bare, noQuote, noBackslash, noAlias, noAliasQuoted⟩ =>
        ⟨bare, noQuote, noBackslash, noAlias, noAliasQuoted⟩,
      fun h => ⟨h.bare, h.noQuote, h.noBackslash, h.noAlias, h.noAliasQuoted⟩⟩

theorem Source.Literal.spells_quote {s : String} (hquote : '"' ∉ s.toList)
    (hbackslash : '\\' ∉ s.toList) : Spells s (quote s) := by
  refine ⟨s.toList, ?_, by rw [String.ofList_toList]⟩
  generalize s.toList = cs at hquote hbackslash
  induction cs with
  | nil => exact .nil
  | cons c cs ih =>
    obtain ⟨hc, hcs⟩ := not_or.1 fun h => hquote (List.mem_cons.2 h)
    obtain ⟨hc', hcs'⟩ := not_or.1 fun h => hbackslash (List.mem_cons.2 h)
    exact .cons (.plain (Ne.symm hc') (Ne.symm hc)) (ih hcs hcs')

namespace Draft.Quotable

variable {d : Draft} {arg : String}

theorem aliased_eq (h : d.Quotable arg) : d.aliased arg = arg := by
  rw [aliased_model, Provider.aliased, h.noAlias, Option.getD_none]

theorem aliased_quote (h : d.Quotable arg) : d.aliased (quote arg) = quote arg := by
  rw [aliased_model, Provider.aliased, h.noAliasQuoted, Option.getD_none]

/-- An identifier and its literal are one text. -/
theorem literalOrBare_eq (h : d.Quotable arg) :
    Statement.literalOrBare arg = Statement.literalOrBare (quote arg) := by
  have hspells : Spells arg (quote arg) := Source.Literal.spells_quote h.noQuote h.noBackslash
  rw [Statement.literalOrBare, Statement.literalOrBare,
    Source.Literal.decodeOrBare_of_spells hspells, Source.Literal.decodeOrBare, h.bare]
  rfl

end Draft.Quotable

/-! ## Clauses -/

/-- Arguments with those at the chosen places between quotes. -/
def quoteAt (chosen : Nat → Bool) (args : List String) : List String :=
  args.mapIdx fun i a => if chosen i then quote a else a

theorem quoteAt_cons (chosen : Nat → Bool) (a : String) (args : List String) :
    quoteAt chosen (a :: args) =
      (if chosen 0 then quote a else a) :: quoteAt (fun i => chosen (i + 1)) args := by
  rw [quoteAt, List.mapIdx_cons, quoteAt]

theorem alike_quoteAt {d : Draft} {method : String} {args : List String} {chosen : Nat → Bool}
    {place : Nat}
    (h : ∀ i a, chosen i = true → args[i]? = some a →
      Statement.takesBare method (place + i) = true ∧ d.Quotable a) :
    Statement.Alike method place (args.map d.aliased) ((quoteAt chosen args).map d.aliased) := by
  induction args generalizing chosen place with
  | nil => exact .nil place
  | cons a args ih =>
    have rest : Statement.Alike method (place + 1) (args.map d.aliased)
        ((quoteAt (fun i => chosen (i + 1)) args).map d.aliased) :=
      ih fun i b hi hb => by
        rw [Nat.add_right_comm]
        exact h (i + 1) b hi (by rwa [List.getElem?_cons_succ])
    rw [quoteAt_cons, List.map_cons, List.map_cons]
    cases hchosen : chosen 0 with
    | false => exact .same _ rest
    | true =>
      obtain ⟨bare, quotable⟩ := h 0 a hchosen List.getElem?_cons_zero
      rw [if_pos rfl, quotable.aliased_eq, quotable.aliased_quote]
      exact .bare bare quotable.literalOrBare_eq rest

namespace Build

/-- **An identifier and its literal are interchangeable.** Put between quotes, at any choice of the
places where a clause may have an identifier, arguments that are no aliases with or without the
quotes: the clause has the same result, also when it is refused, and leaves the same provider and
the same queue behind. -/
theorem applyClause_quoteAt (d : Draft) (c : Source.Clause) (chosen : Nat → Bool)
    (h : ∀ i a, chosen i = true → c.args[i]? = some a →
      Statement.takesBare c.method i = true ∧ d.Quotable a) :
    applyClause ⟨c.method, quoteAt chosen c.args⟩ d = applyClause c d := by
  have halike : Statement.Alike c.method 0 (c.args.map d.aliased)
      ((quoteAt chosen c.args).map d.aliased) :=
    alike_quoteAt fun i a hi ha => by
      rw [Nat.zero_add]
      exact h i a hi ha
  rw [applyClause, applyClause, get_bind_eq, get_bind_eq, halike.ofArguments_eq]

/-- A draft in which one channel has an alias. -/
def diskDraft : Draft where
  provider := some {
    channels := .ofList [("Admin", { id := "Admin", name := "Admin", type := .admin })]
    tasks := .ofList [("Disk", { name := "Disk" })]
    aliases := .ofList [("CHANNEL_ADMIN", "\"Admin\"")] }
  queue := ⟨["next.c"]⟩

/-- An event with a parameter of an unknown type. It is refused after its opcode has been defined.
-/
def refusedEvent : Source.Clause :=
  ⟨"1", ["srv", "Info", "Verbose", "CHANNEL_ADMIN", "Disk", "Start", "Sector", "first", "s(0)"]⟩

/-- All places but those of the alias and of the expression. -/
def identifierPlaces (i : Nat) : Bool := i ≠ 3 ∧ i < 8

theorem applyClause_quoteAt_refused :
    (∀ i a, identifierPlaces i = true → refusedEvent.args[i]? = some a →
      Statement.takesBare refusedEvent.method i = true ∧ diskDraft.Quotable a) ∧
    quoteAt identifierPlaces refusedEvent.args =
      ["\"srv\"", "\"Info\"", "\"Verbose\"", "CHANNEL_ADMIN", "\"Disk\"", "\"Start\"",
        "\"Sector\"", "\"first\"", "s(0)"] ∧
    (stateAfter (applyClause refusedEvent) diskDraft).model.opcodes.keys = ["Start"] ∧
    (stateAfter (applyClause refusedEvent) diskDraft).model.events = ∅ ∧
    applyClause ⟨refusedEvent.method, quoteAt identifierPlaces refusedEvent.args⟩ diskDraft =
      applyClause refusedEvent diskDraft := by
  have hplaces : ∀ e ∈ refusedEvent.args.zipIdx, identifierPlaces e.2 = true →
      Statement.takesBare refusedEvent.method e.2 = true ∧ diskDraft.Quotable e.1 := by
    decide +kernel
  have h : ∀ i a, identifierPlaces i = true → refusedEvent.args[i]? = some a →
      Statement.takesBare refusedEvent.method i = true ∧ diskDraft.Quotable a :=
    fun i a hi ha => hplaces (a, i) (List.mk_mem_zipIdx_iff_getElem?.2 ha) hi
  exact ⟨h, by decide, by decide +kernel, by decide +kernel,
    applyClause_quoteAt diskDraft refusedEvent identifierPlaces h⟩

end Build

end EventSchema
