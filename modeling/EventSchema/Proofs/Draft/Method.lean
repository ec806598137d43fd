import EventSchema.Proofs.Run
import EventSchema.Draft.Statement
import Mathlib.Tactic.Common

/-!
# What the method of a clause says

The method of a clause decides what kind of statement it makes, whatever its arguments
(`hasMethod_of_ofArguments`), and a clause is carried out by reading its statement with the aliases
that there are and carrying that out (`applyClause_eq`).
-/

namespace EventSchema

namespace Statement

/-- The method of the clauses that make a statement. -/
def HasMethod (s : Statement) (method : String) : Prop :=
  match s with
  | .defineProvider _ => method = "PROVIDER"
  | .defineAlias _ _ => method = "ALIAS"
  | .sourceFile _ => method = "SOURCE"
  | .includedFile _ => method = "INCLUDE"
  | .defineChannel _ _ _ => method = "CHANNEL"
  | .defineTask _ => method = "TASK"
  | .defineOpcode _ => method = "OPCODE"
  | .defineTaskOpcode _ _ => method = "TASK_OPCODE"
  | .guardUnnamed name => name = method ∧ (method = "INIT" ∨ method = "DEINIT")
  | .defineEvent _ => isNumber method = true

theorem hasMethod_of_ofArguments {method : String} {args : List String} {s : Statement}
    (h : ofArguments method args = .ok s) : s.HasMethod method := by
  unfold ofArguments at h
  split at h
  -- each method makes one kind of statement, however its arguments are read
  all_goals
    dsimp only at h
    split at h
    all_goals try simp only [bind, Except.bind, pure, Except.pure] at h
    all_goals repeat' split at h
    all_goals cases h
  all_goals first | rfl | exact ⟨rfl, .inl rfl⟩ | exact ⟨rfl, .inr rfl⟩ | assumption

end Statement

namespace Build

variable {c : Source.Clause} {d : Draft}

/-- The statement of a clause is read with the aliases of the draft and then carried out. -/
theorem applyClause_of_ok {s : Statement}
    (h : Statement.ofArguments c.method (c.args.map d.aliased) = .ok s) :
    applyClause c d = s.apply d := by
  change (ofExcept (Statement.ofArguments c.method (c.args.map d.aliased)) >>= (·.apply)) d = _
  rw [h]
  rfl

/-- A clause that cannot be read changes nothing. -/
theorem applyClause_of_error {e : Error}
    (h : Statement.ofArguments c.method (c.args.map d.aliased) = .error e) :
    applyClause c d = .error e d := by
  change (ofExcept (Statement.ofArguments c.method (c.args.map d.aliased)) >>= (·.apply)) d = _
  rw [h]
  rfl

theorem applyClause_eq_ok {d' : Draft} :
    applyClause c d = .ok () d' ↔
      ∃ s, Statement.ofArguments c.method (c.args.map d.aliased) = .ok s ∧
        s.apply d = .ok () d' := by
  cases h : Statement.ofArguments c.method (c.args.map d.aliased) with
  | ok s => simp [applyClause_of_ok h]
  | error e => simp [applyClause_of_error h]

theorem applyClause_eq_error {d' : Draft} {e : Error} :
    applyClause c d = .error e d' ↔
      Statement.ofArguments c.method (c.args.map d.aliased) = .error e ∧ d' = d ∨
      ∃ s, Statement.ofArguments c.method (c.args.map d.aliased) = .ok s ∧
        s.apply d = .error e d' := by
  cases h : Statement.ofArguments c.method (c.args.map d.aliased) with
  | ok s => simp [applyClause_of_ok h]
  | error e' => simp [applyClause_of_error h, eq_comm]

end Build

end EventSchema
