import EventSchema.Proofs.Draft.Method
import EventSchema.Proofs.Draft.Operation

/-!
# Operations that fail as a whole

An operation that makes at most one change fails before it has changed anything: what it has to read
is read first, and the change itself is made entirely or not at all (`unchanged_of_refused`). Only
the properties of a provider and the opcode of an event are set one after the other, and only
documents and the assignment of numbers are made of several operations.
-/

namespace EventSchema

/-! ## Steps -/

/-- A step that changes neither the model nor the queue where it fails. -/
def Atomic (x : Build Unit) : Prop :=
  ∀ (d d' : Draft) (e : Error), x d = .error e d' → d'.model = d.model ∧ d'.queue = d.queue

theorem atomic_update (change : Provider → Except Error Provider) :
    Atomic (Build.update change) := by
  intro d d' e h
  obtain ⟨-, rfl⟩ := Build.update_eq_error.1 h
  exact ⟨rfl, rfl⟩

/-- The queue takes every change. -/
theorem atomic_updateQueue (change : WorkQueue → WorkQueue) :
    Atomic (Build.updateQueue change) :=
  fun _ _ _ h => by cases h

/-! ## Clauses -/

/-- The methods of clauses that make at most one change. -/
def IsSingleMethod (method : String) : Prop :=
  method ≠ "PROVIDER" ∧ Statement.isNumber method = false

instance (method : String) : Decidable (IsSingleMethod method) :=
  inferInstanceAs (Decidable (_ ∧ _))

theorem Statement.atomic_apply {s : Statement} {method : String} (h : s.HasMethod method)
    (single : IsSingleMethod method) : Atomic s.apply := by
  cases s with
  | defineProvider => exact absurd h single.1
  | defineEvent =>
    have hevent : isNumber method = true := h
    rw [single.2] at hevent
    cases hevent
  | defineAlias name value => exact atomic_update (·.defineAlias name value)
  | sourceFile path => exact atomic_updateQueue (·.pushBack path)
  | includedFile path => exact atomic_updateQueue (·.pushFront path)
  | defineChannel id name type => exact atomic_update (·.defineChannel id name type)
  | defineTask name => exact atomic_update fun p => .ok (p.defineTask name)
  | defineOpcode name => exact atomic_update fun p => .ok (p.defineOpcode name)
  | defineTaskOpcode task opcode => exact atomic_update (·.defineTaskOpcode task opcode)
  | guardUnnamed method =>
    rw [Statement.apply, Build.guardUnnamed]
    exact atomic_update _

/-- A clause fails while its arguments are read, or where its statement does. -/
theorem Build.atomic_applyClause {c : Source.Clause} (single : IsSingleMethod c.method) :
    Atomic (applyClause c) := by
  intro d d' e h
  rcases applyClause_eq_error.1 h with ⟨-, rfl⟩ | ⟨s, hs, happly⟩
  · exact ⟨rfl, rfl⟩
  · exact Statement.atomic_apply (Statement.hasMethod_of_ofArguments hs) single d d' e happly

/-! ## Operations -/

/-- Operations that make at most one change. -/
def Operation.IsSingle : Operation → Prop
  | .apply c => IsSingleMethod c.method
  | .defineAlias _ _ | .defineTypedef _ _ | .defineChannel _ _ _ | .defineTask _ | .defineOpcode _
  | .defineTaskOpcode _ _ | .defineLocalOpcode _ _ => True
  | .pinChannel _ _ | .pinTask _ _ | .pinOpcode _ _ | .pinTaskOpcode _ _ _ => True
  | .updateQueue _ => True
  | .defineProvider _ | .defineEvent _ | .merge _ | .assignNumbers => False

/-- **A refused operation has changed nothing**, unless it is made of several changes: the model is
as it was, and so is the queue. -/
theorem unchanged_of_refused {op : Operation} (single : op.IsSingle) {d d' : Draft} {e : Error}
    (refused : op.run d = .error e d') : d'.model = d.model ∧ d'.queue = d.queue := by
  have atomic : Atomic op.run := by
    cases op.view with
    | single definition run_eq =>
      rw [run_eq]
      exact atomic_update _
    | apply c => exact Build.atomic_applyClause single
    | updateQueue change => exact atomic_updateQueue change
    | merge | defineProvider | defineEvent | assignNumbers => exact single.elim
  exact atomic d d' e refused

/-- A task with a pinned opcode, an alias for a name that no task has, and a file that waits. -/
def pinnedDraft : Draft where
  provider := some {
    aliases := .ofList [("NET", "Disk")]
    tasks := .ofList [
      ("Net", { name := "Net", opcodes := .ofList [("Spin", ⟨"Spin", some 12⟩)] })] }
  queue := ⟨["a.h"]⟩

/-- What an alias stands for is refused, a number contradicts another one, and a draft without a
provider gets none that says anything. -/
theorem unchanged_of_refused_pinned :
    (∃ d', Build.applyClause ⟨"TASK_OPCODE", ["NET", "Stop"]⟩ pinnedDraft =
        .error (.taskOpcodeWithoutTask "Disk") d' ∧
      d'.model = pinnedDraft.model ∧ d'.queue = pinnedDraft.queue) ∧
    (∃ d', Build.pinTaskOpcode "Net" "Spin" 13 pinnedDraft =
        .error (.redefined .taskOpcodeValue (.number 12) (.number 13)) d' ∧
      d'.model = pinnedDraft.model ∧ d'.queue = pinnedDraft.queue) ∧
    ∃ d', Build.pinTask "Net" 1 {} = .error (.noTaskToPin "Net") d' ∧
      d'.model = ({} : Draft).model ∧ d'.queue = ({} : Draft).queue := by
  refine ⟨⟨_, rfl, ?_⟩, ⟨_, rfl, ?_⟩, ⟨_, rfl, ?_⟩⟩
  · have single : IsSingleMethod "TASK_OPCODE" := by decide
    exact @unchanged_of_refused (.apply ⟨"TASK_OPCODE", ["NET", "Stop"]⟩) single _ _ _ rfl
  · exact @unchanged_of_refused (.pinTaskOpcode "Net" "Spin" 13) trivial _ _ _ rfl
  · exact @unchanged_of_refused (.pinTask "Net" 1) trivial _ _ _ rfl

end EventSchema
