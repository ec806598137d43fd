import EventSchema.Proofs.Draft.Least

/-!
# The order of declarations

Declarations and events that succeed in two orders come to the same draft, and so to the same numbers
(`declarations_in_any_order`). Neighbours need not be exchangeable for that: a pin has to follow what
it pins. Declarations come to the least provider above the start that has all their marks, and then
events do, whose definitions leave tasks and typedefs alone, so what is looked up there for an event
is the same in every order.
-/

namespace EventSchema

open EventSchema.Numbering (Filled)

variable {d e : Draft} {decl : EventDecl}

theorem Build.word_eq_ok {α : Type} [Vocabulary α] {text : String} {a : α}
    (h : Build.word α text d = .ok a e) : Vocabulary.parse α text = .ok a ∧ e = d := by
  unfold Build.word at h
  cases hparse : Vocabulary.parse α text with
  | ok b =>
    rw [hparse] at h
    cases h
    exact ⟨rfl, rfl⟩
  | error fault =>
    rw [hparse] at h
    cases h

theorem Build.word_eq_error {α : Type} [Vocabulary α] {text : String} {d d' : Draft} {e : Error}
    (h : Build.word α text d = .error e d') : d' = d ∧ ∀ a, Vocabulary.parse α text ≠ .ok a := by
  unfold Build.word at h
  cases hparse : Vocabulary.parse α text with
  | ok a =>
    rw [hparse] at h
    cases h
  | error w =>
    rw [hparse] at h
    cases h
    exact ⟨rfl, nofun⟩

namespace Provider

variable {p q r : Provider} {severity : Severity} {level : Level} {fields : List Field}

/-! ## What events look up -/

/-- A provider below another one with the same tasks and typedefs. -/
structure BelowByEvents (p q : Provider) : Prop where
  below : p.Below q
  tasks : q.tasks = p.tasks
  typedefs : q.typedefs = p.typedefs

instance : IsTrans Provider BelowByEvents where
  trans _ _ _ hpq hqr :=
    ⟨trans_of Below hpq.below hqr.below, hqr.tasks.trans hpq.tasks,
      hqr.typedefs.trans hpq.typedefs⟩

instance : Std.Antisymm BelowByEvents where
  antisymm _ _ hpq hqp := antisymm_of Below hpq.below hqp.below

theorem eventFields_of_typedefs (h : q.typedefs = p.typedefs) (params : List (String × String)) :
    q.eventFields params = p.eventFields params := by
  simp only [eventFields, fieldType, h]

theorem declared_of_tasks (h : q.tasks = p.tasks) :
    q.declared decl severity level fields = p.declared decl severity level fields := by
  simp only [declared, opcodeRef, h]

theorem hasLocalOpcode_of_tasks (h : q.tasks = p.tasks) {task opcode : String} :
    q.HasLocalOpcode task opcode ↔ p.HasLocalOpcode task opcode := by
  simp only [HasLocalOpcode, h]

/-! ## What an event leaves behind -/

/-- An event with these fields, as it was declared but for its number, and what it refers to. -/
structure HasEvent (p : Provider) (decl : EventDecl) (severity : Severity) (level : Level)
    (fields : List Field) : Prop where
  opcode : p.HasLocalOpcode decl.task decl.opcode ∨ p.opcodes.contains decl.opcode = true
  template : fields ≠ [] → p.templates.contains fields = true
  event : ∃ e, p.events.find? (eventSymbol decl.subsystem decl.task decl.opcode) = some e ∧
    Filled (p.declared decl severity level fields) e

/-- An event is there as its declaration reads where it stands. -/
def Defines (decl : EventDecl) (p : Provider) : Prop :=
  ∃ severity level fields, Vocabulary.parse Severity decl.severity = .ok severity ∧
    Vocabulary.parse Level decl.level = .ok level ∧ p.eventFields decl.params = .ok fields ∧
    p.HasEvent decl severity level fields

theorem HasEvent.of_below (h : p.HasEvent decl severity level fields) (hpq : p.BelowByEvents q) :
    q.HasEvent decl severity level fields where
  opcode := h.opcode.imp (hasLocalOpcode_of_tasks hpq.tasks).2 hpq.below.grown.opcodes.contains
  template hne := hpq.below.grown.templates.contains (h.template hne)
  event := by
    obtain ⟨e, he, hfilled⟩ := h.event
    obtain ⟨e', he', hfilled'⟩ := hpq.below.grown.events _ e he
    rw [declared_of_tasks hpq.tasks]
    exact ⟨e', he', trans_of Filled hfilled hfilled'⟩

theorem defines_of_below (hpq : p.BelowByEvents q) (h : Defines decl p) : Defines decl q := by
  obtain ⟨severity, level, fields, hseverity, hlevel, hfields, hevent⟩ := h
  refine ⟨severity, level, fields, hseverity, hlevel, ?_, hevent.of_below hpq⟩
  rw [eventFields_of_typedefs hpq.typedefs, hfields]

/-! ## Adding an event -/

theorem tasks_of_prepareEvent (h : p.prepareEvent decl = .ok q) :
    q.tasks = p.tasks ∧ q.typedefs = p.typedefs := by
  rcases prepareEvent_eq_ok h with ⟨-, rfl⟩ | ⟨-, rfl⟩ <;> exact ⟨rfl, rfl⟩

/-- Preparing an event brings in no more than a provider with the event has. -/
theorem grown_of_prepareEvent (h : p.prepareEvent decl = .ok q) (hpr : p.BelowByEvents r)
    (hevent : r.HasEvent decl severity level fields) : q.Grown r := by
  rcases prepareEvent_eq_ok h with ⟨-, rfl⟩ | ⟨hbrings, rfl⟩
  · exact hpr.below.grown
  · have hglobal : r.opcodes.contains decl.opcode = true := by
      refine hevent.opcode.resolve_left fun hlocal => ?_
      exact hbrings.notOfTask ((hasLocalOpcode_of_tasks hpr.tasks).1 hlocal)
    exact grown_defineOpcode hpr.below hglobal

/-- Interning a template brings in no more than a provider with the template has. -/
theorem extends_interned_of_below (hpr : p.Below r)
    (h : fields ≠ [] → r.templates.contains fields = true) :
    Table.Extends Eq (p.interned fields) r.templates := by
  rw [interned]
  split
  · exact hpr.grown.templates
  · next hne =>
    obtain ⟨t, ht⟩ := Option.isSome_iff_exists.1 (h (by simpa using hne))
    refine hpr.grown.templates.insertNew fun fresh => ⟨t, ht, ?_⟩
    have hfields : t.fields = fields := hpr.templates fields t fresh ht
    rw [← hfields]

end Provider

open Provider

theorem defineEvent_steps (h : Build.defineEvent decl d = .ok () e) :
    ∃ severity level q r, Vocabulary.parse Severity decl.severity = .ok severity ∧
      Vocabulary.parse Level decl.level = .ok level ∧ d.model.prepareEvent decl = .ok q ∧
      q.addEvent decl severity level = .ok r ∧ e = { d with provider := some r } := by
  obtain ⟨severity, _, hword, hlater⟩ := bind_eq_ok.1 h
  obtain ⟨hseverity, rfl⟩ := Build.word_eq_ok hword
  obtain ⟨level, _, hword', hevent⟩ := bind_eq_ok.1 hlater
  obtain ⟨hlevel, rfl⟩ := Build.word_eq_ok hword'
  obtain ⟨q, r, hq, hr, rfl⟩ := Build.event_of_ok hevent
  exact ⟨severity, level, q, r, hseverity, hlevel, hq, hr, rfl⟩

theorem defineEvent_eq_ok (h : Build.defineEvent decl d = .ok () e) :
    ∃ severity level q fields, Vocabulary.parse Severity decl.severity = .ok severity ∧
      Vocabulary.parse Level decl.level = .ok level ∧ d.model.prepareEvent decl = .ok q ∧
      q.eventFields decl.params = .ok fields ∧
      e = { d with provider := some { q with
        templates := q.interned fields
        events := q.events.insert (eventSymbol decl.subsystem decl.task decl.opcode)
          (q.declared decl severity level fields) } } := by
  obtain ⟨severity, level, q, r, hseverity, hlevel, hq, hr, rfl⟩ := defineEvent_steps h
  obtain ⟨fields, hfields, -, rfl⟩ := addEvent_eq_ok hr
  exact ⟨severity, level, q, fields, hseverity, hlevel, hq, hfields, rfl⟩

/-- **An event settles**, among providers with the same tasks and typedefs. -/
theorem settles_defineEvent (decl : EventDecl) :
    Settles BelowByEvents (Build.defineEvent decl) (Defines decl) where
  queue d e h := by
    obtain ⟨_, _, _, _, -, -, -, -, rfl⟩ := defineEvent_eq_ok h
    rfl
  there d e h := by
    obtain ⟨_, _, _, _, -, -, -, -, rfl⟩ := defineEvent_eq_ok h
    rfl
  grows d e h := by
    have hbelow := below_of_changes (Build.changes_of_defineEvent h).model
    obtain ⟨_, _, q, _, -, -, hq, -, rfl⟩ := defineEvent_eq_ok h
    obtain ⟨htasks, htypedefs⟩ := tasks_of_prepareEvent hq
    exact ⟨hbelow, htasks, htypedefs⟩
  left d e h := by
    obtain ⟨severity, level, q, fields, hseverity, hlevel, hq, hfields, rfl⟩ := defineEvent_eq_ok h
    refine ⟨severity, level, fields, hseverity, hlevel, hfields, ?_, fun hne => ?_, ?_⟩
    · exact (marks_prepareEvent decl).left d.model q hq
    · have hinterned : q.interned fields = q.templates.insertNew fields ⟨fields⟩ :=
        if_neg (by simpa using hne)
      change (q.interned fields).contains fields = true
      rw [hinterned]
      exact Table.contains_insertNew _
    · exact ⟨_, (Table.find?_insert _ _ _ _).trans (if_pos rfl), refl_of Filled _⟩
  kept p q := defines_of_below
  least d e r h hr hmark := by
    obtain ⟨severity, level, q, fields, hseverity, hlevel, hq, hfields, rfl⟩ := defineEvent_eq_ok h
    obtain ⟨htasks, htypedefs⟩ := tasks_of_prepareEvent hq
    obtain ⟨severity', level', fields', hseverity', hlevel', hfields', hevent⟩ := hmark
    -- what the declaration reads as is the same in both providers
    obtain rfl : severity = severity' := Except.ok.inj (hseverity.symm.trans hseverity')
    obtain rfl : level = level' := Except.ok.inj (hlevel.symm.trans hlevel')
    have hrTypedefs : r.typedefs = q.typedefs := hr.typedefs.trans htypedefs.symm
    rw [eventFields_of_typedefs hrTypedefs, hfields] at hfields'
    cases hfields'
    have hrTasks : r.tasks = q.tasks := hr.tasks.trans htasks.symm
    have hqr : q.Grown r := grown_of_prepareEvent hq hr hevent
    have hqBelow : q.Below r :=
      hr.below.of_between (grown_of_changes (changes_prepareEvent hq)) hqr
    obtain ⟨f, hf, hfilled⟩ := hevent.event
    rw [declared_of_tasks hrTasks] at hfilled
    refine ⟨hr.below.of_between ?_ ?_, hrTasks, hrTypedefs⟩
    · exact grown_of_changes (Build.changes_of_defineEvent h).model
    · exact { hqr with
        templates := extends_interned_of_below hqBelow hevent.template
        events := hqr.events.insert hf hfilled }

/-! ## Reordering -/

/-- **Declaration order does not matter.** Whatever the draft they start from, where declarations
followed by events succeed in two orders, they come to the same draft and are given the same
numbers. -/
theorem declarations_in_any_order {D D' : List Operation} {E E' : List EventDecl} {d d₁ d₂ : Draft}
    (declares : ∀ op ∈ D, op.Declares) (permD : D.Perm D') (permE : E.Perm E')
    (first : (D ++ E.map Operation.defineEvent).forM Operation.run d = .ok () d₁)
    (second : (D' ++ E'.map Operation.defineEvent).forM Operation.run d = .ok () d₂) :
    d₁ = d₂ ∧ Build.assignNumbers d₁ = Build.assignNumbers d₂ := by
  simp only [List.forM_eq_forM, List.forM_append, List.forM_map] at first second
  obtain ⟨_, m₁, hD, hE⟩ := bind_eq_ok.1 first
  obtain ⟨_, m₂, hD', hE'⟩ := bind_eq_ok.1 second
  have hm : m₁ = m₂ := forM_perm permD (fun op hop => op.exists_settles (declares op hop)) hD hD'
  subst hm
  have heq : d₁ = d₂ := forM_perm permE (fun decl _ => ⟨_, settles_defineEvent decl⟩) hE hE'
  exact ⟨heq, by rw [heq]⟩

/-- A channel, and a task with an opcode of its own, each before its number is pinned. -/
def pinnedDeclarations : List Operation × List Operation :=
  ([.defineChannel "Admin" "Admin" .admin, .pinChannel "Admin" 16],
    [.defineTask "Net", .pinTask "Net" 5, .defineLocalOpcode "Net" "Read",
      .pinTaskOpcode "Net" "Read" 11])

/-- Two events with the same fields. The second one brings in a predefined opcode. -/
def readAndStart : List EventDecl :=
  [⟨"srv", "Success", "Informational", "Admin", "Net", "Read", [("Int32", "n")], none⟩,
    ⟨"srv", "Success", "Informational", "Admin", "Net", "Start", [("Int32", "n")], some 7⟩]

theorem declarations_in_any_order_pinned :
    ∃ d₁ d₂,
      (pinnedDeclarations.1 ++ pinnedDeclarations.2 ++
        readAndStart.map Operation.defineEvent).forM Operation.run {} = .ok () d₁ ∧
      (pinnedDeclarations.2 ++ pinnedDeclarations.1 ++
        readAndStart.reverse.map Operation.defineEvent).forM Operation.run {} = .ok () d₂ ∧
      d₁.model.events.keys = ["srv_Net_Read", "srv_Net_Start"] ∧
      d₁ = d₂ ∧ Build.assignNumbers d₁ = Build.assignNumbers d₂ := by
  have declares : ∀ op ∈ pinnedDeclarations.1 ++ pinnedDeclarations.2, op.Declares := by
    simp [pinnedDeclarations, Operation.Declares]
  obtain ⟨d₁, first, hkeys⟩ : ∃ d₁,
      (pinnedDeclarations.1 ++ pinnedDeclarations.2 ++
        readAndStart.map Operation.defineEvent).forM Operation.run {} = .ok () d₁ ∧
      d₁.model.events.keys = ["srv_Net_Read", "srv_Net_Start"] := by
    decide +kernel
  obtain ⟨d₂, second, -⟩ : ∃ d₂,
      (pinnedDeclarations.2 ++ pinnedDeclarations.1 ++
        readAndStart.reverse.map Operation.defineEvent).forM Operation.run {} = .ok () d₂ ∧
      d₂.model.events.keys = ["srv_Net_Read", "srv_Net_Start"] := by
    decide +kernel
  exact ⟨d₁, d₂, first, second, hkeys, declarations_in_any_order declares List.perm_append_comm
    (List.reverse_perm readAndStart).symm first second⟩

end EventSchema
