import EventSchema.Proofs.Draft.Interning

/-!
# Events that are refused

An event is added in two changes, each made entirely or not at all, and nothing takes the first one
back. So an event that is refused is not there, nor is its template, but the predefined opcode that
it refers to may be (`defineEvent_refused`).
-/

namespace EventSchema

/-- The severity and the level of a declaration are words of their vocabularies. -/
def EventDecl.Worded (decl : EventDecl) : Prop :=
  (∃ severity, Vocabulary.parse Severity decl.severity = .ok severity) ∧
    ∃ level, Vocabulary.parse Level decl.level = .ok level

/-- A provider with an opcode that it does not have yet. -/
def Provider.withOpcode (p : Provider) (name : String) : Provider :=
  { p with opcodes := p.opcodes.insert name { name } }

namespace Provider

variable {p : Provider} {decl : EventDecl} {severity : Severity} {level : Level} {e : Error}

theorem defineOpcode_of_bringsOpcode (h : decl.BringsOpcode p) :
    p.defineOpcode decl.opcode = p.withOpcode decl.opcode := by
  rw [defineOpcode, withOpcode, Table.insertNew_eq_insert h.notOfProvider]

/-- An event whose references are there is refused for a type of a parameter or for its name. -/
theorem addEvent_eq_error (h : p.addEvent decl severity level = .error e) :
    p.eventFields decl.params = .error e ∨
      p.events.contains decl.symbol = true ∧ e = .duplicateEvent decl.symbol := by
  unfold addEvent at h
  cases hfields : p.eventFields decl.params with
  | error e' =>
    rw [hfields] at h
    cases h
    exact .inl rfl
  | ok fields =>
    rw [hfields] at h
    change (if _ then _ else _) = _ at h
    by_cases hdup : p.events.contains (eventSymbol decl.subsystem decl.task decl.opcode) = true
    · rw [if_pos hdup] at h
      cases h
      exact .inr ⟨hdup, rfl⟩
    · rw [if_neg hdup] at h
      cases h

end Provider

/-- The ways in which an event is refused: for a word, for what it refers to, or when it is
added. -/
theorem Build.defineEvent_eq_error {decl : EventDecl} {d d' : Draft} {e : Error}
    (h : defineEvent decl d = .error e d') :
    ¬ decl.Worded ∧ d' = d ∨
      d.model.prepareEvent decl = .error e ∧ d' = { d with provider := some d.model } ∨
      decl.Worded ∧ ∃ q severity level, d.model.prepareEvent decl = .ok q ∧
        q.addEvent decl severity level = .error e ∧ d' = { d with provider := some q } := by
  rw [defineEvent, bind_eq_error] at h
  rcases h with hseverity | ⟨severity, d₁, hseverity, h⟩
  · obtain ⟨rfl, hword⟩ := word_eq_error hseverity
    exact .inl ⟨fun ⟨⟨a, ha⟩, _⟩ => hword a ha, rfl⟩
  obtain ⟨hparsed, rfl⟩ := word_eq_ok hseverity
  rw [bind_eq_error] at h
  rcases h with hlevel | ⟨level, d₂, hlevel, h⟩
  · obtain ⟨rfl, hword⟩ := word_eq_error hlevel
    exact .inl ⟨fun ⟨_, a, ha⟩ => hword a ha, rfl⟩
  obtain ⟨hparsed', rfl⟩ := word_eq_ok hlevel
  rw [bind_eq_error] at h
  rcases h with hprepare | ⟨⟨⟩, d₃, hprepare, h⟩
  · exact .inr (.inl (update_eq_error.1 hprepare))
  obtain ⟨q, hprepared, rfl⟩ := update_eq_ok.1 hprepare
  obtain ⟨hadd, rfl⟩ := update_eq_error.1 h
  have hworded : decl.Worded := ⟨⟨severity, hparsed⟩, level, hparsed'⟩
  exact .inr (.inr ⟨hworded, q, severity, level, hprepared, hadd, rfl⟩)

/-- **A refused event leaves no event and no template behind.** What it may leave is the predefined
opcode that it is the first to refer to, if what it is refused for comes after that: the type of a
parameter, or an event of its name. -/
theorem defineEvent_refused {decl : EventDecl} {d d' : Draft} {e : Error}
    (h : Build.defineEvent decl d = .error e d') :
    d'.queue = d.queue ∧
      (decl.Worded ∧ decl.BringsOpcode d.model →
        d'.model = d.model.withOpcode decl.opcode ∧
          (d.model.eventFields decl.params = .error e ∨
            d.model.events.contains decl.symbol = true ∧ e = .duplicateEvent decl.symbol)) ∧
      (¬ (decl.Worded ∧ decl.BringsOpcode d.model) → d'.model = d.model) := by
  -- Only the last way comes after a change, and the change is one if the opcode is new.
  rcases Build.defineEvent_eq_error h with
    ⟨hworded, rfl⟩ | ⟨hprepare, rfl⟩ | ⟨hworded, q, severity, level, hprepare, hadd, rfl⟩
  · exact ⟨rfl, fun hbrings => absurd hbrings.1 hworded, fun _ => rfl⟩
  · refine ⟨rfl, fun hbrings => ?_, fun _ => rfl⟩
    rw [Provider.prepareEvent_of_bringsOpcode hbrings.2] at hprepare
    cases hprepare
  · refine ⟨rfl, fun hbrings => ?_, fun hbrings => ?_⟩
    · rw [Provider.prepareEvent_of_bringsOpcode hbrings.2] at hprepare
      cases hprepare
      have hopcode := Provider.defineOpcode_of_bringsOpcode hbrings.2
      refine ⟨hopcode, (Provider.addEvent_eq_error hadd).imp_left fun hfields => ?_⟩
      rwa [Provider.eventFields_of_typedefs rfl] at hfields
    · exact Provider.eq_of_prepareEvent hprepare fun h => hbrings ⟨hworded, h⟩

/-- A channel and a task, for events to be declared in. -/
def networkDraft : Draft where
  provider := some {
    channels := .ofList [("Admin", ⟨"Admin", "Admin", .admin, none⟩)]
    tasks := .ofList [("Net", { name := "Net" })] }

/-- An event with a parameter of a type that there is not. -/
def mistypedEvent : EventDecl :=
  ⟨"srv", "Success", "Info", "Admin", "Net", "Start", [("Float16", "n")], none⟩

theorem defineEvent_mistypedEvent :
    ∃ e, Build.defineEvent mistypedEvent networkDraft =
      .error e { provider := some (networkDraft.model.withOpcode "Start") } :=
  ⟨_, rfl⟩

/-- The event leaves its opcode behind, unless its channel is missing as well. -/
theorem mistypedEvent_refused :
    (∃ e d', Build.defineEvent mistypedEvent networkDraft = .error e d' ∧
        d'.model = networkDraft.model.withOpcode "Start") ∧
      ∃ e d', Build.defineEvent { mistypedEvent with channel := "Debug" } networkDraft =
        .error e d' ∧ d'.model = networkDraft.model := by
  have hworded : mistypedEvent.Worded := ⟨⟨.success, rfl⟩, .informational, rfl⟩
  have hnotOfTask : ¬ networkDraft.model.HasLocalOpcode "Net" "Start" := by
    rintro ⟨t, ht, hopcode⟩
    cases ht
    cases hopcode
  have hbrings : mistypedEvent.BringsOpcode networkDraft.model := ⟨rfl, rfl, hnotOfTask, rfl, rfl⟩
  constructor
  · obtain ⟨e, hrun⟩ := defineEvent_mistypedEvent
    exact ⟨e, _, hrun, ((defineEvent_refused hrun).2.1 ⟨hworded, hbrings⟩).1⟩
  · have hrun : Build.defineEvent { mistypedEvent with channel := "Debug" } networkDraft =
        .error (.eventWithoutChannel "Debug") networkDraft := rfl
    refine ⟨_, _, hrun, (defineEvent_refused hrun).2.2 ?_⟩
    rintro ⟨-, hbrings⟩
    cases hbrings.channel

/-- The opcode of a refused event is not taken back. -/
theorem opcode_left_by_refused_defineEvent :
    networkDraft.model.opcodes.keys = [] ∧
      (∃ e d', Build.defineEvent mistypedEvent networkDraft = .error e d' ∧
        d'.model.opcodes.keys = ["Start"]) ∧
      ¬ ∀ (decl : EventDecl) (d d' : Draft) (e : Error),
        Build.defineEvent decl d = .error e d' → d'.model = d.model := by
  obtain ⟨e, hrun⟩ := defineEvent_mistypedEvent
  refine ⟨rfl, ⟨e, _, hrun, rfl⟩, fun h => ?_⟩
  have hkeys := congrArg (·.opcodes.keys) (h mistypedEvent networkDraft _ e hrun)
  cases hkeys

end EventSchema
