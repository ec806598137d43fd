import EventSchema.Proofs.Draft.Refusal

/-!
# Events that are admitted

An event is defined exactly where it is admissible: its words are known, its channel and its task
are there, its opcode is there or predefined, its parameters have types, and no event has its name
(`Provider.Admissible`). What it leaves is the event as it was declared, the predefined opcode that
it is the first to refer to, the template that it is the first to have, and nothing else
(`Provider.Defined`, `defineEvent_defines_admissible`).
-/

namespace EventSchema

variable {p q : Provider} {decl : EventDecl} {d d' : Draft} {params : List (String × String)}
  {fields : List Field} {e : Event}

namespace Provider

/-! ## Admissible events -/

/-- What a declaration says can be read, what it refers to is there, and its event is new. -/
structure Admissible (p : Provider) (decl : EventDecl) : Prop where
  worded : decl.Worded
  channel : p.channels.contains decl.channel = true
  task : p.tasks.contains decl.task = true
  opcode : p.HasLocalOpcode decl.task decl.opcode ∨ p.opcodes.contains decl.opcode = true ∨
    (predefinedOpcode? decl.opcode).isSome = true
  types : ∀ param ∈ decl.params, p.KnowsType param.1
  fresh : p.events.contains decl.symbol = false

/-- A provider with an event that was declared, and with nothing else that was not there before. -/
structure Defined (p : Provider) (decl : EventDecl) (e : Event) (fields : List Field)
    (q : Provider) : Prop where
  name : e.name = decl.symbol
  subsystem : e.subsystem = decl.subsystem
  severity : Vocabulary.parse Severity decl.severity = .ok e.severity
  level : Vocabulary.parse Level decl.level = .ok e.level
  channel : e.channel = decl.channel
  task : e.task = decl.task
  value : e.value = decl.value
  /-- The event has the opcode of its task if there is one of that name. -/
  ofTask : p.HasLocalOpcode decl.task decl.opcode → e.opcode = .ofTask decl.opcode
  ofProvider : ¬ p.HasLocalOpcode decl.task decl.opcode → e.opcode = .ofProvider decl.opcode
  resolved : List.Forall₂ p.FieldOf decl.params fields
  noTemplate : fields = [] → e.template = none
  template : fields ≠ [] → e.template = some ⟨fields⟩
  events : q.events = p.events.insert decl.symbol e
  /-- An opcode that is only predefined becomes one of the provider, without a number. -/
  newOpcode : ¬ p.HasLocalOpcode decl.task decl.opcode → p.opcodes.contains decl.opcode = false →
    q.opcodes = p.opcodes.insert decl.opcode { name := decl.opcode, value := none }
  sameOpcodes : p.HasLocalOpcode decl.task decl.opcode ∨ p.opcodes.contains decl.opcode = true →
    q.opcodes = p.opcodes
  newTemplate : fields ≠ [] → p.templates.contains fields = false →
    q.templates = p.templates.insert fields ⟨fields⟩
  sameTemplates : fields = [] ∨ p.templates.contains fields = true → q.templates = p.templates
  rest : q = { p with events := q.events, opcodes := q.opcodes, templates := q.templates }

/-! ## Changes of the provider -/

theorem prepareEvent_of_there (hchannel : p.channels.contains decl.channel = true)
    (htask : p.tasks.contains decl.task = true)
    (hopcode : p.HasLocalOpcode decl.task decl.opcode ∨ p.opcodes.contains decl.opcode = true) :
    p.prepareEvent decl = .ok p := by
  obtain ⟨t, ht⟩ := Option.isSome_iff_exists.1 htask
  have hthere : t.opcodes.contains decl.opcode = true ∨ p.opcodes.contains decl.opcode = true := by
    refine hopcode.imp_left ?_
    rintro ⟨t', ht', hlocal⟩
    obtain rfl : t = t' := Option.some.inj (ht.symm.trans ht')
    exact hlocal
  rw [prepareEvent, if_pos hchannel, ht]
  exact if_pos hthere

/-- An admissible event refers to an opcode that is there, or brings in a predefined one. -/
theorem Admissible.there_or_bringsOpcode (h : p.Admissible decl) :
    (p.HasLocalOpcode decl.task decl.opcode ∨ p.opcodes.contains decl.opcode = true) ∨
      decl.BringsOpcode p := by
  by_cases hlocal : p.HasLocalOpcode decl.task decl.opcode
  · exact .inl (.inl hlocal)
  by_cases hglobal : p.opcodes.contains decl.opcode = true
  · exact .inl (.inr hglobal)
  · exact .inr {
      channel := h.channel
      task := h.task
      notOfTask := hlocal
      notOfProvider := Option.not_isSome_iff_eq_none.1 hglobal
      predefined := (h.opcode.resolve_left hlocal).resolve_left hglobal }

/-- Nothing but the opcodes is another one after an event was prepared. -/
theorem Admissible.prepareEvent (h : p.Admissible decl) :
    ∃ opcodes, p.prepareEvent decl = .ok { p with opcodes } := by
  rcases h.there_or_bringsOpcode with hthere | hbrings
  · exact ⟨p.opcodes, prepareEvent_of_there h.channel h.task hthere⟩
  · exact ⟨_, prepareEvent_of_bringsOpcode hbrings⟩

theorem there_of_prepareEvent (h : p.prepareEvent decl = .ok q) :
    p.channels.contains decl.channel = true ∧ p.tasks.contains decl.task = true ∧
      (p.HasLocalOpcode decl.task decl.opcode ∨ p.opcodes.contains decl.opcode = true ∨
        (predefinedOpcode? decl.opcode).isSome = true) := by
  rcases prepareEvent_eq_ok h with ⟨hprepared, -⟩ | ⟨hbrings, -⟩
  · obtain ⟨t, ht, -⟩ := hprepared.task
    exact ⟨hprepared.channel, Option.isSome_iff_exists.2 ⟨t, ht⟩, hprepared.hasOpcode.imp_right .inl⟩
  · exact ⟨hbrings.channel, hbrings.task, .inr (.inr hbrings.predefined)⟩

theorem opcodeRef_of_local {task opcode : String} (h : p.HasLocalOpcode task opcode) :
    p.opcodeRef task opcode = .ofTask opcode := by
  obtain ⟨t, ht, hopcode⟩ := h
  rw [opcodeRef, ht]
  exact if_pos hopcode

theorem opcodeRef_of_not_local {task opcode : String} (h : ¬ p.HasLocalOpcode task opcode) :
    p.opcodeRef task opcode = .ofProvider opcode := by
  rw [opcodeRef]
  cases ht : p.tasks.find? task with
  | none => rfl
  | some t => exact if_neg fun hopcode => h ⟨t, ht, hopcode⟩

/-- Preparing an event brings in its opcode if that is only predefined, and nothing otherwise. -/
theorem opcodes_of_prepareEvent (h : p.prepareEvent decl = .ok q) :
    q = { p with opcodes := q.opcodes } ∧
      (¬ p.HasLocalOpcode decl.task decl.opcode → p.opcodes.contains decl.opcode = false →
        q.opcodes = p.opcodes.insert decl.opcode { name := decl.opcode }) ∧
      (p.HasLocalOpcode decl.task decl.opcode ∨ p.opcodes.contains decl.opcode = true →
        q.opcodes = p.opcodes) := by
  rcases prepareEvent_eq_ok h with ⟨hprepared, rfl⟩ | ⟨hbrings, rfl⟩
  · refine ⟨rfl, fun hlocal hglobal => ?_, fun _ => rfl⟩
    have hopcode := hprepared.hasOpcode.resolve_left hlocal
    exact absurd (hopcode.symm.trans hglobal) (by decide)
  · rw [defineOpcode_of_bringsOpcode hbrings]
    exact ⟨rfl, fun _ _ => rfl, fun hthere => absurd hthere (not_there_of_bringsOpcode hbrings)⟩

theorem interned_of_new (hne : fields ≠ []) (hnew : p.templates.contains fields = false) :
    p.interned fields = p.templates.insert fields ⟨fields⟩ := by
  rw [interned, if_neg (by simpa using hne), Table.insertNew, if_neg (by simp [hnew])]

theorem interned_of_there (h : fields = [] ∨ p.templates.contains fields = true) :
    p.interned fields = p.templates := by
  rw [interned]
  rcases h with rfl | hthere
  · rfl
  · rw [Table.insertNew, if_pos hthere, ite_self]

/-- **An event that is added to a prepared provider** is there as it was declared, with the opcode
and the template that it brings in, and all else is as it was. -/
theorem defined_of_addEvent {r : Provider} {severity : Severity} {level : Level}
    (hseverity : Vocabulary.parse Severity decl.severity = .ok severity)
    (hlevel : Vocabulary.parse Level decl.level = .ok level)
    (hprepare : p.prepareEvent decl = .ok q) (hadd : q.addEvent decl severity level = .ok r) :
    p.events.contains decl.symbol = false ∧ ∃ e fields, p.Defined decl e fields r := by
  have hsameFields := eventFields_of_typedefs (tasks_of_prepareEvent hprepare).2 decl.params
  obtain ⟨hq, hnewOpcode, hsameOpcodes⟩ := opcodes_of_prepareEvent hprepare
  generalize q.opcodes = opcodes at hq hnewOpcode hsameOpcodes
  subst hq
  obtain ⟨fields, hfields, fresh, rfl⟩ := addEvent_eq_ok hadd
  have hresolved := eventFields_eq_ok.1 (hsameFields.symm.trans hfields)
  refine ⟨Bool.eq_false_iff.2 (Option.not_isSome_iff_eq_none.2 fresh), ?_⟩
  exact ⟨_, fields, {
    name := rfl
    subsystem := rfl
    severity := hseverity
    level := hlevel
    channel := rfl
    task := rfl
    value := rfl
    ofTask := opcodeRef_of_local
    ofProvider := opcodeRef_of_not_local
    resolved := hresolved
    noTemplate := fun h => if_pos (by simp [h])
    template := fun h => if_neg (by simpa using h)
    events := rfl
    newOpcode := hnewOpcode
    sameOpcodes := hsameOpcodes
    newTemplate := interned_of_new
    sameTemplates := interned_of_there
    rest := rfl }⟩

end Provider

/-! ## Events that are defined -/

/-- **An event is defined exactly where it is admissible.** -/
theorem defineEvent_isOk_iff :
    (∃ d', Build.defineEvent decl d = .ok () d') ↔ d.model.Admissible decl := by
  constructor
  · rintro ⟨d', h⟩
    obtain ⟨severity, level, q, r, hseverity, hlevel, hprepare, hadd, -⟩ := defineEvent_steps h
    obtain ⟨hchannel, htask, hopcode⟩ := Provider.there_of_prepareEvent hprepare
    obtain ⟨fresh, e, fields, hdefined⟩ :=
      Provider.defined_of_addEvent hseverity hlevel hprepare hadd
    exact {
      worded := ⟨⟨severity, hseverity⟩, level, hlevel⟩
      channel := hchannel
      task := htask
      opcode := hopcode
      types := fun param hparam => Provider.exists_fieldOf.1
        (exists_forall₂.1 ⟨fields, hdefined.resolved⟩ param hparam)
      fresh := fresh }
  · intro h
    cases hrun : Build.defineEvent decl d with
    | ok u d' => exact ⟨d', rfl⟩
    | error err d' =>
      obtain ⟨opcodes, hprepare⟩ := h.prepareEvent
      obtain ⟨fields, hfields⟩ : ∃ fields, d.model.eventFields decl.params = .ok fields := by
        simp only [Provider.eventFields_eq_ok, exists_forall₂]
        exact fun param hparam => Provider.exists_fieldOf.2 (h.types param hparam)
      rcases Build.defineEvent_eq_error hrun with
        ⟨hworded, -⟩ | ⟨hrefused, -⟩ | ⟨-, q, severity, level, hprepared, hrefused, -⟩
      · exact absurd h.worded hworded
      · rw [hprepare] at hrefused
        cases hrefused
      · rw [hprepare] at hprepared
        cases hprepared
        rcases Provider.addEvent_eq_error hrefused with hrefused | ⟨hdup, -⟩
        · cases hfields.symm.trans ((Provider.eventFields_of_typedefs rfl _).symm.trans hrefused)
        · exact absurd (hdup.symm.trans h.fresh) (by decide)

/-- **An event is defined as it is declared.** The definition succeeds exactly where the event is
admissible. It leaves the event, with the opcode and the template that it brings in, and all else
is as it was. -/
theorem defineEvent_defines_admissible (decl : EventDecl) (d : Draft) :
    ((∃ d', Build.defineEvent decl d = .ok () d') ↔ d.model.Admissible decl) ∧
      ∀ d', Build.defineEvent decl d = .ok () d' → d'.queue = d.queue ∧
        ∃ e fields, d.model.Defined decl e fields d'.model := by
  refine ⟨defineEvent_isOk_iff, fun d' h => ?_⟩
  obtain ⟨severity, level, q, r, hseverity, hlevel, hprepare, hadd, rfl⟩ := defineEvent_steps h
  exact ⟨rfl, (Provider.defined_of_addEvent hseverity hlevel hprepare hadd).2⟩

/-- A draft with a typedef that hides a word of the vocabulary. -/
def typedefDraft : Draft :=
  { networkDraft with
    provider := some { networkDraft.model with typedefs := .ofList [("UInt32", .int32)] } }

/-- An event with a predefined opcode, and with a parameter of that type. -/
def typedEvent : EventDecl := { mistypedEvent with params := [("UInt32", "n")] }

theorem defineEvent_defines_typedEvent :
    typedefDraft.model.Admissible typedEvent ∧
      ∃ d', Build.defineEvent typedEvent typedefDraft = .ok () d' ∧
        d'.model.templates.keys = [[⟨.int32, "n"⟩]] ∧ d'.model.opcodes.keys = ["Start"] ∧
        d'.queue = typedefDraft.queue ∧
        ∃ e fields, typedefDraft.model.Defined typedEvent e fields d'.model := by
  obtain ⟨d', hrun, htemplates, hopcodes⟩ :
      ∃ d', Build.defineEvent typedEvent typedefDraft = .ok () d' ∧
        d'.model.templates.keys = [[⟨.int32, "n"⟩]] ∧ d'.model.opcodes.keys = ["Start"] :=
    ⟨_, rfl, rfl, rfl⟩
  have hdefines := defineEvent_defines_admissible typedEvent typedefDraft
  exact ⟨hdefines.1.1 ⟨d', hrun⟩, d', hrun, htemplates, hopcodes, hdefines.2 d' hrun⟩

end EventSchema
