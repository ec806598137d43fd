import EventSchema.Proofs.Draft.Admission
import EventSchema.Proofs.Draft.TemplateId

/-!
# Events with one symbol

An event is known by its symbol, which is all that is left of the names it is declared with. So it
is refused as a duplicate for an event of its symbol, and for no other (`duplicate_of_symbol`), and
events with different symbols can be defined side by side. Names of letters and digits can be read
off the symbol (`EventNames.eq_of_symbol_eq`), so for them only an event of the same names is a
duplicate. An underscore in a name may be one between two names as well.
-/

namespace EventSchema

variable {p q : Provider} {decl decl' : EventDecl} {d d' : Draft} {e : Event} {name : String}
  {params : List (String × String)}

/-! ## Names -/

/-- The names that make up the symbol of an event. -/
structure EventNames where
  subsystem : String
  task : String
  opcode : String
  deriving DecidableEq

namespace EventNames

/-- The symbol of an event with these names. -/
def symbol (n : EventNames) : String := eventSymbol n.subsystem n.task n.opcode

/-- Names of letters and digits. The name of the opcode may have underscores, as the predefined
ones do. -/
structure Plain (n : EventNames) : Prop where
  subsystem : ∀ c ∈ n.subsystem.toList, c.isAlphanum = true
  task : ∀ c ∈ n.task.toList, c.isAlphanum = true
  opcode : ∀ c ∈ n.opcode.toList, c.isAlphanum = true ∨ c = '_'

end EventNames

def EventDecl.names (decl : EventDecl) : EventNames := ⟨decl.subsystem, decl.task, decl.opcode⟩

def Event.names (e : Event) : EventNames := ⟨e.subsystem, e.task, e.opcode.name⟩

theorem toList_eventSymbol (subsystem task opcode : String) :
    (eventSymbol subsystem task opcode).toList =
      (symbolPart subsystem).toList ++ '_' :: ((symbolPart task).toList ++
        '_' :: (symbolPart opcode).toList) := by
  change (symbolPart subsystem ++ "_" ++ symbolPart task ++ "_" ++ symbolPart opcode).toList = _
  simp

theorem symbolPart_of_plain {s : String} (h : ∀ c ∈ s.toList, c.isAlphanum = true ∨ c = '_') :
    symbolPart s = s := by
  have hsame : (s.toList.map fun c => if c.isAlphanum then c else '_') = s.toList := by
    refine (List.map_congr_left fun c hc => ?_).trans (List.map_id _)
    rcases h c hc with hplain | rfl
    · exact if_pos hplain
    · rfl
  rw [symbolPart, hsame, String.ofList_toList]

theorem underscore_notMem {s : String} (h : ∀ c ∈ s.toList, c.isAlphanum = true) :
    '_' ∉ s.toList := by
  intro hmem
  have hplain := h '_' hmem
  revert hplain
  decide

/-- **Plain names can be read off the symbol.** The first two have no underscores, so the first two
underscores of the symbol are those between the names. -/
theorem EventNames.eq_of_symbol_eq {n m : EventNames} (hn : n.Plain) (hm : m.Plain)
    (h : n.symbol = m.symbol) : n = m := by
  have hlist := congrArg String.toList h
  rw [symbol, symbol, toList_eventSymbol, toList_eventSymbol,
    symbolPart_of_plain fun c hc => .inl (hn.subsystem c hc),
    symbolPart_of_plain fun c hc => .inl (hn.task c hc), symbolPart_of_plain hn.opcode,
    symbolPart_of_plain fun c hc => .inl (hm.subsystem c hc),
    symbolPart_of_plain fun c hc => .inl (hm.task c hc), symbolPart_of_plain hm.opcode] at hlist
  obtain ⟨hsubsystem, hrest⟩ := append_separator_inj (underscore_notMem hn.subsystem)
    (underscore_notMem hm.subsystem) hlist
  obtain ⟨htask, hopcode⟩ := append_separator_inj (underscore_notMem hn.task)
    (underscore_notMem hm.task) hrest
  cases n
  cases m
  cases String.toList_inj.1 hsubsystem
  cases String.toList_inj.1 htask
  cases String.toList_inj.1 hopcode
  rfl

/-- The predefined names of opcodes are plain. -/
theorem plain_of_predefined {opcode : String} (h : (predefinedOpcode? opcode).isSome = true) :
    ∀ c ∈ opcode.toList, c.isAlphanum = true ∨ c = '_' := by
  have hall : (predefinedOpcodes.all fun e =>
      e.1.toList.all fun c => decide (c.isAlphanum = true ∨ c = '_')) = true := by decide
  obtain ⟨value, hvalue⟩ := Option.isSome_iff_exists.1 h
  obtain ⟨e, he, -⟩ := Option.map_eq_some_iff.1 hvalue
  have hname : e.1 = opcode := by simpa using List.find?_some he
  have hplain := List.all_eq_true.1 hall e (List.mem_of_find?_eq_some he)
  exact fun c hc => of_decide_eq_true (List.all_eq_true.1 hplain c (hname ▸ hc))

/-! ## Duplicates -/

theorem mapM_eq_error {ε α β : Type} {f : α → Except ε β} {l : List α} {fault : ε}
    (h : l.mapM f = .error fault) : ∃ a ∈ l, f a = .error fault := by
  induction l with
  | nil => cases h
  | cons a l ih =>
    rw [List.mapM_cons] at h
    cases ha : f a with
    | error fault' =>
      rw [ha] at h
      cases h
      exact ⟨a, List.mem_cons_self, ha⟩
    | ok b =>
      cases hl : l.mapM f with
      | error fault' =>
        rw [ha, hl] at h
        cases h
        obtain ⟨x, hx, hfault⟩ := ih hl
        exact ⟨x, List.mem_cons_of_mem a hx, hfault⟩
      | ok bs =>
        rw [ha, hl] at h
        cases h

namespace Provider

theorem eventFields_ne_duplicate : p.eventFields params ≠ .error (.duplicateEvent name) := by
  intro h
  obtain ⟨param, -, hparam⟩ := mapM_eq_error h
  split at hparam <;> cases hparam

theorem prepareEvent_ne_duplicate : p.prepareEvent decl ≠ .error (.duplicateEvent name) := by
  intro h
  unfold prepareEvent at h
  repeat' split at h
  all_goals cases h

theorem events_of_prepareEvent (h : p.prepareEvent decl = .ok q) : q.events = p.events := by
  rw [(opcodes_of_prepareEvent h).1]

end Provider

theorem Build.word_ne_duplicate {α : Type} [Vocabulary α] {text : String} :
    Build.word α text d ≠ .error (.duplicateEvent name) d' := by
  intro h
  rw [word] at h
  cases hparse : Vocabulary.parse α text <;> rw [hparse] at h <;> cases h

/-- **An event is a duplicate of an event with its symbol.** -/
theorem contains_of_duplicate
    (h : Build.defineEvent decl d = .error (.duplicateEvent name) d') :
    name = decl.symbol ∧ d.model.events.contains name = true := by
  rw [Build.defineEvent, bind_eq_error] at h
  rcases h with hseverity | ⟨severity, d₁, hseverity, h⟩
  · exact absurd hseverity Build.word_ne_duplicate
  obtain ⟨-, rfl⟩ := Build.word_eq_ok hseverity
  rw [bind_eq_error] at h
  rcases h with hlevel | ⟨level, d₂, hlevel, h⟩
  · exact absurd hlevel Build.word_ne_duplicate
  obtain ⟨-, rfl⟩ := Build.word_eq_ok hlevel
  rw [bind_eq_error] at h
  rcases h with hprepare | ⟨⟨⟩, d₃, hprepare, h⟩
  · exact absurd (Build.update_eq_error.1 hprepare).1 Provider.prepareEvent_ne_duplicate
  obtain ⟨q, hprepared, rfl⟩ := Build.update_eq_ok.1 hprepare
  rcases Provider.addEvent_eq_error (Build.update_eq_error.1 h).1 with hfields | ⟨hdup, heq⟩
  · exact absurd hfields Provider.eventFields_ne_duplicate
  · cases heq
    rw [Draft.model, Option.getD_some, Provider.events_of_prepareEvent hprepared] at hdup
    exact ⟨rfl, hdup⟩

/-! ## Side by side -/

theorem defined_of_defineEvent (h : Build.defineEvent decl d = .ok () d') :
    ∃ e fields, d.model.Defined decl e fields d'.model := by
  obtain ⟨severity, level, q, r, hseverity, hlevel, hprepare, hadd, rfl⟩ := defineEvent_steps h
  exact (Provider.defined_of_addEvent hseverity hlevel hprepare hadd).2

theorem Provider.Defined.names {fields : List Field} (h : p.Defined decl e fields q) :
    e.names = decl.names := by
  have hopcode : e.opcode.name = decl.opcode := by
    by_cases hlocal : p.HasLocalOpcode decl.task decl.opcode
    · rw [h.ofTask hlocal]
      rfl
    · rw [h.ofProvider hlocal]
      rfl
  rw [Event.names, EventDecl.names, h.subsystem, h.task, hopcode]

/-- An admissible event stays so when an event with another symbol is defined. -/
theorem admissible_after_defineEvent (h : d.model.Admissible decl')
    (hdefine : Build.defineEvent decl d = .ok () d') (hne : decl.symbol ≠ decl'.symbol) :
    d'.model.Admissible decl' := by
  obtain ⟨e, fields, hdefined⟩ := defined_of_defineEvent hdefine
  have grown : d.model.Grown d'.model :=
    Provider.grown_of_changes (Build.changes_of_defineEvent hdefine).model
  have htypedefs : d'.model.typedefs = d.model.typedefs := by rw [hdefined.rest]
  exact {
    worded := h.worded
    channel := grown.channels.contains h.channel
    task := grown.tasks.contains h.task
    opcode := h.opcode.imp (Provider.hasLocalOpcode_of_grown grown)
      (Or.imp_left grown.opcodes.contains)
    types := fun param hparam => by
      rw [Provider.KnowsType, htypedefs]
      exact h.types param hparam
    fresh := by
      rw [hdefined.events, Table.contains, Table.find?_insert, if_neg hne.symm]
      exact h.fresh }

/-- An event that is defined is there under its symbol, and those with other symbols stay. -/
theorem find?_after_defineEvent (h : Build.defineEvent decl d = .ok () d') :
    (∃ e, d'.model.events.find? decl.symbol = some e ∧ e.names = decl.names) ∧
      ∀ name, name ≠ decl.symbol → d'.model.events.find? name = d.model.events.find? name := by
  obtain ⟨e, fields, hdefined⟩ := defined_of_defineEvent h
  rw [hdefined.events]
  refine ⟨⟨e, by rw [Table.find?_insert, if_pos rfl], hdefined.names⟩, fun name hne => ?_⟩
  rw [Table.find?_insert, if_neg hne]

/-- Two events with different symbols that may each be defined may be defined one after the
other. -/
theorem defineEvent_both (h : d.model.Admissible decl) (h' : d.model.Admissible decl')
    (hne : decl.symbol ≠ decl'.symbol) :
    ∃ d₁ d₂, Build.defineEvent decl d = .ok () d₁ ∧ Build.defineEvent decl' d₁ = .ok () d₂ ∧
      (∃ e, d₂.model.events.find? decl.symbol = some e ∧ e.names = decl.names) ∧
      ∃ e, d₂.model.events.find? decl'.symbol = some e ∧ e.names = decl'.names := by
  obtain ⟨d₁, hfirst⟩ := defineEvent_isOk_iff.2 h
  obtain ⟨d₂, hsecond⟩ := defineEvent_isOk_iff.2 (admissible_after_defineEvent h' hfirst hne)
  obtain ⟨hdecl, -⟩ := find?_after_defineEvent hfirst
  obtain ⟨hdecl', hkept⟩ := find?_after_defineEvent hsecond
  exact ⟨d₁, d₂, hfirst, hsecond, by rwa [hkept _ hne], hdecl'⟩

/-! ## Drafts -/

/-- The events of a draft that was reached from nothing have their symbols for their keys. -/
theorem symbol_of_find? {ops : List Operation}
    (h : (({} : Draft).after ops).model.events.find? name = some e) : e.names.symbol = name := by
  have hcoherent : (({} : Draft).after ops).model.Coherent :=
    Provider.coherent_of_changes (Draft.changes_after {} ops).model Provider.coherent_empty
  exact (hcoherent.resolved name e h).symbol.symm.trans (hcoherent.events name e h)

/-- **Only an event with the same symbol is a duplicate.** It has the same names if the names of
both are plain. Events with different symbols, such as those with different plain names, can be
defined in either order. -/
theorem duplicate_of_symbol (ops : List Operation) (decl : EventDecl) :
    (∀ name d', Build.defineEvent decl (({} : Draft).after ops) = .error (.duplicateEvent name) d' →
      name = decl.symbol ∧ ∃ e, (({} : Draft).after ops).model.events.find? name = some e ∧
        e.names.symbol = decl.names.symbol ∧
        (e.names.Plain → decl.names.Plain → e.names = decl.names)) ∧
    ∀ decl', decl.names.symbol ≠ decl'.names.symbol ∨
        decl.names.Plain ∧ decl'.names.Plain ∧ decl.names ≠ decl'.names →
      (({} : Draft).after ops).model.Admissible decl →
      (({} : Draft).after ops).model.Admissible decl' →
      ∃ d₁ d₂, Build.defineEvent decl (({} : Draft).after ops) = .ok () d₁ ∧
        Build.defineEvent decl' d₁ = .ok () d₂ ∧
        (∃ e, d₂.model.events.find? decl.symbol = some e ∧ e.names = decl.names) ∧
        ∃ e, d₂.model.events.find? decl'.symbol = some e ∧ e.names = decl'.names := by
  constructor
  · intro name d' hrefused
    obtain ⟨rfl, hthere⟩ := contains_of_duplicate hrefused
    obtain ⟨e, he⟩ := Option.isSome_iff_exists.1 hthere
    have hsymbol : e.names.symbol = decl.names.symbol := symbol_of_find? he
    exact ⟨rfl, e, he, hsymbol, fun hplain hplain' =>
      EventNames.eq_of_symbol_eq hplain hplain' hsymbol⟩
  · intro decl' hdiffer h h'
    have hne : decl.symbol ≠ decl'.symbol := by
      rcases hdiffer with hne | ⟨hplain, hplain', hne⟩
      · exact hne
      · exact fun hsymbol => hne (EventNames.eq_of_symbol_eq hplain hplain' hsymbol)
    exact defineEvent_both h h' hne

/-- An event of a task and with an opcode. -/
def taskEvent (task opcode : String) : EventDecl :=
  ⟨"srv", "Success", "Info", "Admin", task, opcode, [], none⟩

/-- The start of a data collection is declared for one task, and there is another task. -/
def collectionOps : List Operation :=
  [.defineChannel "Admin" "Admin" .admin, .defineTask "Net", .defineTask "Net_DC",
    .defineEvent (taskEvent "Net" "DC_Start")]

theorem defineEvent_again :
    ∃ d', Build.defineEvent (taskEvent "Net" "DC_Start") (({} : Draft).after collectionOps) =
      .error (.duplicateEvent "srv_Net_DC_Start") d' :=
  ⟨_, rfl⟩

/-- Two events of one symbol that have different tasks and opcodes. -/
theorem defineEvent_otherTask :
    ∃ d', Build.defineEvent (taskEvent "Net_DC" "Start") (({} : Draft).after collectionOps) =
      .error (.duplicateEvent "srv_Net_DC_Start") d' :=
  ⟨_, rfl⟩

theorem admissible_taskEvent {opcode : String} (hopcode : (predefinedOpcode? opcode).isSome = true)
    (hfresh : (({} : Draft).after collectionOps).model.events.contains
      (taskEvent "Net" opcode).symbol = false) :
    (({} : Draft).after collectionOps).model.Admissible (taskEvent "Net" opcode) := by
  have hseverity : Vocabulary.parse Severity "Success" = .ok .success := by decide
  have hlevel : Vocabulary.parse Level "Info" = .ok .informational := by decide
  have hchannel : (({} : Draft).after collectionOps).model.channels.contains "Admin" = true := by
    decide
  have htask : (({} : Draft).after collectionOps).model.tasks.contains "Net" = true := by decide
  exact {
    worded := ⟨⟨.success, hseverity⟩, .informational, hlevel⟩
    channel := hchannel
    task := htask
    opcode := .inr (.inr hopcode)
    types := nofun
    fresh := hfresh }

/-- The event is a duplicate of itself only, and others of the task can be defined beside it. -/
theorem duplicate_of_collection :
    (∃ e, (({} : Draft).after collectionOps).model.events.find? "srv_Net_DC_Start" = some e ∧
        e.names.symbol = (taskEvent "Net" "DC_Start").names.symbol) ∧
      ∃ d₁ d₂, Build.defineEvent (taskEvent "Net" "Start") (({} : Draft).after collectionOps) =
          .ok () d₁ ∧
        Build.defineEvent (taskEvent "Net" "Stop") d₁ = .ok () d₂ := by
  have hplain {opcode : String} (h : (predefinedOpcode? opcode).isSome = true) :
      (taskEvent "Net" opcode).names.Plain :=
    ⟨List.all_eq_true.1 (show "srv".toList.all Char.isAlphanum = true by decide),
      List.all_eq_true.1 (show "Net".toList.all Char.isAlphanum = true by decide),
      plain_of_predefined h⟩
  constructor
  · obtain ⟨d', hrefused⟩ := defineEvent_again
    obtain ⟨-, e, he, hsymbol, -⟩ :=
      (duplicate_of_symbol collectionOps (taskEvent "Net" "DC_Start")).1 _ d' hrefused
    exact ⟨e, he, hsymbol⟩
  · have hdiffer : (taskEvent "Net" "Start").names ≠ (taskEvent "Net" "Stop").names := by decide
    obtain ⟨d₁, d₂, hfirst, hsecond, -⟩ :=
      (duplicate_of_symbol collectionOps (taskEvent "Net" "Start")).2 (taskEvent "Net" "Stop")
        (.inr ⟨hplain (by decide), hplain (by decide), hdiffer⟩)
        (admissible_taskEvent (by decide) (by decide))
        (admissible_taskEvent (by decide) (by decide))
    exact ⟨d₁, d₂, hfirst, hsecond⟩

/-- An event can be refused as a duplicate of one that has another task and another opcode. -/
theorem duplicate_with_other_names :
    (∃ d', Build.defineEvent (taskEvent "Net_DC" "Start") (({} : Draft).after collectionOps) =
        .error (.duplicateEvent "srv_Net_DC_Start") d') ∧
      ((({} : Draft).after collectionOps).model.events.values.map Event.names =
        [⟨"srv", "Net", "DC_Start"⟩]) ∧
      ¬ ∀ (ops : List Operation) (decl : EventDecl) (name : String) (d' : Draft),
        Build.defineEvent decl (({} : Draft).after ops) = .error (.duplicateEvent name) d' →
        ∃ e ∈ (({} : Draft).after ops).model.events.values, e.names = decl.names := by
  obtain ⟨d', hrefused⟩ := defineEvent_otherTask
  have hnames : (({} : Draft).after collectionOps).model.events.values.map Event.names =
      [⟨"srv", "Net", "DC_Start"⟩] := rfl
  refine ⟨⟨d', hrefused⟩, hnames, fun h => ?_⟩
  obtain ⟨e, he, hsame⟩ := h collectionOps (taskEvent "Net_DC" "Start") _ d' hrefused
  have hmem : e.names ∈ [EventNames.mk "srv" "Net" "DC_Start"] :=
    hnames ▸ List.mem_map_of_mem he
  rw [hsame] at hmem
  revert hmem
  decide

end EventSchema
