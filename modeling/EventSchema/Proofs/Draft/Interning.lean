import EventSchema.Proofs.Draft.Fields
import EventSchema.Proofs.Draft.Reordering
import EventSchema.Proofs.Draft.Parts

/-!
# Where templates come from

The templates of a model are the parameter lists of its events, and no others
(`templatesExact_after`). A template is stored with the event that brings it in
(`interned_of_change`), so a refused event leaves none behind. An event does not keep its
parameters, but the operations that led to it tell them (`Draft.Resolved`): each event of a draft
comes from the first declaration of its name that an operation carried out
(`Operation.adds_eventDecls`).
-/

namespace EventSchema

open EventSchema.Numbering (Filled ProviderFilled)

/-! ## Declared events -/

/-- The name of the event. -/
def EventDecl.symbol (decl : EventDecl) : String :=
  eventSymbol decl.subsystem decl.task decl.opcode

/-- The declaration with every text replaced. -/
def EventDecl.replaced (text : String → String) (decl : EventDecl) : EventDecl where
  subsystem := text decl.subsystem
  severity := text decl.severity
  level := text decl.level
  channel := text decl.channel
  task := text decl.task
  opcode := text decl.opcode
  params := decl.params.map fun param => (text param.1, text param.2)
  value := decl.value

/-- The events that an operation declares, in order, as they read with the aliases of a provider. -/
def Operation.eventDecls (p : Provider) : Operation → List EventDecl
  | .apply c =>
    match Statement.ofArguments c.method (c.args.map p.aliased) with
    | .ok (.defineEvent decl) => [decl]
    | _ => []
  | .merge document => document.events.map (EventDecl.replaced p.aliased)
  | .defineEvent decl => [decl]
  | _ => []

/-- The declarations give these fields to the event of a name: the first one of that name has one
parameter for each field, and the type of the field is what the type name of the parameter stands
for. -/
def Provider.DeclaresFields (p : Provider) (decls : List EventDecl) (name : String)
    (fields : List Field) : Prop :=
  ∃ decl ∈ decls.find? (·.symbol = name), List.Forall₂ p.FieldOf decl.params fields

instance (p : Provider) (decls : List EventDecl) (name : String) (fields : List Field) :
    Decidable (p.DeclaresFields decls name fields) :=
  inferInstanceAs (Decidable (∃ decl ∈ decls.find? fun d : EventDecl => d.symbol = name,
    List.Forall₂ p.FieldOf decl.params fields))

/-- **Resolved parameters.** The fields of the event of a name, as they were declared by the
operation that brought it in. Aliases and typedefs are those of that operation, which defines its
events after them. -/
def Draft.Resolved (d : Draft) (name : String) : List Operation → List Field → Prop
  | [], _ => False
  | op :: rest, fields =>
    let after := stateAfter op.run d
    if after.model.events.contains name then
      after.model.DeclaresFields (op.eventDecls after.model) name fields
    else after.Resolved name rest fields

instance decidableResolved (d : Draft) (name : String) (ops : List Operation)
    (fields : List Field) : Decidable (d.Resolved name ops fields) :=
  match ops with
  | [] => isFalse id
  | op :: rest =>
    have := decidableResolved (stateAfter op.run d) name rest fields
    inferInstanceAs (Decidable (if (stateAfter op.run d).model.events.contains name then
      (stateAfter op.run d).model.DeclaresFields (op.eventDecls (stateAfter op.run d).model) name
        fields
    else (stateAfter op.run d).Resolved name rest fields))

theorem Provider.declaresFields_unique {p : Provider} {decls : List EventDecl} {name : String}
    {fields other : List Field} (h : p.DeclaresFields decls name fields)
    (h' : p.DeclaresFields decls name other) : fields = other := by
  obtain ⟨decl, hdecl, hfields⟩ := h
  obtain ⟨decl', hdecl', hother⟩ := h'
  obtain rfl : decl = decl' := Option.some.inj (hdecl.symm.trans hdecl')
  exact fields_unique hfields hother

/-- An event has one list of resolved parameters at most. -/
theorem Draft.resolved_unique {d : Draft} {name : String} {ops : List Operation}
    {fields other : List Field} (h : d.Resolved name ops fields)
    (h' : d.Resolved name ops other) : fields = other := by
  induction ops generalizing d with
  | nil => exact h.elim
  | cons op rest ih =>
    rw [Draft.Resolved] at h h'
    split at h
    · next there =>
      rw [if_pos there] at h'
      exact Provider.declaresFields_unique h h'
    · next missing =>
      rw [if_neg missing] at h'
      exact ih h h'

/-- Two events have the same resolved parameters if they share a list of them. -/
theorem Draft.resolved_alike_iff {d : Draft} {a b : String} {ops : List Operation}
    {fields other : List Field} (ha : d.Resolved a ops fields) (hb : d.Resolved b ops other) :
    (∀ found, d.Resolved a ops found ↔ d.Resolved b ops found) ↔ fields = other := by
  constructor
  · intro halike
    exact Draft.resolved_unique ((halike fields).1 ha) hb
  · rintro rfl found
    constructor
    · intro hfound
      exact Draft.resolved_unique ha hfound ▸ hb
    · intro hfound
      exact Draft.resolved_unique hb hfound ▸ ha

/-- The template of an event with these fields. -/
def templateOf (fields : List Field) : Option Template :=
  if fields.isEmpty then none else some ⟨fields⟩

theorem templateOf_eq_some {fields other : List Field} :
    templateOf fields = some ⟨other⟩ ↔ other ≠ [] ∧ other = fields := by
  cases fields with
  | nil => simp [templateOf]
  | cons f fs =>
    simp only [templateOf, List.isEmpty_cons, Bool.false_eq_true, if_false, Option.some.injEq,
      Template.mk.injEq]
    constructor
    · rintro rfl
      exact ⟨List.cons_ne_nil f fs, rfl⟩
    · exact fun h => h.2.symm

theorem templateOf_inj {fields fields' : List Field} :
    templateOf fields = templateOf fields' ↔ fields = fields' := by
  cases fields <;> cases fields' <;> simp [templateOf]

theorem template_of_filled {e f : Event} (h : Filled e f) : f.template = e.template := by
  rcases h with rfl | ⟨-, v, rfl⟩ <;> rfl

/-! ## Templates and events -/

namespace Provider

variable {p q : Provider}

/-- The templates are those of the events. -/
def Interned (p : Provider) : Prop :=
  ∀ fields, p.templates.contains fields = true ↔
    ∃ name e, p.events.find? name = some e ∧ e.template = some ⟨fields⟩

theorem interned_empty : Interned {} := by
  intro fields
  refine ⟨?_, ?_⟩
  · rintro ⟨⟩
  · rintro ⟨name, e, ⟨⟩, -⟩

theorem contains_interned {fields other : List Field} :
    (p.interned fields).contains other = true ↔
      p.templates.contains other = true ∨ templateOf fields = some ⟨other⟩ := by
  rw [templateOf_eq_some, interned]
  cases fields with
  | nil => simp +contextual
  | cons f fs =>
    rw [List.isEmpty_cons, if_neg Bool.false_ne_true, Table.contains, Table.contains,
      Table.find?_insertNew]
    split
    · next heq => simp [heq]
    · next hne => simp [hne]

/-- **A change keeps the templates those of the events.** -/
theorem interned_of_change (hp : p.Interned) (h : Change p q) : q.Interned := by
  cases h with
  | properties | newAlias | newTypedef | newChannel | newTask | newOpcode | newTaskOpcode => exact hp
  | numbers h =>
    intro fields
    have htemplates : q.templates = p.templates := by rw [h.rest]
    rw [htemplates, hp fields]
    constructor
    · rintro ⟨name, e, he, htemplate⟩
      obtain ⟨f, hf, hfilled⟩ := h.events.of_left he
      exact ⟨name, f, hf, (template_of_filled hfilled).trans htemplate⟩
    · rintro ⟨name, f, hf, htemplate⟩
      obtain ⟨e, he, hfilled⟩ := h.events.of_right hf
      exact ⟨name, e, he, (template_of_filled hfilled).symm.trans htemplate⟩
  | @newEvent e fields admits =>
    intro other
    have htemplate : e.template = templateOf fields := admits.template
    refine contains_interned.trans ?_
    rw [hp other, ← htemplate]
    constructor
    · rintro (⟨name, f, hf, hother⟩ | hother)
      · refine ⟨name, f, ?_, hother⟩
        rw [Table.find?_insert, if_neg, hf]
        rintro rfl
        rw [admits.fresh] at hf
        cases hf
      · exact ⟨e.name, e, by rw [Table.find?_insert, if_pos rfl], hother⟩
    · rintro ⟨name, f, hf, hother⟩
      rw [Table.find?_insert] at hf
      split at hf
      · cases hf
        exact .inr hother
      · exact .inl ⟨name, f, hf, hother⟩

theorem interned_of_changes (h : Relation.ReflTransGen Change p q) (hp : p.Interned) :
    q.Interned := by
  induction h with
  | refl => exact hp
  | tail _ hchange ih => exact interned_of_change ih hchange

end Provider

/-- An event keeps its template. -/
theorem template_of_changes {p q : Provider} {name : String} {e f : Event}
    (h : Relation.ReflTransGen Provider.Change p q) (he : p.events.find? name = some e)
    (hf : q.events.find? name = some f) : f.template = e.template := by
  obtain ⟨e', he', hfilled⟩ := (Provider.grown_of_changes h).events name e he
  obtain rfl : e' = f := Option.some.inj (he'.symm.trans hf)
  exact template_of_filled hfilled

/-! ## Steps that define events -/

section

variable {α β : Type} {decls : Provider → List EventDecl} {x : Build α} {f : α → Build β}
  {p q : Provider} {name : String}

theorem declaresFields_of_typedefs (h : q.typedefs = p.typedefs) (decls : List EventDecl)
    (name : String) : q.DeclaresFields decls name = p.DeclaresFields decls name := by
  funext fields
  simp only [Provider.DeclaresFields, Provider.fieldOf_of_typedefs h]

/-- Each event that the step adds has the fields that some declarations give to it. -/
def AddsDeclared (decls : Provider → List EventDecl) (x : Build α) : Prop :=
  ∀ d name e, d.model.events.find? name = none →
    (stateAfter x d).model.events.find? name = some e →
      ∃ fields, (stateAfter x d).model.DeclaresFields (decls (stateAfter x d).model) name fields ∧
        e.template = templateOf fields

theorem addsDeclared_of_same (h : Leads (Draft.Same Provider.events) x) : AddsDeclared decls x := by
  intro d name e hnew he
  rw [show (stateAfter x d).model.events = d.model.events from h d, hnew] at he
  cases he

/-- A sequence stops in its first step or goes on with its second. -/
theorem stateAfter_bind_cases (x : Build α) (f : α → Build β) (d : Draft) :
    stateAfter (x >>= f) d = stateAfter x d ∨
      ∃ a, x d = .ok a (stateAfter x d) ∧ stateAfter (x >>= f) d = stateAfter (f a) (stateAfter x d) := by
  change stateAfter (EStateM.bind x f) d = _ ∨ ∃ a, _ ∧ stateAfter (EStateM.bind x f) d = _
  unfold stateAfter EStateM.bind
  cases x d with
  | ok a e => exact .inr ⟨a, rfl, rfl⟩
  | error err e => exact .inl rfl

theorem AddsDeclared.bind_left (hx : Leads (Draft.Same Provider.events) x)
    (hf : ∀ a, AddsDeclared decls (f a)) : AddsDeclared decls (x >>= f) := by
  intro d name e hnew he
  have hsame : (stateAfter x d).model.events = d.model.events := hx d
  rcases stateAfter_bind_cases x f d with hstop | ⟨a, -, hnext⟩
  · rw [hstop, hsame, hnew] at he
    cases he
  · rw [hnext] at he ⊢
    exact hf a _ name e (hsame ▸ hnew) he

theorem AddsDeclared.bind_right (hx : AddsDeclared decls x)
    (hf : ∀ a, Leads (Draft.Same id) (f a)) : AddsDeclared decls (x >>= f) := by
  intro d name e hnew he
  have hmodel : (stateAfter (x >>= f) d).model = (stateAfter x d).model := by
    rcases stateAfter_bind_cases x f d with hstop | ⟨a, -, hnext⟩
    · rw [hstop]
    · rw [hnext]
      exact hf a _
  rw [hmodel] at he ⊢
  exact hx d name e hnew he

theorem declaresFields_cons_of_eq {decl : EventDecl} {decls : List EventDecl} {fields : List Field}
    (h : decl.symbol = name) : p.DeclaresFields (decl :: decls) name fields ↔
      List.Forall₂ p.FieldOf decl.params fields := by
  simp [Provider.DeclaresFields, h]

theorem declaresFields_cons_of_ne {decl : EventDecl} {decls : List EventDecl} {fields : List Field}
    (h : decl.symbol ≠ name) : p.DeclaresFields (decl :: decls) name fields ↔
      p.DeclaresFields decls name fields := by
  simp [Provider.DeclaresFields, h]

theorem declaresFields_of_single {decl : EventDecl} {fields : List Field}
    (h : p.DeclaresFields [decl] name fields) (decls : List EventDecl) :
    p.DeclaresFields (decl :: decls) name fields := by
  by_cases hsymbol : decl.symbol = name
  · exact (declaresFields_cons_of_eq hsymbol).2 ((declaresFields_cons_of_eq hsymbol).1 h)
  · obtain ⟨_, ⟨⟩, -⟩ := (declaresFields_cons_of_ne hsymbol).1 h

theorem addsDeclared_addEvent (decl : EventDecl) (severity : Severity) (level : Level) :
    AddsDeclared (fun _ => [decl]) (Build.update (·.addEvent decl severity level)) := by
  intro d name e hnew he
  rw [model_update] at he ⊢
  cases hadd : d.model.addEvent decl severity level with
  | error err =>
    rw [hadd] at he
    exact absurd (hnew.symm.trans he) nofun
  | ok q =>
    have htypedefs : q.typedefs = d.model.typedefs :=
      (Provider.only_addEvent hadd).typedefs_eq nofun
    rw [hadd] at he
    change ∃ fields, q.DeclaresFields [decl] name fields ∧ _
    rw [declaresFields_of_typedefs htypedefs]
    obtain ⟨fields, hfields, -, rfl⟩ := Provider.addEvent_eq_ok hadd
    have hinsert := (Table.find?_insert _ _ _ _).symm.trans he
    split at hinsert
    · next hname =>
      have hsymbol : decl.symbol = name := hname.symm
      cases hinsert
      have hresolved := Provider.eventFields_eq_ok.1 hfields
      exact ⟨fields, (declaresFields_cons_of_eq hsymbol).2 hresolved, rfl⟩
    · rw [hnew] at hinsert
      cases hinsert

theorem sameEvents_prepareEvent (decl : EventDecl) :
    Leads (Draft.Same Provider.events) (Build.update (·.prepareEvent decl)) := by
  intro d
  rw [Draft.Same, model_update]
  cases hprepare : d.model.prepareEvent decl with
  | error err => rfl
  | ok q => rcases Provider.prepareEvent_eq_ok hprepare with ⟨-, rfl⟩ | ⟨-, rfl⟩ <;> rfl

theorem aliased_of_defineEvent (decl : EventDecl) (d : Draft) :
    (stateAfter (Build.defineEvent decl) d).model.aliased = d.aliased :=
  (madeOf_defineEvent nofun decl).aliased_eq d

theorem addsDeclared_defineEvent (decl : EventDecl) :
    AddsDeclared (fun _ => [decl]) (Build.defineEvent decl) := by
  refine .bind_left (MadeOf.word _ _).same_events fun severity => ?_
  refine .bind_left (MadeOf.word _ _).same_events fun level => ?_
  exact .bind_left (sameEvents_prepareEvent decl) fun _ =>
    addsDeclared_addEvent decl severity level

end

namespace Document

/-- An event of a document is defined with its texts replaced. -/
theorem mergeEvent_apply (e : EventDecl) (d : Draft) :
    mergeEvent e d = Build.defineEvent (e.replaced d.aliased) d :=
  get_bind_eq (fun d => Build.defineEvent (e.replaced d.aliased)) d

theorem aliased_of_mergeEvent (e : EventDecl) (d : Draft) :
    (stateAfter (mergeEvent e) d).model.aliased = d.aliased :=
  (madeOf_mergeEvent nofun e).aliased_eq d

theorem addsDeclared_mergeEvent (e : EventDecl) :
    AddsDeclared (fun p => [e.replaced p.aliased]) (mergeEvent e) := by
  intro d name event hnew
  have hdefine := addsDeclared_defineEvent (e.replaced d.aliased) d name event hnew
  rw [stateAfter, ← mergeEvent_apply, ← stateAfter] at hdefine
  rwa [← aliased_of_mergeEvent e d] at hdefine

theorem contains_of_mergeEvent {e : EventDecl} {d d' : Draft} (h : mergeEvent e d = .ok () d') :
    d'.model.events.contains (e.replaced d'.model.aliased).symbol = true := by
  have haliased := aliased_of_mergeEvent e d
  rw [stateAfter_of_ok h] at haliased
  rw [haliased]
  rw [mergeEvent_apply] at h
  obtain ⟨_, _, q, _, -, -, -, -, rfl⟩ := defineEvent_eq_ok h
  exact Option.isSome_iff_exists.2 ⟨_, (Table.find?_insert _ _ _ _).trans (if_pos rfl)⟩

theorem addsDeclared_mergeEvent_bind (e : EventDecl) {rest : List EventDecl}
    (ih : AddsDeclared (fun p => rest.map (EventDecl.replaced p.aliased)) (rest.forM mergeEvent)) :
    AddsDeclared (fun p => (e :: rest).map (EventDecl.replaced p.aliased))
      (mergeEvent e >>= fun _ => rest.forM mergeEvent) := by
  intro d name event hnew hevent
  have hhead := addsDeclared_mergeEvent e d name
  rcases stateAfter_bind_cases (mergeEvent e) (fun _ => rest.forM mergeEvent) d with
    hstop | ⟨⟨⟩, hok, hnext⟩
  · rw [hstop] at hevent ⊢
    obtain ⟨fields, hfields, htemplate⟩ := hhead event hnew hevent
    exact ⟨fields, declaresFields_of_single hfields _, htemplate⟩
  rw [hnext] at hevent ⊢
  generalize stateAfter (mergeEvent e) d = d₁ at hok hevent hhead
  -- what texts and type names stand for is still the same in the end
  have haliased : (stateAfter (rest.forM mergeEvent) d₁).model.aliased = d₁.model.aliased :=
    aliased_of_aliases ((madeOf_mergeEvents nofun rest).same_aliases d₁)
  have htypedefs : (stateAfter (rest.forM mergeEvent) d₁).model.typedefs = d₁.model.typedefs :=
    (madeOf_mergeEvents nofun rest).same_typedefs d₁
  suffices h : ∃ fields, d₁.model.DeclaresFields
      ((e :: rest).map (EventDecl.replaced d₁.model.aliased)) name fields ∧
        event.template = templateOf fields by
    simpa only [declaresFields_of_typedefs htypedefs, haliased] using h
  cases hfirst : d₁.model.events.find? name with
  | some event₁ =>
    have made : MadeOf (Topic.AliasesIf True) (rest.forM mergeEvent) :=
      madeOf_mergeEvents nofun rest
    have hsame := template_of_changes (made.changes d₁).model hfirst hevent
    obtain ⟨fields, hfields, htemplate⟩ := hhead event₁ hnew hfirst
    exact ⟨fields, declaresFields_of_single hfields _, hsame.trans htemplate⟩
  | none =>
    have hother : (e.replaced d₁.model.aliased).symbol ≠ name := by
      rintro rfl
      have hcontains := contains_of_mergeEvent hok
      rw [Table.contains, hfirst] at hcontains
      cases hcontains
    have hrest := ih d₁ name event hfirst hevent
    simp only [declaresFields_of_typedefs htypedefs, haliased] at hrest
    simpa only [List.map_cons, declaresFields_cons_of_ne hother] using hrest

/-- **Each event that a document adds** has the fields of the first declaration of its name. -/
theorem addsDeclared_mergeEvents (events : List EventDecl) :
    AddsDeclared (fun p => events.map (EventDecl.replaced p.aliased)) (events.forM mergeEvent) := by
  induction events with
  | nil => exact addsDeclared_of_same (MadeOf.pure ()).same_events
  | cons e rest ih => exact addsDeclared_mergeEvent_bind e ih

theorem addsDeclared_merge (d : Document) :
    AddsDeclared (fun p => d.events.map (EventDecl.replaced p.aliased)) d.merge := by
  rw [merge_eq_mergeEntities]
  refine .bind_left (madeOf_mergeEntities nofun (fun _ => nofun) nofun nofun).same_events
    fun _ => ?_
  exact .bind_right (addsDeclared_mergeEvents d.events) fun _ _ => rfl

end Document

/-! ## Operations -/

theorem addsDeclared_applyClause (c : Source.Clause) :
    AddsDeclared (fun p => (Operation.apply c).eventDecls p) (Build.applyClause c) := by
  intro d name e hnew
  have hrun : Build.applyClause c d =
      (Build.ofExcept (Statement.ofArguments c.method (c.args.map d.aliased)) >>=
        Statement.apply) d := get_bind_eq _ d
  rw [stateAfter, hrun, ← stateAfter]
  have hnothing {x : Build Unit} (h : Leads (Draft.Same Provider.events) x) :
      AddsDeclared (fun p => (Operation.apply c).eventDecls p) x := addsDeclared_of_same h
  cases hstatement : Statement.ofArguments c.method (c.args.map d.aliased) with
  | error err => exact hnothing (MadeOf.throw err).same_events d name e hnew
  | ok s =>
    have hstatementRun : (Build.ofExcept (.ok s) >>= Statement.apply) = s.apply := pure_bind s _
    rw [hstatementRun]
    by_cases htopic : s.topic = .events
    · obtain ⟨decl, rfl⟩ := Statement.exists_of_topic htopic
      have hdecls : (Operation.apply c).eventDecls
          (stateAfter (Build.defineEvent decl) d).model = [decl] := by
        rw [Operation.eventDecls, aliased_of_defineEvent decl d, hstatement]
      have hdefine := addsDeclared_defineEvent decl d name e hnew
      rwa [← hdecls] at hdefine
    · exact hnothing (madeOf_statement htopic).same_events d name e hnew

theorem Operation.adds_eventDecls (op : Operation) :
    AddsDeclared (fun p => op.eventDecls p) op.run := by
  cases op.view with
  | single definition run_eq =>
    rw [run_eq]
    exact addsDeclared_of_same (MadeOf.update definition definition.topic_ne_events).same_events
  | apply c => exact addsDeclared_applyClause c
  | merge document => exact document.addsDeclared_merge
  | defineEvent decl => exact addsDeclared_defineEvent decl
  | defineProvider decl =>
    exact addsDeclared_of_same (madeOf_defineProvider nofun decl).same_events
  | updateQueue change => exact addsDeclared_of_same fun _ => rfl
  | assignNumbers =>
    intro d name e hnew he
    obtain ⟨e', he', -⟩ := (Build.assignNumbers_filled d).events.of_right he
    rw [hnew] at he'
    cases he'

/-! ## Runs -/

/-- An event that the operations have brought in has the template of its resolved parameters. -/
theorem exists_resolved {d : Draft} {name : String} {e : Event} (ops : List Operation)
    (hnew : d.model.events.find? name = none)
    (he : (d.after ops).model.events.find? name = some e) :
    ∃ fields, d.Resolved name ops fields ∧ e.template = templateOf fields := by
  induction ops generalizing d with
  | nil => exact absurd (hnew.symm.trans he) nofun
  | cons op rest ih =>
    simp only [Draft.Resolved]
    cases hfirst : (stateAfter op.run d).model.events.find? name with
    | none =>
      rw [Table.contains, hfirst]
      exact ih hfirst he
    | some e₁ =>
      obtain ⟨fields, hfields, htemplate⟩ := op.adds_eventDecls d name e₁ hnew hfirst
      have hchanges := (Draft.changes_after (stateAfter op.run d) rest).model
      have hsame := template_of_changes hchanges hfirst he
      rw [Table.contains, hfirst]
      exact ⟨fields, hfields, hsame.trans htemplate⟩

/-- The templates of a model whose events have these parameters, none of an event that has none. -/
structure TemplatesExact (p : Provider) (resolved : String → List Field → Prop) : Prop where
  /-- Every event has the template of its parameters. -/
  events : ∀ name e, p.events.find? name = some e →
    ∃ fields, resolved name fields ∧ e.template = templateOf fields
  unique : ∀ name fields other, resolved name fields → resolved name other → fields = other
  /-- What is stored are the parameters of events, apart from empty ones. -/
  stored : ∀ fields, fields ∈ p.templates.values.map Template.fields ↔
    fields ≠ [] ∧ ∃ name ∈ p.events.keys, resolved name fields
  once : (p.templates.values.map Template.fields).Nodup
  shared : ∀ a b e f, p.events.find? a = some e → p.events.find? b = some f →
    (e.template = f.template ↔ ∀ fields, resolved a fields ↔ resolved b fields)

theorem fields_values {t : Table (List Field) Template} (h : KeyedBy Template.fields t) :
    t.values.map Template.fields = t.keys := by
  rw [Table.values, Table.keys, List.map_map]
  exact List.map_congr_left fun e he => h e.1 e.2 ((t.mem_entries_iff e.1 e.2).1 he)

/-- **Templates are exact.** After any operations, each of which may have failed, the templates are
the parameters of the events, each stored once, and events share one when their parameters resolve to
the same. -/
theorem templatesExact_after (ops : List Operation) :
    TemplatesExact (({} : Draft).after ops).model
      fun name fields => ({} : Draft).Resolved name ops fields := by
  have hchanges := (Draft.changes_after {} ops).model
  have hcoherent := Provider.coherent_of_changes hchanges Provider.coherent_empty
  have hinterned := Provider.interned_of_changes hchanges Provider.interned_empty
  have hevents : ∀ name e, (({} : Draft).after ops).model.events.find? name = some e →
      ∃ fields, ({} : Draft).Resolved name ops fields ∧ e.template = templateOf fields :=
    fun name e he => exists_resolved ops rfl he
  refine ⟨hevents, fun name fields other => Draft.resolved_unique, fun fields => ?stored, ?once,
    fun a b e f he hf => ?shared⟩
  case stored =>
    rw [fields_values hcoherent.templates, ← Table.contains_iff_mem_keys, hinterned fields]
    constructor
    · rintro ⟨name, e, he, htemplate⟩
      obtain ⟨fields', hresolved, htemplate'⟩ := hevents name e he
      obtain ⟨hne, rfl⟩ := templateOf_eq_some.1 (htemplate'.symm.trans htemplate)
      exact ⟨hne, name, Table.mem_keys_iff.2 ⟨e, he⟩, hresolved⟩
    · rintro ⟨hne, name, hname, hresolved⟩
      obtain ⟨e, he⟩ := Table.mem_keys_iff.1 hname
      obtain ⟨fields', hresolved', htemplate⟩ := hevents name e he
      obtain rfl : fields' = fields := Draft.resolved_unique hresolved' hresolved
      exact ⟨name, e, he, htemplate.trans (templateOf_eq_some.2 ⟨hne, rfl⟩)⟩
  case once =>
    rw [fields_values hcoherent.templates]
    exact Table.keys_nodup _
  case shared =>
    obtain ⟨fields, ha, hfields⟩ := hevents a e he
    obtain ⟨fields', hb, hfields'⟩ := hevents b f hf
    rw [hfields, hfields', templateOf_inj, Draft.resolved_alike_iff ha hb]

/-- Two events whose types are spelled in two ways, and one that is refused because it is there. -/
def spelledInTwoWays : List Operation := [
  .defineChannel "Admin" "Admin" .admin,
  .defineTask "Net",
  .merge {
    aliases := .ofList [("Size", "Count")]
    typedefs := .ofList [("Count", "UInt32")]
    events := [⟨"srv", "Success", "Informational", "Admin", "Net", "Start", [("Size", "n")], none⟩] },
  .defineEvent ⟨"srv", "Success", "Informational", "Admin", "Net", "Stop", [("UInt32", "n")], none⟩,
  .defineEvent ⟨"srv", "Success", "Informational", "Admin", "Net", "Stop", [("Int64", "n")], none⟩]

example :
    (({} : Draft).after spelledInTwoWays).model.templates.keys = [[⟨.uint32, "n"⟩]] ∧
      ({} : Draft).Resolved "srv_Net_Start" spelledInTwoWays [⟨.uint32, "n"⟩] ∧
      ({} : Draft).Resolved "srv_Net_Stop" spelledInTwoWays [⟨.uint32, "n"⟩] := by
  decide +kernel

end EventSchema
