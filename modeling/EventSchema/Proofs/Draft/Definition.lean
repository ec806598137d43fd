import EventSchema.Proofs.Draft.Change
import Mathlib.Logic.Relation

/-!
# Definitions as changes

What each definition and each pin of a number does where it succeeds (the `_eq_ok` lemmas): it finds
what it says, or makes one change of the provider. An event is added in two changes, the second of
which relies on what the first has made sure of (`Provider.Prepared`).

Each definition is about one topic, and all else stays as it was (`Topic.Only`).
-/

namespace EventSchema

open EventSchema.Numbering (Filled ProviderFilled)
open Relation (ReflTransGen)

/-! ## Topics -/

/-- What definitions are about. -/
inductive Topic
  | properties
  | aliases
  | typedefs
  | entities
  | events
  | files
  deriving DecidableEq

/-- Nothing but what the topic is about has become another one. An event may bring in an opcode and a
template, and files are no part of a provider. -/
def Topic.Only : Topic → Provider → Provider → Prop
  | .properties, p, q => q = { p with
      id := q.id
      name := q.name
      symbol := q.symbol
      description := q.description
      resourceName := q.resourceName }
  | .aliases, p, q => q = { p with aliases := q.aliases }
  | .typedefs, p, q => q = { p with typedefs := q.typedefs }
  | .entities, p, q => q = { p with channels := q.channels, tasks := q.tasks, opcodes := q.opcodes }
  | .events, p, q => q = { p with
      opcodes := q.opcodes
      templates := q.templates
      events := q.events }
  | .files, p, q => q = p

namespace Topic

variable {topic : Topic} {p q : Provider}

theorem Only.aliases_eq (h : topic.Only p q) (hne : topic ≠ .aliases) : q.aliases = p.aliases := by
  cases topic with
  | aliases => exact absurd rfl hne
  | properties | typedefs | entities | events | files =>
    unfold Only at h
    rw [h]

theorem Only.typedefs_eq (h : topic.Only p q) (hne : topic ≠ .typedefs) :
    q.typedefs = p.typedefs := by
  cases topic with
  | typedefs => exact absurd rfl hne
  | properties | aliases | entities | events | files =>
    unfold Only at h
    rw [h]

theorem Only.events_eq (h : topic.Only p q) (hne : topic ≠ .events) : q.events = p.events := by
  cases topic with
  | events => exact absurd rfl hne
  | properties | aliases | typedefs | entities | files =>
    unfold Only at h
    rw [h]

end Topic

/-! ## Properties -/

section

variable {α : Type} [DecidableEq α] {what : Scalar} {shown : α → ScalarValue}

namespace Provider

theorem setOnce_eq_ok {current pinned : Option α} {new : α}
    (h : setOnce what shown current new = .ok pinned) :
    pinned = some new ∧ (current = none ∨ current = some new) := by
  unfold setOnce at h
  cases current with
  | none =>
    cases h
    exact ⟨rfl, .inl rfl⟩
  | some old =>
    by_cases heq : old = new
    · subst heq
      simp only [if_true] at h
      cases h
      exact ⟨rfl, .inr rfl⟩
    · simp only [if_neg heq] at h
      cases h

theorem kept_setIfGiven {current given new : Option α}
    (h : setIfGiven what shown current given = .ok new) : Kept current new := by
  unfold setIfGiven at h
  cases given with
  | none =>
    cases h
    exact refl_of Kept _
  | some v =>
    obtain ⟨rfl, hcurrent⟩ := setOnce_eq_ok h
    exact hcurrent.imp_right Eq.symm

end Provider

/-- A property is stored where the value given for it can be set. -/
theorem setIfGiven_of_ok {current given : Option α} {store : Option α → Provider} {q : Provider}
    (h : (do return store (← setIfGiven what shown current given)) = Except.ok q) :
    ∃ v, setIfGiven what shown current given = .ok v ∧ q = store v := by
  cases hset : setIfGiven what shown current given with
  | error e =>
    rw [hset] at h
    cases h
  | ok v =>
    rw [hset] at h
    cases h
    exact ⟨v, rfl, rfl⟩

end

/-- A property that a provider may have, as it is read and stored. -/
structure IsProperty {α : Type} (read : Provider → Option α)
    (store : Provider → Option α → Provider) : Prop where
  read_store : ∀ p v, read (store p v) = v
  store_read : ∀ p, store p (read p) = p
  only : ∀ p v, Topic.properties.Only p (store p v)
  change : ∀ p v, Kept (read p) v → p.Change (store p v)
  kept : ∀ p q : Provider, p.Grown q → Kept (read p) (read q)

theorem isProperty_id : IsProperty Provider.id fun p v => { p with id := v } where
  read_store _ _ := rfl
  store_read _ := rfl
  only _ _ := rfl
  change _ _ h := .properties h (.inr rfl) (.inr rfl) (.inr rfl) (.inr rfl)
  kept _ _ h := h.id

theorem isProperty_name : IsProperty Provider.name fun p v => { p with name := v } where
  read_store _ _ := rfl
  store_read _ := rfl
  only _ _ := rfl
  change _ _ h := .properties (.inr rfl) h (.inr rfl) (.inr rfl) (.inr rfl)
  kept _ _ h := h.name

theorem isProperty_symbol : IsProperty Provider.symbol fun p v => { p with symbol := v } where
  read_store _ _ := rfl
  store_read _ := rfl
  only _ _ := rfl
  change _ _ h := .properties (.inr rfl) (.inr rfl) h (.inr rfl) (.inr rfl)
  kept _ _ h := h.symbol

theorem isProperty_description :
    IsProperty Provider.description fun p v => { p with description := v } where
  read_store _ _ := rfl
  store_read _ := rfl
  only _ _ := rfl
  change _ _ h := .properties (.inr rfl) (.inr rfl) (.inr rfl) h (.inr rfl)
  kept _ _ h := h.description

theorem isProperty_resourceName :
    IsProperty Provider.resourceName fun p v => { p with resourceName := v } where
  read_store _ _ := rfl
  store_read _ := rfl
  only _ _ := rfl
  change _ _ h := .properties (.inr rfl) (.inr rfl) (.inr rfl) (.inr rfl) h
  kept _ _ h := h.resourceName

namespace Provider

variable {p q : Provider}

theorem eq_of_unnamed {refusal : String → Error}
    (h : (match p.name with
      | some name => Except.error (refusal name)
      | none => .ok p) = .ok q) : q = p := by
  split at h
  · cases h
  · cases h
    rfl

/-! ## Names -/

theorem defineAlias_eq_ok {name value : String} (h : p.defineAlias name value = .ok q) :
    p.aliases.find? name = some value ∧ q = p ∨
      p.aliases.find? name = none ∧ q = { p with aliases := p.aliases.insert name value } := by
  unfold defineAlias at h
  split at h
  · next fresh =>
    cases h
    exact .inr ⟨fresh, rfl⟩
  · next old hold =>
    split at h
    · next same =>
      cases h
      exact .inl ⟨same ▸ hold, rfl⟩
    · cases h

theorem changes_defineAlias {name value : String} (h : p.defineAlias name value = .ok q) :
    ReflTransGen Change p q := by
  rcases defineAlias_eq_ok h with ⟨-, rfl⟩ | ⟨fresh, rfl⟩
  · exact .refl
  · exact .single (.newAlias value fresh)

theorem defineTypedef_eq_ok {name : String} {type : FieldType}
    (h : p.defineTypedef name type = .ok q) : p.typedefs.find? name = some type ∧ q = p ∨
      p.typedefs.find? name = none ∧ q = { p with typedefs := p.typedefs.insert name type } := by
  unfold defineTypedef at h
  split at h
  · next fresh =>
    cases h
    exact .inr ⟨fresh, rfl⟩
  · next old hold =>
    split at h
    · next same =>
      cases h
      exact .inl ⟨same ▸ hold, rfl⟩
    · cases h

theorem changes_defineTypedef {name : String} {type : FieldType}
    (h : p.defineTypedef name type = .ok q) : ReflTransGen Change p q := by
  rcases defineTypedef_eq_ok h with ⟨-, rfl⟩ | ⟨fresh, rfl⟩
  · exact .refl
  · exact .single (.newTypedef type fresh)

/-- A channel is there, with a name and a type. -/
def HasChannel (p : Provider) (id name : String) (type : ChannelType) : Prop :=
  ∃ c, p.channels.find? id = some c ∧ c.name = name ∧ c.type = type

theorem defineChannel_eq_ok {id name : String} {type : ChannelType}
    (h : p.defineChannel id name type = .ok q) : p.HasChannel id name type ∧ q = p ∨
      p.channels.find? id = none ∧
        q = { p with channels := p.channels.insert id ⟨id, name, type, none⟩ } := by
  unfold defineChannel at h
  split at h
  · next fresh =>
    cases h
    exact .inr ⟨fresh, rfl⟩
  · next old hold =>
    split at h
    · next same =>
      cases h
      exact .inl ⟨⟨old, hold, same⟩, rfl⟩
    · cases h

theorem changes_defineChannel {id name : String} {type : ChannelType}
    (h : p.defineChannel id name type = .ok q) : ReflTransGen Change p q := by
  rcases defineChannel_eq_ok h with ⟨-, rfl⟩ | ⟨fresh, rfl⟩
  · exact .refl
  · exact .single (.newChannel name type fresh)

theorem changes_defineTask (name : String) : ReflTransGen Change p (p.defineTask name) := by
  unfold defineTask
  cases h : p.tasks.find? name with
  | none =>
    rw [Table.insertNew_eq_insert h]
    exact .single (.newTask h)
  | some t =>
    rw [Table.insertNew_eq_self h]

theorem changes_defineOpcode (name : String) : ReflTransGen Change p (p.defineOpcode name) := by
  unfold defineOpcode
  cases h : p.opcodes.find? name with
  | none =>
    rw [Table.insertNew_eq_insert h]
    exact .single (.newOpcode h)
  | some o =>
    rw [Table.insertNew_eq_self h]

/-- A task has an opcode of its own. -/
def HasLocalOpcode (p : Provider) (task opcode : String) : Prop :=
  ∃ t, p.tasks.find? task = some t ∧ t.opcodes.contains opcode = true

theorem defineTaskOpcode_eq_ok {task opcode : String} (h : p.defineTaskOpcode task opcode = .ok q) :
    p.HasLocalOpcode task opcode ∧ q = p ∨
      ¬ p.HasLocalOpcode task opcode ∧ q = p.defineOpcode opcode := by
  unfold defineTaskOpcode at h
  split at h
  · cases h
  · next t ht =>
    cases h
    split
    · next hopcode => exact .inl ⟨⟨t, ht, hopcode⟩, rfl⟩
    · next hopcode =>
      refine .inr ⟨?_, rfl⟩
      rintro ⟨t', ht', hopcode'⟩
      rw [ht] at ht'
      cases ht'
      exact hopcode hopcode'

theorem changes_defineTaskOpcode {task opcode : String}
    (h : p.defineTaskOpcode task opcode = .ok q) : ReflTransGen Change p q := by
  rcases defineTaskOpcode_eq_ok h with ⟨-, rfl⟩ | ⟨-, rfl⟩
  · exact .refl
  · exact changes_defineOpcode opcode

theorem defineLocalOpcode_eq_ok {task opcode : String}
    (h : p.defineLocalOpcode task opcode = .ok q) : (∃ t, p.tasks.find? task = some t) ∧
      q = { p with
        tasks := p.tasks.modify task fun t =>
          { t with opcodes := t.opcodes.insertNew opcode { name := opcode } } } := by
  unfold defineLocalOpcode at h
  split at h
  · next hcontains =>
    cases h
    exact ⟨Option.isSome_iff_exists.1 hcontains, rfl⟩
  · cases h

theorem changes_defineLocalOpcode {task opcode : String}
    (h : p.defineLocalOpcode task opcode = .ok q) : ReflTransGen Change p q := by
  obtain ⟨⟨t, ht⟩, rfl⟩ := defineLocalOpcode_eq_ok h
  rw [Table.modify_eq_insert ht]
  cases hopcode : t.opcodes.find? opcode with
  | none =>
    rw [Table.insertNew_eq_insert hopcode]
    exact .single (.newTaskOpcode ht hopcode)
  | some o => rw [Table.insertNew_eq_self hopcode, Table.insert_eq_self ht]

/-! ## Pinned numbers -/

section

variable {α : Type} [Numbered α] [LawfulNumbered α] {what : Scalar} {a : α} {value : UInt32}

/-- Where a number may be pinned, it was missing or is the same. -/
theorem pinOnce_eq_ok {pinned : Option UInt32}
    (h : pinOnce what (Numbered.value a) value = .ok pinned) :
    pinned = some value ∧ Filled a (Numbered.withValue a value) := by
  obtain ⟨rfl, hnone | hsame⟩ := setOnce_eq_ok h
  · exact ⟨rfl, .inr ⟨hnone, value, rfl⟩⟩
  · exact ⟨rfl, .inl (LawfulNumbered.withValue_self a value hsame)⟩

/-- Where a pin succeeds, the number was pinned on what was found. -/
theorem pinned_of_ok {store : Option UInt32 → Provider}
    (h : (pinOnce what (Numbered.value a) value >>= fun pinned => pure (store pinned)) = .ok q) :
    q = store (some value) ∧ Filled a (Numbered.withValue a value) := by
  cases hpin : pinOnce what (Numbered.value a) value with
  | error e =>
    rw [hpin] at h
    cases h
  | ok pinned =>
    rw [hpin] at h
    cases h
    obtain ⟨rfl, hfilled⟩ := pinOnce_eq_ok hpin
    exact ⟨rfl, hfilled⟩

end

theorem pinChannel_eq_ok {id : String} {value : UInt32} (h : p.pinChannel id value = .ok q) :
    (∃ c, p.channels.find? id = some c ∧ Filled c { c with value := some value }) ∧
      q = { p with channels := p.channels.modify id fun c => { c with value := some value } } := by
  unfold pinChannel at h
  split at h
  · cases h
  · next c hc =>
    obtain ⟨hq, hfilled⟩ := pinned_of_ok (a := c) h
    exact ⟨⟨c, hc, hfilled⟩, hq⟩

theorem changes_pinChannel {id : String} {value : UInt32} (h : p.pinChannel id value = .ok q) :
    ReflTransGen Change p q := by
  obtain ⟨⟨c, hc, hfilled⟩, rfl⟩ := pinChannel_eq_ok h
  have hrelated : Table.Related Filled p.channels
      (p.channels.modify id fun c => { c with value := some value }) := by
    refine Table.related_modify fun c' hc' => ?_
    obtain rfl : c = c' := Option.some.inj (hc.symm.trans hc')
    exact hfilled
  exact .single (.numbers { refl_of ProviderFilled p with rest := rfl, channels := hrelated })

theorem pinTask_eq_ok {name : String} {value : UInt32} (h : p.pinTask name value = .ok q) :
    (∃ t, p.tasks.find? name = some t ∧ Filled t { t with value := some value }) ∧
      q = { p with tasks := p.tasks.modify name fun t => { t with value := some value } } := by
  unfold pinTask at h
  split at h
  · cases h
  · next t ht =>
    obtain ⟨hq, hfilled⟩ := pinned_of_ok (a := t) h
    exact ⟨⟨t, ht, hfilled⟩, hq⟩

theorem changes_pinTask {name : String} {value : UInt32} (h : p.pinTask name value = .ok q) :
    ReflTransGen Change p q := by
  obtain ⟨⟨t, ht, hfilled⟩, rfl⟩ := pinTask_eq_ok h
  refine .single (.numbers (Numbering.providerFilled_tasks (Table.related_modify fun t' ht' => ?_)))
  obtain rfl : t = t' := Option.some.inj (ht.symm.trans ht')
  exact Numbering.taskFilled_of_filled hfilled

theorem pinOpcode_eq_ok {name : String} {value : UInt32} (h : p.pinOpcode name value = .ok q) :
    (∃ o, p.opcodes.find? name = some o ∧ Filled o { o with value := some value }) ∧
      q = { p with opcodes := p.opcodes.modify name fun o => { o with value := some value } } := by
  unfold pinOpcode at h
  split at h
  · cases h
  · next o ho =>
    obtain ⟨hq, hfilled⟩ := pinned_of_ok (a := o) h
    exact ⟨⟨o, ho, hfilled⟩, hq⟩

theorem changes_pinOpcode {name : String} {value : UInt32} (h : p.pinOpcode name value = .ok q) :
    ReflTransGen Change p q := by
  obtain ⟨⟨o, ho, hfilled⟩, rfl⟩ := pinOpcode_eq_ok h
  refine .single (.numbers (Numbering.providerFilled_opcodes (Table.related_modify fun o' ho' => ?_)))
  obtain rfl : o = o' := Option.some.inj (ho.symm.trans ho')
  exact hfilled

theorem pinTaskOpcode_eq_ok {task name : String} {value : UInt32}
    (h : p.pinTaskOpcode task name value = .ok q) :
    (∃ t o, p.tasks.find? task = some t ∧ t.opcodes.find? name = some o ∧
      Filled o { o with value := some value }) ∧
      q = { p with
        tasks := p.tasks.modify task fun t =>
          { t with
            opcodes := t.opcodes.modify name fun o => { o with value := some value } } } := by
  unfold pinTaskOpcode at h
  split at h
  · cases h
  · next o ho =>
    obtain ⟨t, ht, hopcode⟩ := Option.bind_eq_some_iff.1 ho
    obtain ⟨hq, hfilled⟩ := pinned_of_ok (a := o) h
    exact ⟨⟨t, o, ht, hopcode, hfilled⟩, hq⟩

theorem changes_pinTaskOpcode {task name : String} {value : UInt32}
    (h : p.pinTaskOpcode task name value = .ok q) : ReflTransGen Change p q := by
  obtain ⟨⟨t, o, ht, ho, hfilled⟩, rfl⟩ := pinTaskOpcode_eq_ok h
  refine .single (.numbers (Numbering.providerFilled_tasks (Table.related_modify fun t' ht' => ?_)))
  obtain rfl : t = t' := Option.some.inj (ht.symm.trans ht')
  refine ⟨rfl, refl_of Kept _, Table.related_modify fun o' ho' => ?_⟩
  obtain rfl : o = o' := Option.some.inj (ho.symm.trans ho')
  exact hfilled

end Provider

/-! ## Events -/

/-- A declaration refers to a predefined opcode that is not there yet, in a channel and a task that
are. -/
structure EventDecl.BringsOpcode (decl : EventDecl) (p : Provider) : Prop where
  channel : p.channels.contains decl.channel = true
  task : p.tasks.contains decl.task = true
  notOfTask : ¬ p.HasLocalOpcode decl.task decl.opcode
  notOfProvider : p.opcodes.find? decl.opcode = none
  predefined : (predefinedOpcode? decl.opcode).isSome = true

namespace Provider

variable {p q : Provider} {decl : EventDecl}

theorem not_there_of_bringsOpcode (h : decl.BringsOpcode p) :
    ¬ (p.HasLocalOpcode decl.task decl.opcode ∨ p.opcodes.contains decl.opcode = true) := by
  rintro (hlocal | hglobal)
  · exact h.notOfTask hlocal
  · rw [Table.contains, h.notOfProvider] at hglobal
    cases hglobal

theorem prepareEvent_of_bringsOpcode (h : decl.BringsOpcode p) :
    p.prepareEvent decl = .ok (p.defineOpcode decl.opcode) := by
  obtain ⟨t, ht⟩ := Option.isSome_iff_exists.1 h.task
  have hmissing :
      ¬ (t.opcodes.contains decl.opcode = true ∨ p.opcodes.contains decl.opcode = true) :=
    fun hthere => not_there_of_bringsOpcode h (hthere.imp_left fun hlocal => ⟨t, ht, hlocal⟩)
  rw [prepareEvent, if_pos h.channel, ht]
  dsimp only
  rw [if_neg hmissing, if_pos h.predefined]

/-- The channel, the task and the opcode that an event is declared for are there. -/
structure Prepared (p : Provider) (decl : EventDecl) : Prop where
  channel : p.channels.contains decl.channel = true
  task : ∃ t, p.tasks.find? decl.task = some t ∧
    (t.opcodes.contains decl.opcode = true ∨ p.opcodes.contains decl.opcode = true)

theorem Prepared.hasOpcode (h : p.Prepared decl) :
    p.HasLocalOpcode decl.task decl.opcode ∨ p.opcodes.contains decl.opcode = true := by
  obtain ⟨t, ht, hopcode⟩ := h.task
  exact hopcode.imp_left fun hlocal => ⟨t, ht, hlocal⟩

/-- Where an event can be prepared, all that it refers to is there, or its opcode is brought in. -/
theorem prepareEvent_eq_ok (h : p.prepareEvent decl = .ok q) :
    p.Prepared decl ∧ q = p ∨ decl.BringsOpcode p ∧ q = p.defineOpcode decl.opcode := by
  unfold prepareEvent at h
  split at h
  · next hchannel =>
    split at h
    · cases h
    · next t ht =>
      split at h
      · next hopcode =>
        cases h
        exact .inl ⟨⟨hchannel, t, ht, hopcode⟩, rfl⟩
      · next hmissing =>
        split at h
        · next hpredefined =>
          cases h
          rw [not_or] at hmissing
          refine .inr ⟨⟨hchannel, Option.isSome_iff_exists.2 ⟨t, ht⟩, ?_, ?_, hpredefined⟩, rfl⟩
          · rintro ⟨t', ht', hlocal⟩
            obtain rfl : t = t' := Option.some.inj (ht.symm.trans ht')
            exact hmissing.1 hlocal
          · exact Option.not_isSome_iff_eq_none.1 hmissing.2
        · cases h
  · cases h

theorem eq_of_prepareEvent (h : p.prepareEvent decl = .ok q) (hbrings : ¬ decl.BringsOpcode p) :
    q = p := by
  rcases prepareEvent_eq_ok h with ⟨-, rfl⟩ | ⟨hbrings', -⟩
  · rfl
  · exact absurd hbrings' hbrings

theorem prepared_of_prepareEvent (h : p.prepareEvent decl = .ok q) : q.Prepared decl := by
  rcases prepareEvent_eq_ok h with ⟨hprepared, rfl⟩ | ⟨hbrings, rfl⟩
  · exact hprepared
  · obtain ⟨t, ht⟩ := Option.isSome_iff_exists.1 hbrings.task
    refine ⟨hbrings.channel, t, ht, .inr ?_⟩
    rw [defineOpcode, Table.contains, Table.find?_insertNew, if_pos rfl]
    rfl

theorem changes_prepareEvent (h : p.prepareEvent decl = .ok q) : ReflTransGen Change p q := by
  rcases prepareEvent_eq_ok h with ⟨-, rfl⟩ | ⟨-, rfl⟩
  · exact .refl
  · exact changes_defineOpcode _

theorem only_prepareEvent (h : p.prepareEvent decl = .ok q) : Topic.events.Only p q := by
  rcases prepareEvent_eq_ok h with ⟨-, rfl⟩ | ⟨-, rfl⟩ <;> rfl

/-- An event as it is declared, with its references resolved. -/
def declared (p : Provider) (decl : EventDecl) (severity : Severity) (level : Level)
    (fields : List Field) : Event where
  name := eventSymbol decl.subsystem decl.task decl.opcode
  severity := severity
  level := level
  subsystem := decl.subsystem
  channel := decl.channel
  task := decl.task
  opcode := p.opcodeRef decl.task decl.opcode
  value := decl.value
  template := if fields.isEmpty then none else some ⟨fields⟩

theorem addEvent_eq_ok {severity : Severity} {level : Level}
    (h : p.addEvent decl severity level = .ok q) :
    ∃ fields, p.eventFields decl.params = .ok fields ∧
      p.events.find? (eventSymbol decl.subsystem decl.task decl.opcode) = none ∧
      q = { p with
        templates := p.interned fields
        events := p.events.insert (eventSymbol decl.subsystem decl.task decl.opcode)
          (p.declared decl severity level fields) } := by
  unfold addEvent at h
  cases hfields : p.eventFields decl.params with
  | error e =>
    rw [hfields] at h
    cases h
  | ok fields =>
    rw [hfields] at h
    change (if _ then _ else _) = _ at h
    by_cases hdup : p.events.contains (eventSymbol decl.subsystem decl.task decl.opcode) = true
    · rw [if_pos hdup] at h
      cases h
    · rw [if_neg hdup] at h
      cases h
      refine ⟨fields, rfl, Option.not_isSome_iff_eq_none.1 hdup, ?_⟩
      rw [interned, declared]
      split <;> rfl

theorem only_addEvent {severity : Severity} {level : Level}
    (h : p.addEvent decl severity level = .ok q) : Topic.events.Only p q := by
  obtain ⟨fields, -, -, rfl⟩ := addEvent_eq_ok h
  rfl

/-- The opcode of a prepared event is found, under the name that is declared. -/
theorem opcode?_declared (h : p.Prepared decl) (severity : Severity) (level : Level)
    (fields : List Field) :
    (p.opcode? (p.declared decl severity level fields)).isSome = true ∧
      (p.declared decl severity level fields).opcode.name = decl.opcode := by
  obtain ⟨t, ht, hor⟩ := h.task
  rw [opcode?, declared, opcodeRef, ht]
  by_cases hown : t.opcodes.contains decl.opcode = true
  · simp only [hown, if_true, Option.bind_some]
    exact ⟨hown, rfl⟩
  · simp only [hown]
    exact ⟨hor.resolve_left hown, rfl⟩

theorem change_addEvent (hprepared : p.Prepared decl) {severity : Severity} {level : Level}
    (h : p.addEvent decl severity level = .ok q) : Change p q := by
  obtain ⟨fields, -, fresh, rfl⟩ := addEvent_eq_ok h
  obtain ⟨hopcode, hname⟩ := opcode?_declared hprepared severity level fields
  obtain ⟨t, ht, -⟩ := hprepared.task
  refine .newEvent (e := p.declared decl severity level fields) {
    fresh
    symbol := ?_
    channel := hprepared.channel
    task := Option.isSome_iff_exists.2 ⟨t, ht⟩
    opcode := hopcode
    template := rfl }
  rw [hname]
  rfl

end Provider

end EventSchema
