import EventSchema.Proofs.Draft.Operation
import EventSchema.Proofs.Numbering.Outcome

/-!
# Referential integrity

Whatever has been done to a draft, every entity of its provider is stored under its own name and
everything an event refers to is there (`coherent_after`). An event is resolved when it is added,
and nothing it refers to is taken away later.
-/

namespace EventSchema

open EventSchema.Numbering (Filled ProviderFilled Complete numberIn taskNumber)

/-! ## Entities under their names -/

/-- Every value of a table is stored under its own name. -/
def KeyedBy {κ α : Type} [Ord κ] [DecidableEq κ] (name : α → κ) (t : Table κ α) : Prop :=
  ∀ k a, t.find? k = some a → name a = k

section

variable {κ α : Type} [Ord κ] [DecidableEq κ] {name : α → κ} {t s : Table κ α}

theorem keyedBy_insert [Std.TransOrd κ] [Std.LawfulEqOrd κ] (h : KeyedBy name t) {k : κ} {a : α}
    (hk : name a = k) : KeyedBy name (t.insert k a) := by
  intro j b hb
  rw [Table.find?_insert] at hb
  by_cases hj : j = k
  · rw [if_pos hj] at hb
    cases hb
    exact hk.trans hj.symm
  · rw [if_neg hj] at hb
    exact h j b hb

theorem keyedBy_of_related {R : α → α → Prop} (h : KeyedBy name t) (hts : Table.Related R t s)
    (hR : ∀ a b, R a b → name b = name a) : KeyedBy name s := by
  intro k b hb
  obtain ⟨a, ha, hab⟩ := hts.of_right hb
  exact (hR a b hab).trans (h k a ha)

end

theorem channel_id_of_filled {a b : Channel} (h : Filled a b) : b.id = a.id := by
  rcases h with rfl | ⟨-, v, rfl⟩ <;> rfl

theorem opcode_name_of_filled {a b : Opcode} (h : Filled a b) : b.name = a.name := by
  rcases h with rfl | ⟨-, v, rfl⟩ <;> rfl

theorem event_name_of_filled {a b : Event} (h : Filled a b) : b.name = a.name := by
  rcases h with rfl | ⟨-, v, rfl⟩ <;> rfl

namespace Provider

/-! ## Resolved events -/

/-- Everything that an event refers to is there. -/
structure Resolved (p : Provider) (e : Event) : Prop where
  symbol : e.name = eventSymbol e.subsystem e.task e.opcode.name
  channel : p.channels.contains e.channel = true
  task : p.tasks.contains e.task = true
  opcode : ∃ o, p.opcode? e = some o ∧ o.name = e.opcode.name
  template : ∀ t, e.template = some t → t.fields ≠ [] ∧ p.templates.find? t.fields = some t

variable {p q : Provider}

/-- The opcode of an event stays, but for its number. -/
theorem opcode?_of_grown (h : Grown p q) {e : Event} {o : Opcode} (ho : p.opcode? e = some o) :
    ∃ o', q.opcode? e = some o' ∧ Filled o o' := by
  unfold opcode? at ho ⊢
  cases href : e.opcode with
  | ofTask name =>
    rw [href] at ho
    obtain ⟨t, ht, ho⟩ := Option.bind_eq_some_iff.1 ho
    obtain ⟨u, hu, htu⟩ := h.tasks _ t ht
    obtain ⟨o', ho', hfilled⟩ := htu.opcodes name o ho
    exact ⟨o', Option.bind_eq_some_iff.2 ⟨u, hu, ho'⟩, hfilled⟩
  | ofProvider name =>
    rw [href] at ho
    exact h.opcodes name o ho

theorem resolved_of_grown (h : Grown p q) {e : Event} (he : p.Resolved e) : q.Resolved e := by
  refine ⟨he.symbol, h.channels.contains he.channel, h.tasks.contains he.task, ?_, ?_⟩
  · obtain ⟨o, ho, hname⟩ := he.opcode
    obtain ⟨o', ho', hfilled⟩ := opcode?_of_grown h ho
    exact ⟨o', ho', (opcode_name_of_filled hfilled).trans hname⟩
  · intro t ht
    obtain ⟨hne, hfind⟩ := he.template t ht
    obtain ⟨t', ht', rfl⟩ := h.templates _ t hfind
    exact ⟨hne, ht'⟩

/-- The number of an event does not matter for what it refers to. -/
theorem resolved_of_filled {e f : Event} (h : Filled e f) (he : p.Resolved e) : p.Resolved f := by
  rcases h with rfl | ⟨-, v, rfl⟩
  · exact he
  · exact ⟨he.symbol, he.channel, he.task, he.opcode, he.template⟩

/-! ## Coherent providers -/

/-- Every entity is stored under its own name, and everything that events refer to is there. -/
structure Coherent (p : Provider) : Prop where
  channels : KeyedBy Channel.id p.channels
  tasks : KeyedBy Task.name p.tasks
  taskOpcodes : ∀ task t, p.tasks.find? task = some t → KeyedBy Opcode.name t.opcodes
  opcodes : KeyedBy Opcode.name p.opcodes
  events : KeyedBy Event.name p.events
  templates : KeyedBy Template.fields p.templates
  resolved : ∀ name e, p.events.find? name = some e → p.Resolved e

theorem coherent_empty : Coherent {} := by
  constructor <;> rintro _ _ ⟨⟩

theorem find?_interned_self {fields : List Field} (hp : p.Coherent) (h : fields ≠ []) :
    (p.interned fields).find? fields = some ⟨fields⟩ := by
  rw [interned, if_neg (by simpa using h), Table.find?_insertNew, if_pos rfl]
  cases ht : p.templates.find? fields with
  | none => rfl
  | some t =>
    obtain ⟨_⟩ := t
    cases hp.templates fields _ ht
    rfl

theorem keyedBy_interned (hp : p.Coherent) (fields : List Field) :
    KeyedBy Template.fields (p.interned fields) := by
  rw [interned]
  split
  · exact hp.templates
  · cases ht : p.templates.find? fields with
    | none =>
      rw [Table.insertNew_eq_insert ht]
      exact keyedBy_insert hp.templates rfl
    | some t =>
      rw [Table.insertNew_eq_self ht]
      exact hp.templates

/-- An event that a coherent provider admits is resolved once its template is stored. -/
theorem resolved_of_admits (hp : p.Coherent) {e : Event} {fields : List Field}
    (h : p.Admits e fields) (events : Table String Event) :
    Resolved { p with templates := p.interned fields, events := events } e := by
  refine ⟨h.symbol, h.channel, h.task, ?_, ?_⟩
  · obtain ⟨o, ho⟩ := Option.isSome_iff_exists.1 h.opcode
    refine ⟨o, ho, ?_⟩
    unfold opcode? at ho
    cases href : e.opcode with
    | ofTask name =>
      rw [href] at ho
      obtain ⟨t, ht, ho⟩ := Option.bind_eq_some_iff.1 ho
      exact hp.taskOpcodes _ t ht name o ho
    | ofProvider name =>
      rw [href] at ho
      exact hp.opcodes name o ho
  · intro t ht
    rw [h.template] at ht
    split at ht
    · cases ht
    · next hne =>
      cases ht
      have hne : fields ≠ [] := by simpa using hne
      exact ⟨hne, find?_interned_self hp hne⟩

/-- **A change keeps a provider coherent.** -/
theorem coherent_of_change (hp : p.Coherent) (h : Change p q) : q.Coherent := by
  have kept : ∀ name e, p.events.find? name = some e → q.Resolved e := fun name e he =>
    resolved_of_grown (grown_of_change h) (hp.resolved name e he)
  cases h with
  | properties => exact { hp with resolved := kept }
  | newAlias => exact { hp with resolved := kept }
  | newTypedef => exact { hp with resolved := kept }
  | newChannel name type fresh =>
    exact { hp with channels := keyedBy_insert hp.channels rfl, resolved := kept }
  | newTask fresh =>
    refine { hp with
      tasks := keyedBy_insert hp.tasks rfl
      taskOpcodes := fun task t ht => ?_
      resolved := kept }
    rw [Table.find?_insert] at ht
    split at ht
    · cases ht
      rintro _ _ ⟨⟩
    · exact hp.taskOpcodes task t ht
  | newOpcode fresh =>
    exact { hp with opcodes := keyedBy_insert hp.opcodes rfl, resolved := kept }
  | @newTaskOpcode task name t ht fresh =>
    refine { hp with
      tasks := keyedBy_insert hp.tasks (hp.tasks task t ht)
      taskOpcodes := fun task' u hu => ?_
      resolved := kept }
    rw [Table.find?_insert] at hu
    split at hu
    · cases hu
      exact keyedBy_insert (hp.taskOpcodes task t ht) rfl
    · exact hp.taskOpcodes task' u hu
  | numbers h =>
    have htemplates : q.templates = p.templates := by rw [h.rest]
    refine {
      channels := keyedBy_of_related hp.channels h.channels fun _ _ => channel_id_of_filled
      tasks := keyedBy_of_related hp.tasks h.tasks fun _ _ htu => htu.name
      taskOpcodes := fun task u hu => ?_
      opcodes := keyedBy_of_related hp.opcodes h.opcodes fun _ _ => opcode_name_of_filled
      events := keyedBy_of_related hp.events h.events fun _ _ => event_name_of_filled
      templates := htemplates ▸ hp.templates
      resolved := fun name f hf => ?_ }
    · obtain ⟨t, ht, htu⟩ := h.tasks.of_right hu
      exact keyedBy_of_related (hp.taskOpcodes task t ht) htu.opcodes
        fun _ _ => opcode_name_of_filled
    · obtain ⟨e, he, hfilled⟩ := h.events.of_right hf
      exact resolved_of_filled hfilled (kept name e he)
  | @newEvent e fields h =>
    refine { hp with
      events := keyedBy_insert hp.events rfl
      templates := keyedBy_interned hp fields
      resolved := fun name f hf => ?_ }
    rw [Table.find?_insert] at hf
    split at hf
    · cases hf
      exact resolved_of_admits hp h _
    · exact kept name f hf

theorem coherent_of_changes (h : Relation.ReflTransGen Change p q) (hp : p.Coherent) :
    q.Coherent := by
  induction h with
  | refl => exact hp
  | tail _ hchange ih => exact coherent_of_change ih hchange

/-! ## Numbered opcodes -/

theorem value_of_complete {α : Type} [Numbered α] {t : Table String α} (h : Complete t)
    {name : String} {a : α} (ha : t.find? name = some a) : ∃ v, Numbered.value a = some v := by
  obtain ⟨v, hv⟩ := h name (Table.mem_keys_iff.2 ⟨a, ha⟩)
  rw [numberIn, ha] at hv
  exact ⟨v, hv⟩

/-- Once a provider is numbered, every opcode that is referred to has a number. -/
theorem value_of_opcode? {r : Provider} (h : p.numbered = .ok r) {e : Event} {o : Opcode}
    (ho : r.opcode? e = some o) : ∃ v, o.value = some v := by
  obtain ⟨p₁, p₂, p₃, taken, -, -, opcodes, taskOpcodes, events⟩ := Numbering.passes_of_numbered h
  have rTasks : r.tasks = p₃.tasks := by rw [events.rest]
  have rOpcodes : r.opcodes = p₂.opcodes := by rw [events.rest, taskOpcodes.rest]
  unfold opcode? at ho
  cases href : e.opcode with
  | ofTask name =>
    rw [href] at ho
    obtain ⟨t, ht, ho⟩ := Option.bind_eq_some_iff.1 ho
    rw [rTasks] at ht
    exact value_of_complete (taskOpcodes.complete _ t ht) ho
  | ofProvider name =>
    rw [href, rOpcodes] at ho
    exact value_of_complete opcodes.complete ho

end Provider

theorem Build.assignNumbers_eq_ok {d d' : Draft} (h : Build.assignNumbers d = .ok () d') :
    d.model.numbered = .ok d'.model := by
  rw [Numbering.numbered_eq_ok]
  unfold Build.assignNumbers at h
  split at h
  · next hrun =>
    cases h
    exact hrun
  · cases h

/-- **Referential integrity.** It holds after any operations, each of which may have failed; and once
numbers are assigned, the opcode of every event has one. -/
theorem coherent_after (ops : List Operation) :
    (({} : Draft).after ops).model.Coherent ∧
      ∀ d, Build.assignNumbers (({} : Draft).after ops) = .ok () d →
        ∀ name e, d.model.events.find? name = some e →
          ∃ o v, d.model.opcode? e = some o ∧ o.value = some v := by
  have hcoherent : (({} : Draft).after ops).model.Coherent :=
    Provider.coherent_of_changes (Draft.changes_after {} ops).model Provider.coherent_empty
  refine ⟨hcoherent, fun d hassign name e he => ?_⟩
  have hnumbered := Build.assignNumbers_eq_ok hassign
  have hd : d.model.Coherent :=
    Provider.coherent_of_change hcoherent (.numbers (Numbering.filled_of_numbered hnumbered))
  obtain ⟨o, ho, -⟩ := (hd.resolved name e he).opcode
  obtain ⟨v, hv⟩ := Provider.value_of_opcode? hnumbered ho
  exact ⟨o, v, ho, hv⟩

/-- An event of a task, one that is refused for a type that does not exist, and the same event with a
type that does. The refused one has brought in the predefined opcode. -/
def refusedOnce : List Operation := [
  .defineChannel "Admin" "Admin" .admin,
  .merge { tasks := [{ name := "Net", opcodes := [{ name := "Read" }] }] },
  .defineEvent ⟨"srv", "Success", "Informational", "Admin", "Net", "Read", [], some 7⟩,
  .defineEvent ⟨"srv", "Success", "Informational", "Admin", "Net", "Start", [("Float16", "n")], none⟩,
  .defineEvent ⟨"srv", "Success", "Informational", "Admin", "Net", "Start", [("Int32", "n")], none⟩]

theorem coherent_after_refusal :
    ∃ d, Build.assignNumbers (({} : Draft).after refusedOnce) = .ok () d ∧
      d.model.events.keys = ["srv_Net_Read", "srv_Net_Start"] ∧
      (({} : Draft).after refusedOnce).model.Coherent ∧
      ∀ name e, d.model.events.find? name = some e →
        ∃ o v, d.model.opcode? e = some o ∧ o.value = some v := by
  obtain ⟨d, hassign, hkeys⟩ : ∃ d, Build.assignNumbers (({} : Draft).after refusedOnce) = .ok () d ∧
      d.model.events.keys = ["srv_Net_Read", "srv_Net_Start"] := ⟨_, rfl, rfl⟩
  obtain ⟨hcoherent, hvalues⟩ := coherent_after refusedOnce
  exact ⟨d, hassign, hkeys, hcoherent, hvalues d hassign⟩

end EventSchema
