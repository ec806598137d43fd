import EventSchema.Proofs.Document.JsonForm
import EventSchema.Proofs.Report.Catalogue

/-!
# A model can be told from its JSON

Every entity can be told from its JSON, but for events, which show the ids of their templates only
(`event_eq_of_toJson`). A coherent provider keeps its entities under their names, so the lists in
its JSON determine its tables, and where no two templates share an id the JSON determines the
provider (`Provider.eq_of_toJson`).
-/

namespace EventSchema

open Json (ofText? ofValue? ofWord ofList)

/-! ## Values -/

theorem ofText?_injective : Function.Injective ofText? := by
  intro s t h
  cases s <;> cases t <;> cases h <;> rfl

theorem ofValue?_injective : Function.Injective ofValue? := by
  intro v w h
  cases v with
  | none =>
    cases w with
    | none => rfl
    | some w => cases h
  | some v =>
    cases w with
    | none => cases h
    | some w => exact congrArg some (UInt32.toNat_inj.1 (Json.number.inj h))

theorem hex_injective : Function.Injective Text.Numeral.hex := by
  have hpadded : ∀ n, Text.Numeral.hex n = Text.Numeral.paddedHex 0 n := by
    intro n
    rw [Text.Numeral.hex, Text.Numeral.paddedHex, Nat.zero_sub]
    rfl
  intro n m h
  have hread := Text.Numeral.read?_paddedHex 0 n
  rw [← hpadded, h, hpadded, Text.Numeral.read?_paddedHex] at hread
  exact (Option.some.inj hread).symm

/-- Lists are the same if their items are told apart by what is shown of them. -/
theorem eq_of_map_eq {α β : Type} {f : α → β} {l m : List α} (h : l.map f = m.map f)
    (hf : ∀ a ∈ l, ∀ b ∈ m, f a = f b → a = b) : l = m := by
  induction l generalizing m with
  | nil => exact (List.map_eq_nil_iff.1 h.symm).symm
  | cons a l ih =>
    cases m with
    | nil => cases h
    | cons b m =>
      obtain ⟨hab, hlm⟩ := List.cons.inj h
      rw [hf a List.mem_cons_self b List.mem_cons_self hab,
        ih hlm fun a ha b hb => hf a (.tail _ ha) b (.tail _ hb)]

theorem ofList_injective {α : Type} {item : α → Json} (h : Function.Injective item) :
    Function.Injective (ofList item) := by
  intro l m heq
  exact eq_of_map_eq (Json.array.inj heq) fun a _ b _ hab => h hab

/-- The words of a vocabulary are told apart by their names, if it lists them all and no name
twice. -/
theorem ofWord_injective {α : Type} [Vocabulary α] (all : ∀ a : α, a ∈ Vocabulary.words)
    (nodup : ((Vocabulary.words : List α).map Vocabulary.name).Nodup) :
    Function.Injective (ofWord (α := α)) := by
  intro a b h
  exact List.inj_on_of_nodup_map nodup (all a) (all b) (Json.string.inj h)

theorem channelType_injective : Function.Injective (ofWord (α := ChannelType)) :=
  ofWord_injective (fun a => by cases a <;> decide) (by decide)

theorem severity_injective : Function.Injective (ofWord (α := Severity)) :=
  ofWord_injective (fun a => by cases a <;> decide) (by decide)

theorem level_injective : Function.Injective (ofWord (α := Level)) :=
  ofWord_injective (fun a => by cases a <;> decide) (by decide)

theorem fieldType_injective : Function.Injective (ofWord (α := FieldType)) :=
  ofWord_injective (fun a => by cases a <;> decide) (by decide)

/-! ## Tables -/

/-- Tables by name with the same values are equal. -/
theorem eq_of_mem_values_iff {κ α : Type} [Ord κ] [DecidableEq κ] [Std.TransOrd κ] {name : α → κ}
    {t s : Table κ α} (ht : KeyedBy name t) (hs : KeyedBy name s)
    (h : ∀ a, a ∈ t.values ↔ a ∈ s.values) : t = s := by
  have stored : ∀ {t : Table κ α}, KeyedBy name t → ∀ k a,
      t.find? k = some a ↔ a ∈ t.values ∧ name a = k := by
    intro t ht k a
    rw [Table.mem_values_iff]
    constructor
    · exact fun ha => ⟨⟨k, ha⟩, ht k a ha⟩
    · rintro ⟨⟨j, ha⟩, rfl⟩
      rwa [ht j a ha]
  refine Table.ext_find? fun k => Option.ext fun a => ?_
  rw [stored ht, stored hs, h]

theorem eq_of_values_eq {κ α : Type} [Ord κ] [DecidableEq κ] [Std.TransOrd κ] {name : α → κ}
    {t s : Table κ α} (ht : KeyedBy name t) (hs : KeyedBy name s) (h : t.values = s.values) :
    t = s :=
  eq_of_mem_values_iff ht hs fun a => by rw [h]

/-- A table of pairs can be told from its array. -/
theorem eq_of_pairs_eq {α : Type} {shown : α → Json} (h : Function.Injective shown)
    {t s : Table String α}
    (heq : ofList (fun e => .array [.string e.1, shown e.2]) t.entries =
      ofList (fun e => .array [.string e.1, shown e.2]) s.entries) : t = s := by
  refine Table.ext_entries (ofList_injective (fun a b hab => ?_) heq)
  simp only [Json.array.injEq, List.cons.injEq, Json.string.injEq, and_true] at hab
  exact Prod.ext hab.1 (h hab.2)

/-! ## Entities -/

theorem channel_toJson_injective : Function.Injective Channel.toJson := by
  rintro ⟨id, name, type, value⟩ ⟨id', name', type', value'⟩ h
  simp only [Channel.toJson, Json.object.injEq, List.cons.injEq, Prod.mk.injEq, Json.string.injEq,
    true_and, and_true] at h
  obtain ⟨rfl, rfl, htype, hvalue⟩ := h
  rw [channelType_injective htype, ofValue?_injective hvalue]

theorem opcode_toJson_injective : Function.Injective Opcode.toJson := by
  rintro ⟨name, value⟩ ⟨name', value'⟩ h
  simp only [Opcode.toJson, Json.object.injEq, List.cons.injEq, Prod.mk.injEq, Json.string.injEq,
    true_and, and_true] at h
  obtain ⟨rfl, hvalue⟩ := h
  rw [ofValue?_injective hvalue]

/-- A task can be told from its JSON if it has its opcodes under their names. -/
theorem task_eq_of_toJson {t u : Task} (ht : KeyedBy Opcode.name t.opcodes)
    (hu : KeyedBy Opcode.name u.opcodes) (h : t.toJson = u.toJson) : t = u := by
  obtain ⟨name, value, opcodes⟩ := t
  obtain ⟨name', value', opcodes'⟩ := u
  simp only [Task.toJson, Json.object.injEq, List.cons.injEq, Prod.mk.injEq, Json.string.injEq,
    true_and, and_true] at h
  obtain ⟨rfl, hvalue, hopcodes⟩ := h
  have hsame : opcodes = opcodes' :=
    eq_of_values_eq ht hu (ofList_injective opcode_toJson_injective hopcodes)
  rw [ofValue?_injective hvalue, hsame]

theorem opcodeRef_toJson_injective : Function.Injective OpcodeRef.toJson := by
  intro r s h
  cases r <;> cases s <;>
    simp only [OpcodeRef.toJson, Json.object.injEq, List.cons.injEq, Prod.mk.injEq,
      Json.string.injEq, true_and, and_true] at h
  case ofTask.ofTask => rw [h]
  case ofProvider.ofProvider => rw [h]
  all_goals exact absurd h.1 (by decide)

theorem field_toJson_injective : Function.Injective Field.toJson := by
  rintro ⟨type, name⟩ ⟨type', name'⟩ h
  simp only [Field.toJson, Json.object.injEq, List.cons.injEq, Prod.mk.injEq, Json.string.injEq,
    true_and, and_true] at h
  obtain ⟨htype, rfl⟩ := h
  rw [fieldType_injective htype]

theorem template_toJson_injective : Function.Injective Template.toJson := by
  rintro ⟨fields⟩ ⟨fields'⟩ h
  simp only [Template.toJson, Json.object.injEq, List.cons.injEq, Prod.mk.injEq, true_and,
    and_true] at h
  rw [ofList_injective field_toJson_injective h.2]

/-- An event can be told from its JSON if its template can be told from its id. -/
theorem event_eq_of_toJson {e f : Event}
    (htemplate : ∀ t u, e.template = some t → f.template = some u → t.id = u.id → t = u)
    (h : e.toJson = f.toJson) : e = f := by
  obtain ⟨name, subsystem, severity, level, channel, task, opcode, value, template⟩ := e
  obtain ⟨name', subsystem', severity', level', channel', task', opcode', value', template'⟩ := f
  simp only [Event.toJson, Json.object.injEq, List.cons.injEq, Prod.mk.injEq, Json.string.injEq,
    true_and, and_true] at h
  obtain ⟨rfl, rfl, hseverity, hlevel, rfl, rfl, hopcode, hvalue, hid⟩ := h
  have htemplates : template = template' := by
    have hid := ofText?_injective hid
    cases template with
    | none => exact (Option.map_eq_none_iff.1 hid.symm).symm
    | some t =>
      cases template' with
      | none => cases hid
      | some u => exact congrArg some (htemplate t u rfl rfl (Option.some.inj hid))
  rw [severity_injective hseverity, level_injective hlevel, opcodeRef_toJson_injective hopcode,
    ofValue?_injective hvalue, htemplates]

/-! ## Providers -/

namespace Provider

variable {p q : Provider}

theorem tasks_eq (hp : p.Coherent) (hq : q.Coherent)
    (h : ofList Task.toJson p.tasks.values = ofList Task.toJson q.tasks.values) :
    p.tasks = q.tasks := by
  refine eq_of_values_eq hp.tasks hq.tasks (eq_of_map_eq (Json.array.inj h) ?_)
  intro t ht u hu heq
  obtain ⟨k, hk⟩ := Table.mem_values_iff.1 ht
  obtain ⟨j, hj⟩ := Table.mem_values_iff.1 hu
  exact task_eq_of_toJson (hp.taskOpcodes k t hk) (hq.taskOpcodes j u hj) heq

/-- The template of an event is among those of its provider. -/
theorem mem_templates_of_event (hp : p.Coherent) {e : Event} (he : e ∈ p.events.values)
    {t : Template} (ht : e.template = some t) : t ∈ p.templates.values := by
  obtain ⟨k, hk⟩ := Table.mem_values_iff.1 he
  exact Table.mem_values_iff.2 ⟨t.fields, ((hp.resolved k e hk).template t ht).2⟩

theorem events_eq (hp : p.Coherent) (hq : q.Coherent)
    (apart : IdsDiffer (p.templates.values ++ q.templates.values))
    (h : ofList Event.toJson p.events.values = ofList Event.toJson q.events.values) :
    p.events = q.events := by
  refine eq_of_values_eq hp.events hq.events (eq_of_map_eq (Json.array.inj h) ?_)
  intro e he f hf heq
  refine event_eq_of_toJson (fun t u ht hu hid => ?_) heq
  exact apart.eq_of_id (List.mem_append_left _ (mem_templates_of_event hp he ht))
    (List.mem_append_right _ (mem_templates_of_event hq hf hu)) hid

theorem templates_eq (hp : p.Coherent) (hq : q.Coherent)
    (h : ofList Template.toJson p.templatesById = ofList Template.toJson q.templatesById) :
    p.templates = q.templates := by
  have hsorted : p.templatesById = q.templatesById := ofList_injective template_toJson_injective h
  refine eq_of_mem_values_iff hp.templates hq.templates fun t => ?_
  rw [← mem_templatesById, hsorted, mem_templatesById]

/-- **A coherent provider can be told from its JSON**, where no two templates share an id. -/
theorem eq_of_toJson (hp : p.Coherent) (hq : q.Coherent)
    (apart : IdsDiffer (p.templates.values ++ q.templates.values)) (h : p.toJson = q.toJson) :
    p = q := by
  obtain ⟨id, name, symbol, description, resourceName, channels, tasks, opcodes, events, templates,
    aliases, typedefs⟩ := p
  obtain ⟨id', name', symbol', description', resourceName', channels', tasks', opcodes', events',
    templates', aliases', typedefs'⟩ := q
  simp only [toJson, Json.object.injEq, List.cons.injEq, Prod.mk.injEq, true_and, and_true] at h
  obtain ⟨hid, hname, hsymbol, hdescription, hresourceName, hchannels, htasks, hopcodes, hevents,
    htemplates, haliases, htypedefs⟩ := h
  have htasks := tasks_eq hp hq htasks
  have hevents := events_eq hp hq apart hevents
  have htemplates := templates_eq hp hq htemplates
  have hchannels := eq_of_values_eq hp.channels hq.channels
    (ofList_injective channel_toJson_injective hchannels)
  have hopcodes := eq_of_values_eq hp.opcodes hq.opcodes
    (ofList_injective opcode_toJson_injective hopcodes)
  cases Option.map_injective hex_injective (ofText?_injective hid)
  cases ofText?_injective hname
  cases ofText?_injective hsymbol
  cases ofText?_injective hdescription
  cases ofText?_injective hresourceName
  cases hchannels
  cases htasks
  cases hopcodes
  cases hevents
  cases htemplates
  cases eq_of_pairs_eq (fun _ _ hst => Json.string.inj hst) haliases
  cases eq_of_pairs_eq fieldType_injective htypedefs
  rfl

end Provider

/-! ## Texts -/

open Json (native_ofText? native_ofValue? native_ofList)

theorem native_channel (c : Channel) : c.toJson.Native := by
  refine .object ?_
  simp only [List.forall_mem_cons]
  exact ⟨.string _, .string _, .string _, native_ofValue? _, nofun⟩

theorem native_opcode (o : Opcode) : o.toJson.Native := by
  refine .object ?_
  simp only [List.forall_mem_cons]
  exact ⟨.string _, native_ofValue? _, nofun⟩

theorem native_task (t : Task) : t.toJson.Native := by
  refine .object ?_
  simp only [List.forall_mem_cons]
  exact ⟨.string _, native_ofValue? _, native_ofList native_opcode _, nofun⟩

theorem native_opcodeRef (r : OpcodeRef) : r.toJson.Native := by
  cases r <;>
    · refine .object ?_
      simp only [List.forall_mem_cons]
      exact ⟨.string _, .string _, nofun⟩

theorem native_event (e : Event) : e.toJson.Native := by
  refine .object ?_
  simp only [List.forall_mem_cons]
  exact ⟨.string _, .string _, .string _, .string _, .string _, .string _, native_opcodeRef _,
    native_ofValue? _, native_ofText? _, nofun⟩

theorem native_template (t : Template) : t.toJson.Native := by
  have hfield : ∀ f : Field, f.toJson.Native := by
    intro f
    refine .object ?_
    simp only [List.forall_mem_cons]
    exact ⟨.string _, .string _, nofun⟩
  refine .object ?_
  simp only [List.forall_mem_cons]
  exact ⟨.string _, native_ofList hfield _, nofun⟩

theorem native_provider (p : Provider) : p.toJson.Native := by
  have hpair : ∀ s t : String, (Json.array [.string s, .string t]).Native := by
    intro s t
    refine .array ?_
    simp only [List.forall_mem_cons]
    exact ⟨.string _, .string _, nofun⟩
  refine .object ?_
  simp only [List.forall_mem_cons]
  exact ⟨native_ofText? _, native_ofText? _, native_ofText? _, native_ofText? _, native_ofText? _,
    native_ofList native_channel _, native_ofList native_task _, native_ofList native_opcode _,
    native_ofList native_event _, native_ofList native_template _,
    native_ofList (fun _ => hpair _ _) _, native_ofList (fun _ => hpair _ _) _, nofun⟩

/-- The value of a JSON text can be told from the text. -/
theorem Json.Native.eq_of_pretty_eq {v w : Json} (hv : v.Native) (hw : w.Native)
    (h : v.pretty = w.pretty) : v = w := by
  have hread := Json.parse?_of_shows hv hv.shows_pretty
  rw [h, Json.parse?_of_shows hw hw.shows_pretty] at hread
  exact (Option.some.inj hread).symm

/-! ## Reachable models -/

/-- **The JSON of a model loses nothing.** Two reachable models of whose templates no two share an
id are the same if their JSON is, as a value or as a text, and each list in it shows every entity
exactly once in strictly ascending order. -/
theorem eq_of_toJson_after (ops ops' : List Operation) :
    let p := (({} : Draft).after ops).model
    let q := (({} : Draft).after ops').model
    Provider.IdsDiffer (p.templates.values ++ q.templates.values) →
      (p.toJson = q.toJson → p = q) ∧ (p.toJson.pretty = q.toJson.pretty → p = q) ∧
        p.Catalogued ∧ q.Catalogued := by
  intro p q apart
  have hp : p.Coherent := (coherent_after ops).1
  have hq : q.Coherent := (coherent_after ops').1
  have hsame : p.toJson = q.toJson → p = q := Provider.eq_of_toJson hp hq apart
  have htext : p.toJson.pretty = q.toJson.pretty → p = q := fun h =>
    hsame ((native_provider p).eq_of_pretty_eq (native_provider q) h)
  exact ⟨hsame, htext,
    Provider.catalogued_of_coherent hp (apart.of_subset (List.subset_append_left _ _)),
    Provider.catalogued_of_coherent hq (apart.of_subset (List.subset_append_right _ _))⟩

/-- A start and a stop, and the same after a task has been declared in advance. -/
theorem eq_of_toJson_after_repeated :
    let p := (({} : Draft).after (startAndStop "sent" "send")).model
    let q := (({} : Draft).after (.defineTask "Net" :: startAndStop "sent" "send")).model
    Provider.IdsDiffer (p.templates.values ++ q.templates.values) ∧
      p.toJson = q.toJson ∧ p = q ∧ p.Catalogued ∧ q.Catalogued := by
  intro p q
  have apart : Provider.IdsDiffer (p.templates.values ++ q.templates.values) := by decide +kernel
  obtain ⟨hsame, -, hp, hq⟩ := eq_of_toJson_after (startAndStop "sent" "send")
    (.defineTask "Net" :: startAndStop "sent" "send") apart
  have hjson : p.toJson = q.toJson := rfl
  exact ⟨apart, hjson, hsame hjson, hp, hq⟩

end EventSchema
