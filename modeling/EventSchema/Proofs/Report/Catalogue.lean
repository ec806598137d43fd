import EventSchema.Proofs.Draft.TemplateId
import EventSchema.Report.ModelJson

/-!
# The lists of a model in JSON

Each list in the JSON of a coherent model is the catalogue of a table (`Catalogues`): it shows every
entry exactly once, in strictly ascending order of a text that is shown. Templates are listed by
their ids instead of their keys, so theirs is one only if no two of them share an id
(`catalogued_of_coherent`).
-/

namespace EventSchema

namespace Json

/-- What an object holds under a key. -/
def member? (key : String) : Json → Option Json
  | .object members => members.lookup key
  | _ => none

/-- The text of a string. -/
def string? : Json → Option String
  | .string s => some s
  | _ => none

/-- The text that an object holds under a key. -/
def textAt? (key : String) (v : Json) : Option String := (v.member? key).bind string?

/-- The text that stands first in an array. -/
def firstText? : Json → Option String
  | .array (v :: _) => v.string?
  | _ => none

end Json

variable {κ α : Type} [Ord κ] [DecidableEq κ]

/-- `v` is an array that shows every entry of a table exactly once, in strictly ascending order of
the texts that `key` reads from the items. -/
def Catalogues (key : Json → Option String) (shown : κ → α → Json) (t : Table κ α)
    (v : Option Json) : Prop :=
  ∃ items, v = some (.array items) ∧
    items.Pairwise (fun a b => ∃ s u, key a = some s ∧ key b = some u ∧ compare s u = .lt) ∧
    (∀ item ∈ items, ∃ k a, t.find? k = some a ∧ item = shown k a) ∧
    ∀ k a, t.find? k = some a → ∃! place : Nat, items[place]? = some (shown k a)

/-- No item stands in two places of a list that ascends strictly. -/
theorem place_unique {key : Json → Option String} {items : List Json}
    (h : items.Pairwise fun a b => ∃ s u, key a = some s ∧ key b = some u ∧ compare s u = .lt)
    {item : Json} {i j : Nat} (hi : items[i]? = some item) (hj : items[j]? = some item) : i = j := by
  have hirreflexive : ¬ ∃ s u, key item = some s ∧ key item = some u ∧ compare s u = .lt := by
    rintro ⟨s, u, hs, hu, hlt⟩
    rw [hs] at hu
    cases hu
    simp at hlt
  obtain ⟨hi', rfl⟩ := List.getElem?_eq_some_iff.1 hi
  obtain ⟨hj', hsame⟩ := List.getElem?_eq_some_iff.1 hj
  rcases Nat.lt_trichotomy i j with hlt | heq | hgt
  · have := List.pairwise_iff_getElem.1 h i j hi' hj' hlt
    rw [hsame] at this
    exact absurd this hirreflexive
  · exact heq
  · have := List.pairwise_iff_getElem.1 h j i hj' hi' hgt
    rw [hsame] at this
    exact absurd this hirreflexive

/-- The entries of a table in strictly ascending order of their names are a catalogue of it. -/
theorem catalogues_of_perm [Std.TransOrd κ] {key : Json → Option String} {shown : κ → α → Json}
    {t : Table κ α} {l : List (κ × α)} (name : κ × α → String) (perm : l.Perm t.entries)
    (hkey : ∀ e ∈ l, key (shown e.1 e.2) = some (name e))
    (ascending : l.Pairwise fun a b => compare (name a) (name b) = .lt) :
    Catalogues key shown t (some (.array (l.map fun e => shown e.1 e.2))) := by
  have hpairwise : (l.map fun e => shown e.1 e.2).Pairwise fun a b =>
      ∃ s u, key a = some s ∧ key b = some u ∧ compare s u = .lt := by
    refine List.pairwise_map.2 (ascending.imp_of_mem fun {a b} ha hb hlt => ?_)
    exact ⟨name a, name b, hkey a ha, hkey b hb, hlt⟩
  refine ⟨_, rfl, hpairwise, fun item hitem => ?_, fun k a ha => ?_⟩
  · obtain ⟨e, he, rfl⟩ := List.mem_map.1 hitem
    exact ⟨e.1, e.2, (t.mem_entries_iff e.1 e.2).1 (perm.mem_iff.1 he), rfl⟩
  · have hmem : (k, a) ∈ l := perm.mem_iff.2 ((t.mem_entries_iff k a).2 ha)
    have hshown : shown k a ∈ l.map fun e => shown e.1 e.2 := List.mem_map.2 ⟨_, hmem, rfl⟩
    obtain ⟨place, hplace⟩ := List.mem_iff_getElem?.1 hshown
    exact ⟨place, hplace, fun other hother => place_unique hpairwise hother hplace⟩

/-- The values of a table are a catalogue of it, if each shows the name that is its key. -/
theorem catalogues_values {name : α → String} {key : Json → Option String} {shown : α → Json}
    {t : Table String α} (h : KeyedBy name t) (hkey : ∀ a, key (shown a) = some (name a)) :
    Catalogues key (fun _ => shown) t (some (Json.ofList shown t.values)) := by
  have hnames : ∀ e ∈ t.entries, key (shown e.2) = some e.1 := by
    intro e he
    rw [hkey, h e.1 e.2 ((t.mem_entries_iff e.1 e.2).1 he)]
  have hcatalogue : Catalogues key (fun _ => shown) t
      (some (.array (t.entries.map fun e => shown e.2))) :=
    catalogues_of_perm Prod.fst (.refl t.entries) hnames t.ascending
  rwa [Json.ofList, Table.values, List.map_map]

/-- The pairs of a table with their keys in front are a catalogue of it. -/
theorem catalogues_pairs {shown : α → Json} (t : Table String α) :
    Catalogues Json.firstText? (fun k a => .array [.string k, shown a]) t
      (some (Json.ofList (fun e => .array [.string e.1, shown e.2]) t.entries)) :=
  catalogues_of_perm Prod.fst (.refl t.entries) (fun _ _ => rfl) t.ascending

namespace Provider

/-- No two templates of a list share an id. -/
def IdsDiffer (templates : List Template) : Prop :=
  ∀ t ∈ templates, ∀ u ∈ templates, t ≠ u → t.id ≠ u.id

instance (templates : List Template) : Decidable (IdsDiffer templates) :=
  inferInstanceAs (Decidable (∀ t ∈ templates, ∀ u ∈ templates, t ≠ u → t.id ≠ u.id))

theorem IdsDiffer.eq_of_id {templates : List Template} (h : IdsDiffer templates) {t u : Template}
    (ht : t ∈ templates) (hu : u ∈ templates) (hid : t.id = u.id) : t = u :=
  Decidable.by_contra fun hne => h t ht u hu hne hid

theorem IdsDiffer.of_subset {l m : List Template} (h : IdsDiffer m) (hlm : l ⊆ m) : IdsDiffer l :=
  fun t ht u hu => h t (hlm ht) u (hlm hu)

/-- Where no two templates share an id, those of a provider are in strictly ascending order. -/
theorem templatesById_ascending {p : Provider} (hp : p.Coherent)
    (apart : IdsDiffer p.templates.values) :
    p.templatesById.Pairwise fun a b => compare a.id b.id = .lt := by
  have hnodup : p.templatesById.Nodup :=
    (List.mergeSort_perm _ _).nodup_iff.2 (values_nodup_of_keyedBy hp.templates)
  refine (p.templatesById_pairwise.and hnodup).imp_of_mem fun {a b} ha hb hab => ?_
  obtain ⟨hle, hne⟩ := hab
  have hid := apart a (mem_templatesById.1 ha) b (mem_templatesById.1 hb) hne
  cases hcompare : compare a.id b.id with
  | lt => rfl
  | eq => exact absurd (Std.LawfulEqCmp.eq_of_compare hcompare) hid
  | gt => simp [hcompare] at hle

theorem catalogues_templates {p : Provider} (hp : p.Coherent)
    (apart : IdsDiffer p.templates.values) :
    Catalogues (Json.textAt? "id") (fun _ => Template.toJson) p.templates
      (some (Json.ofList Template.toJson p.templatesById)) := by
  have hentries : p.templates.entries = p.templates.values.map fun t => (t.fields, t) := by
    rw [Table.values, List.map_map]
    refine (List.map_id' _).symm.trans (List.map_congr_left fun e he => ?_)
    exact Prod.ext (hp.templates e.1 e.2 ((p.templates.mem_entries_iff _ _).1 he)).symm rfl
  have hperm : (p.templatesById.map fun t => (t.fields, t)).Perm p.templates.entries := by
    rw [hentries]
    exact (List.mergeSort_perm _ _).map _
  have hcatalogue : Catalogues (Json.textAt? "id") (fun _ => Template.toJson) p.templates
      (some (.array ((p.templatesById.map fun t => (t.fields, t)).map fun e => e.2.toJson))) :=
    catalogues_of_perm (fun e => e.2.id) hperm (fun _ _ => rfl)
      (List.pairwise_map.2 (templatesById_ascending hp apart))
  rwa [List.map_map] at hcatalogue

/-- Every list in the JSON of a provider is a catalogue. -/
structure Catalogued (p : Provider) : Prop where
  channels : Catalogues (Json.textAt? "id") (fun _ => Channel.toJson) p.channels
    (p.toJson.member? "channels")
  tasks : Catalogues (Json.textAt? "name") (fun _ => Task.toJson) p.tasks
    (p.toJson.member? "tasks")
  taskOpcodes : ∀ name t, p.tasks.find? name = some t →
    Catalogues (Json.textAt? "name") (fun _ => Opcode.toJson) t.opcodes
      (t.toJson.member? "opcodes")
  opcodes : Catalogues (Json.textAt? "name") (fun _ => Opcode.toJson) p.opcodes
    (p.toJson.member? "opcodes")
  events : Catalogues (Json.textAt? "name") (fun _ => Event.toJson) p.events
    (p.toJson.member? "events")
  templates : Catalogues (Json.textAt? "id") (fun _ => Template.toJson) p.templates
    (p.toJson.member? "templates")
  aliases : Catalogues Json.firstText? (fun name text => .array [.string name, .string text])
    p.aliases (p.toJson.member? "aliases")
  typedefs : Catalogues Json.firstText? (fun name type => .array [.string name, Json.ofWord type])
    p.typedefs (p.toJson.member? "typedefs")

/-- **Every list in the JSON of a coherent provider is a catalogue.** -/
theorem catalogued_of_coherent {p : Provider} (hp : p.Coherent)
    (apart : IdsDiffer p.templates.values) : p.Catalogued where
  channels := catalogues_values hp.channels fun _ => rfl
  tasks := catalogues_values hp.tasks fun _ => rfl
  taskOpcodes name t ht := catalogues_values (hp.taskOpcodes name t ht) fun _ => rfl
  opcodes := catalogues_values hp.opcodes fun _ => rfl
  events := catalogues_values hp.events fun _ => rfl
  templates := catalogues_templates hp apart
  aliases := catalogues_pairs p.aliases
  typedefs := catalogues_pairs p.typedefs

end Provider

end EventSchema
