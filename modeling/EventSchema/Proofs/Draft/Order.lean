import EventSchema.Proofs.Draft.Coherent

/-!
# The order of providers

Providers that have each grown from the other are equal (`grown_antisymm`), so what a provider may
become is ordered. `Provider.Below p q` says a little more than that nothing of `p` is missing from
`q`: what `q` has in addition is stored under its own name, as every change stores it
(`below_of_change`). Then the entry that a definition would make is known from its name alone, and a
provider that has an entry of that name has at least this one.
-/

namespace EventSchema

open EventSchema.Numbering (Filled ProviderFilled)
open Relation (ReflTransGen)

variable {κ α : Type} [Ord κ] [DecidableEq κ]

/-! ## What has grown from each other -/

theorem kept_antisymm {a b : Option α} (hab : Kept a b) (hba : Kept b a) : a = b := by
  rcases hab with ha | hab
  · rcases hba with hb | hba
    · rw [ha, hb]
    · exact hba
  · exact hab.symm

instance [Numbered α] [LawfulNumbered α] : Std.Antisymm (Filled : α → α → Prop) where
  antisymm a b hab hba := by
    rcases hab with rfl | ⟨-, v, rfl⟩
    · rfl
    · rcases hba with heq | ⟨hnone, -⟩
      · exact heq
      · rw [LawfulNumbered.value_withValue] at hnone
        cases hnone

instance antisymm_eq : Std.Antisymm (Eq : α → α → Prop) := ⟨fun _ _ h _ => h⟩

instance : Std.Antisymm TaskGrown where
  antisymm t u htu hut := by
    have hvalue : t.value = u.value := kept_antisymm htu.value hut.value
    have hopcodes : t.opcodes = u.opcodes := htu.opcodes.antisymm hut.opcodes
    have hname : t.name = u.name := hut.name
    cases t
    cases u
    cases hname
    cases hvalue
    cases hopcodes
    rfl

/-- **Providers that have grown from each other are equal.** -/
theorem Provider.grown_antisymm {p q : Provider} (hpq : p.Grown q) (hqp : q.Grown p) : p = q := by
  have hid := kept_antisymm hpq.id hqp.id
  have hname := kept_antisymm hpq.name hqp.name
  have hsymbol := kept_antisymm hpq.symbol hqp.symbol
  have hdescription := kept_antisymm hpq.description hqp.description
  have hresourceName := kept_antisymm hpq.resourceName hqp.resourceName
  have hchannels := hpq.channels.antisymm hqp.channels
  have htasks := hpq.tasks.antisymm hqp.tasks
  have hopcodes := hpq.opcodes.antisymm hqp.opcodes
  have hevents := hpq.events.antisymm hqp.events
  have htemplates := hpq.templates.antisymm hqp.templates
  have haliases := hpq.aliases.antisymm hqp.aliases
  have htypedefs := hpq.typedefs.antisymm hqp.typedefs
  cases p
  cases q
  simp_all

/-! ## Entries under their own names -/

/-- What the second table has in addition is stored under its own name. -/
def NamesNew (name : α → κ) (t s : Table κ α) : Prop :=
  ∀ k a, t.find? k = none → s.find? k = some a → name a = k

section

variable {name : α → κ} {t s u : Table κ α}

theorem namesNew_of_keys (h : ∀ k, t.find? k = none → s.find? k = none) : NamesNew name t s := by
  intro k a hk ha
  rw [h k hk] at ha
  cases ha

theorem namesNew_refl (t : Table κ α) : NamesNew name t t := namesNew_of_keys fun _ => id

theorem namesNew_of_related {R : α → α → Prop} (h : Table.Related R t s) : NamesNew name t s :=
  namesNew_of_keys fun _ => h.of_missing

theorem namesNew_insert [Std.TransOrd κ] [Std.LawfulEqOrd κ] {k : κ} {a : α}
    (h : t.find? k = none → name a = k) : NamesNew name t (t.insert k a) := by
  intro j b hj hb
  rw [Table.find?_insert] at hb
  split at hb
  · next heq =>
    cases hb
    rw [heq] at hj ⊢
    exact h hj
  · rw [hj] at hb
    cases hb

theorem namesNew_insertNew [Std.TransOrd κ] [Std.LawfulEqOrd κ] {k : κ} {a : α} (h : name a = k) :
    NamesNew name t (t.insertNew k a) := by
  rw [Table.insertNew]
  split
  · exact namesNew_refl t
  · exact namesNew_insert fun _ => h

/-- New entries of a later table were new before, or are what new entries have become. -/
theorem NamesNew.trans {R : α → α → Prop} (hts : NamesNew name t s) (hsu : NamesNew name s u)
    (grown : Table.Extends R s u) (hR : ∀ a b, R a b → name b = name a) : NamesNew name t u := by
  intro k a hk ha
  cases hs : s.find? k with
  | none => exact hsu k a hs ha
  | some b =>
    obtain ⟨c, hc, hbc⟩ := grown k b hs
    rw [ha] at hc
    cases hc
    exact (hR b a hbc).trans (hts k b hk hs)

/-- The more a table has, the less is new. -/
theorem NamesNew.of_extends {R : α → α → Prop} (htu : NamesNew name t u)
    (grown : Table.Extends R t s) : NamesNew name s u := by
  intro k a hk ha
  refine htu k a ?_ ha
  by_contra hne
  obtain ⟨b, hb⟩ := Option.ne_none_iff_exists'.1 hne
  obtain ⟨c, hc, -⟩ := grown k b hb
  rw [hk] at hc
  cases hc

end

namespace Provider

/-! ## Providers below others -/

/-- The opcodes that a task has of its own; a task that is missing has none. -/
def localOpcodes (p : Provider) (task : String) : Table String Opcode :=
  ((p.tasks.find? task).map Task.opcodes).getD ∅

variable {p q r : Provider} {task : String}

theorem localOpcodes_of_find? {t : Task} (h : p.tasks.find? task = some t) :
    p.localOpcodes task = t.opcodes := by
  simp [localOpcodes, h]

theorem localOpcodes_of_missing (h : p.tasks.find? task = none) : p.localOpcodes task = ∅ := by
  simp [localOpcodes, h]

theorem Grown.localOpcodes (h : p.Grown q) (task : String) :
    Table.Extends Filled (p.localOpcodes task) (q.localOpcodes task) := by
  cases ht : p.tasks.find? task with
  | none =>
    rw [localOpcodes_of_missing ht]
    rintro k a ⟨⟩
  | some t =>
    obtain ⟨u, hu, htu⟩ := h.tasks task t ht
    rw [localOpcodes_of_find? ht, localOpcodes_of_find? hu]
    exact htu.opcodes

/-- Nothing of the first provider is missing from the second one, and what the second one has in
addition is stored under its own name. -/
structure Below (p q : Provider) : Prop where
  grown : p.Grown q
  channels : NamesNew Channel.id p.channels q.channels
  tasks : NamesNew Task.name p.tasks q.tasks
  localOpcodes : ∀ task, NamesNew Opcode.name (p.localOpcodes task) (q.localOpcodes task)
  opcodes : NamesNew Opcode.name p.opcodes q.opcodes
  templates : NamesNew Template.fields p.templates q.templates

instance : IsPreorder Provider Below where
  refl p := {
    grown := refl_of Grown p
    channels := namesNew_refl _
    tasks := namesNew_refl _
    localOpcodes := fun _ => namesNew_refl _
    opcodes := namesNew_refl _
    templates := namesNew_refl _ }
  trans _ _ _ hpq hqr := {
    grown := trans_of Grown hpq.grown hqr.grown
    channels := hpq.channels.trans hqr.channels hqr.grown.channels fun _ _ => channel_id_of_filled
    tasks := hpq.tasks.trans hqr.tasks hqr.grown.tasks fun _ _ htu => htu.name
    localOpcodes := fun task => (hpq.localOpcodes task).trans (hqr.localOpcodes task)
      (hqr.grown.localOpcodes task) fun _ _ => opcode_name_of_filled
    opcodes := hpq.opcodes.trans hqr.opcodes hqr.grown.opcodes fun _ _ => opcode_name_of_filled
    templates := hpq.templates.trans hqr.templates hqr.grown.templates
      fun _ _ heq => by rw [heq] }

/-- What lies between a provider and one that it is below is below that one, too. -/
theorem Below.of_between (hpr : p.Below r) (hpq : p.Grown q) (hqr : q.Grown r) : q.Below r where
  grown := hqr
  channels := hpr.channels.of_extends hpq.channels
  tasks := hpr.tasks.of_extends hpq.tasks
  localOpcodes task := (hpr.localOpcodes task).of_extends (hpq.localOpcodes task)
  opcodes := hpr.opcodes.of_extends hpq.opcodes
  templates := hpr.templates.of_extends hpq.templates

theorem localOpcodes_insert (name : String) (t : Task) :
    ({ p with tasks := p.tasks.insert name t } : Provider).localOpcodes task =
      if task = name then t.opcodes else p.localOpcodes task := by
  by_cases h : task = name <;> simp [localOpcodes, Table.find?_insert, h]

theorem below_of_filled (h : ProviderFilled p q) : p.Below q where
  grown := grown_of_filled h
  channels := namesNew_of_related h.channels
  tasks := namesNew_of_related h.tasks
  localOpcodes task := by
    cases hu : q.tasks.find? task with
    | none =>
      rw [localOpcodes_of_missing hu]
      exact namesNew_of_keys fun _ _ => rfl
    | some u =>
      obtain ⟨t, ht, htu⟩ := h.tasks.of_right hu
      rw [localOpcodes_of_find? ht, localOpcodes_of_find? hu]
      exact namesNew_of_related htu.opcodes
  opcodes := namesNew_of_related h.opcodes
  templates := by
    have htemplates : q.templates = p.templates := by rw [h.rest]
    rw [htemplates]
    exact namesNew_refl _

/-- **What a change adds is stored under its own name.** -/
theorem below_of_change (h : Change p q) : p.Below q := by
  have hgrown := grown_of_change h
  have hbelow : p.Below p := refl_of Below p
  cases h with
  | properties | newAlias | newTypedef => exact { hbelow with grown := hgrown }
  | newChannel name type fresh =>
    exact { hbelow with
      grown := hgrown
      channels := namesNew_insert fun _ => rfl }
  | @newTask name fresh =>
    refine { hbelow with
      grown := hgrown
      tasks := namesNew_insert fun _ => rfl
      localOpcodes := fun task => namesNew_of_keys fun k hk => ?_ }
    rw [localOpcodes_insert]
    split
    · rfl
    · exact hk
  | newOpcode fresh =>
    exact { hbelow with
      grown := hgrown
      opcodes := namesNew_insert fun _ => rfl }
  | @newTaskOpcode task name t ht fresh =>
    refine { hbelow with
      grown := hgrown
      tasks := namesNew_insert fun missing => ?_
      localOpcodes := fun task' => ?_ }
    · rw [ht] at missing
      cases missing
    · rw [localOpcodes_insert]
      split
      · next heq =>
        rw [heq, localOpcodes_of_find? ht]
        exact namesNew_insert fun _ => rfl
      · exact namesNew_refl _
  | numbers h => exact below_of_filled h
  | @newEvent e fields h =>
    refine { hbelow with
      grown := hgrown
      templates := ?_ }
    rw [interned]
    split
    · exact namesNew_refl _
    · exact namesNew_insertNew rfl

theorem below_of_changes (h : ReflTransGen Change p q) : p.Below q := by
  induction h with
  | refl => exact refl_of Below p
  | tail _ hchange ih => exact trans_of Below ih (below_of_change hchange)

end Provider

end EventSchema
