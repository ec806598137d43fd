import EventSchema.Draft.Define
import EventSchema.Proofs.Numbering.Passes

/-!
# The changes of a provider

Whatever is done to a draft, its provider goes through changes of nine kinds, each made entirely or
not at all. `Provider.Change` lists them; what holds of every reachable provider is proved by one
case for each.

No change takes anything away or overwrites it (`grown_of_change`).
-/

namespace EventSchema

open EventSchema.Numbering (Filled ProviderFilled TaskFilled)

namespace Provider

/-! ## Single changes -/

/-- The templates with one for some fields, if there are any fields. -/
def interned (p : Provider) (fields : List Field) : Table (List Field) Template :=
  if fields.isEmpty then p.templates else p.templates.insertNew fields ⟨fields⟩

/-- An event that may be added: it is new, and what it refers to is there. -/
structure Admits (p : Provider) (e : Event) (fields : List Field) : Prop where
  fresh : p.events.find? e.name = none
  symbol : e.name = eventSymbol e.subsystem e.task e.opcode.name
  channel : p.channels.contains e.channel = true
  task : p.tasks.contains e.task = true
  opcode : (p.opcode? e).isSome = true
  template : e.template = if fields.isEmpty then none else some ⟨fields⟩

/-- A single change of a provider. -/
inductive Change (p : Provider) : Provider → Prop
  /-- Properties are set that were missing. -/
  | properties {id : Option Nat} {name symbol description resourceName : Option String}
      (hid : Kept p.id id) (hname : Kept p.name name) (hsymbol : Kept p.symbol symbol)
      (hdescription : Kept p.description description)
      (hresourceName : Kept p.resourceName resourceName) :
      Change p { p with id, name, symbol, description, resourceName }
  | newAlias {name : String} (value : String) (fresh : p.aliases.find? name = none) :
      Change p { p with aliases := p.aliases.insert name value }
  | newTypedef {name : String} (type : FieldType) (fresh : p.typedefs.find? name = none) :
      Change p { p with typedefs := p.typedefs.insert name type }
  | newChannel {id : String} (name : String) (type : ChannelType)
      (fresh : p.channels.find? id = none) :
      Change p { p with channels := p.channels.insert id ⟨id, name, type, none⟩ }
  | newTask {name : String} (fresh : p.tasks.find? name = none) :
      Change p { p with tasks := p.tasks.insert name { name } }
  | newOpcode {name : String} (fresh : p.opcodes.find? name = none) :
      Change p { p with opcodes := p.opcodes.insert name { name } }
  | newTaskOpcode {task name : String} {t : Task} (ht : p.tasks.find? task = some t)
      (fresh : t.opcodes.find? name = none) :
      Change p { p with
        tasks := p.tasks.insert task { t with opcodes := t.opcodes.insert name { name } } }
  /-- Numbers are pinned or assigned that were missing. -/
  | numbers {q : Provider} (h : ProviderFilled p q) : Change p q
  | newEvent {e : Event} {fields : List Field} (h : p.Admits e fields) :
      Change p { p with
        templates := p.interned fields
        events := p.events.insert e.name e }

end Provider

/-! ## What grows -/

/-- What a task may become. -/
structure TaskGrown (t u : Task) : Prop where
  name : u.name = t.name
  value : Kept t.value u.value
  opcodes : Table.Extends Filled t.opcodes u.opcodes

instance : IsPreorder Task TaskGrown where
  refl _ := ⟨rfl, refl_of Kept _, refl_of (Table.Extends Filled) _⟩
  trans _ _ _ htu huv :=
    ⟨huv.name.trans htu.name, trans_of Kept htu.value huv.value,
      trans_of (Table.Extends Filled) htu.opcodes huv.opcodes⟩

theorem taskGrown_of_filled {t u : Task} (h : TaskFilled t u) : TaskGrown t u :=
  ⟨h.name, h.value, h.opcodes.extends⟩

namespace Provider

/-- What a provider may become: nothing that was there is missing or different, but for numbers and
properties that were not set. -/
structure Grown (p q : Provider) : Prop where
  id : Kept p.id q.id
  name : Kept p.name q.name
  symbol : Kept p.symbol q.symbol
  description : Kept p.description q.description
  resourceName : Kept p.resourceName q.resourceName
  channels : Table.Extends Filled p.channels q.channels
  tasks : Table.Extends TaskGrown p.tasks q.tasks
  opcodes : Table.Extends Filled p.opcodes q.opcodes
  events : Table.Extends Filled p.events q.events
  templates : Table.Extends Eq p.templates q.templates
  aliases : Table.Extends Eq p.aliases q.aliases
  typedefs : Table.Extends Eq p.typedefs q.typedefs

instance : IsPreorder Provider Grown where
  refl _ := {
    id := refl_of Kept _
    name := refl_of Kept _
    symbol := refl_of Kept _
    description := refl_of Kept _
    resourceName := refl_of Kept _
    channels := refl_of (Table.Extends Filled) _
    tasks := refl_of (Table.Extends TaskGrown) _
    opcodes := refl_of (Table.Extends Filled) _
    events := refl_of (Table.Extends Filled) _
    templates := refl_of (Table.Extends Eq) _
    aliases := refl_of (Table.Extends Eq) _
    typedefs := refl_of (Table.Extends Eq) _ }
  trans _ _ _ hpq hqr := {
    id := trans_of Kept hpq.id hqr.id
    name := trans_of Kept hpq.name hqr.name
    symbol := trans_of Kept hpq.symbol hqr.symbol
    description := trans_of Kept hpq.description hqr.description
    resourceName := trans_of Kept hpq.resourceName hqr.resourceName
    channels := trans_of (Table.Extends Filled) hpq.channels hqr.channels
    tasks := trans_of (Table.Extends TaskGrown) hpq.tasks hqr.tasks
    opcodes := trans_of (Table.Extends Filled) hpq.opcodes hqr.opcodes
    events := trans_of (Table.Extends Filled) hpq.events hqr.events
    templates := trans_of (Table.Extends Eq) hpq.templates hqr.templates
    aliases := trans_of (Table.Extends Eq) hpq.aliases hqr.aliases
    typedefs := trans_of (Table.Extends Eq) hpq.typedefs hqr.typedefs }

theorem grown_of_filled {p q : Provider} (h : ProviderFilled p q) : Grown p q := by
  have hgrown : Grown p p := refl_of Grown p
  rw [h.rest]
  exact { hgrown with
    channels := h.channels.extends
    tasks := h.tasks.extends.imp fun _ _ => taskGrown_of_filled
    opcodes := h.opcodes.extends
    events := h.events.extends }

theorem extends_interned (p : Provider) (fields : List Field) :
    Table.Extends Eq p.templates (p.interned fields) := by
  rw [interned]
  split
  · exact refl_of (Table.Extends Eq) _
  · exact Table.extends_insertNew

/-- **Nothing is taken away or overwritten.** -/
theorem grown_of_change {p q : Provider} (h : Change p q) : Grown p q := by
  have hgrown : Grown p p := refl_of Grown p
  cases h with
  | properties hid hname hsymbol hdescription hresourceName =>
    exact { hgrown with
      id := hid
      name := hname
      symbol := hsymbol
      description := hdescription
      resourceName := hresourceName }
  | newAlias value fresh => exact { hgrown with aliases := Table.extends_insert_of_fresh fresh }
  | newTypedef type fresh => exact { hgrown with typedefs := Table.extends_insert_of_fresh fresh }
  | newChannel name type fresh =>
    exact { hgrown with channels := Table.extends_insert_of_fresh fresh }
  | newTask fresh => exact { hgrown with tasks := Table.extends_insert_of_fresh fresh }
  | newOpcode fresh => exact { hgrown with opcodes := Table.extends_insert_of_fresh fresh }
  | @newTaskOpcode task name t ht fresh =>
    refine { hgrown with tasks := Table.extends_insert fun u hu => ?_ }
    obtain rfl : t = u := Option.some.inj (ht.symm.trans hu)
    exact ⟨rfl, refl_of Kept _, Table.extends_insert_of_fresh fresh⟩
  | numbers h => exact grown_of_filled h
  | newEvent h =>
    exact { hgrown with
      templates := extends_interned p _
      events := Table.extends_insert_of_fresh h.fresh }

end Provider

end EventSchema
