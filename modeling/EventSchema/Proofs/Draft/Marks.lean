import EventSchema.Proofs.Draft.Growth

/-!
# What definitions leave behind

A definition that succeeds leaves a mark on its provider: a name that is there, a value that is set.
The mark stays, and a definition that finds its own mark changes nothing or is refused (`Marks`). So
no definition is made twice (`exists_marks_of_definition`).
-/

namespace EventSchema

open EventSchema.Numbering (Filled numberIn)

variable {α : Type}

/-! ## Values that stay -/

theorem Kept.eq_some {a b : Option α} {v : α} (h : Kept a b) (ha : a = some v) : b = some v := by
  rcases h with hnone | heq
  · rw [hnone] at ha
    cases ha
  · exact heq.trans ha

section

variable [Numbered α]

theorem kept_value_of_filled {a b : α} (h : Filled a b) :
    Kept (Numbered.value a) (Numbered.value b) := by
  rcases h with rfl | ⟨hnone, -⟩
  · exact refl_of Kept _
  · exact .inl hnone

theorem kept_numberIn {R : α → α → Prop} {t s : Table String α} (h : Table.Extends R t s)
    (hR : ∀ a b, R a b → Kept (Numbered.value a) (Numbered.value b)) (name : String) :
    Kept (numberIn t name) (numberIn s name) := by
  unfold numberIn
  cases ha : t.find? name with
  | none => exact .inl rfl
  | some a =>
    obtain ⟨b, hb, hab⟩ := h name a ha
    rw [hb]
    exact hR a b hab

variable [LawfulNumbered α] {t : Table String α} {name : String}

/-- A number that is pinned under a name is found there. -/
theorem numberIn_modify {a : α} (ha : t.find? name = some a) (v : UInt32) :
    numberIn (t.modify name fun a => Numbered.withValue a v) name = some v := by
  rw [numberIn, Table.find?_modify, if_pos rfl, ha]
  exact LawfulNumbered.value_withValue a v

/-- Pinning the number that is there changes nothing. -/
theorem modify_eq_self_of_numberIn {v : UInt32} (h : numberIn t name = some v) :
    (t.modify name fun a => Numbered.withValue a v) = t := by
  obtain ⟨a, ha, hv⟩ := Option.bind_eq_some_iff.1 h
  rw [Table.modify_eq_insert ha, LawfulNumbered.withValue_self a v hv, Table.insert_eq_self ha]

end

/-! ## Marks -/

/-- A change leaves a mark: it stays, and on a provider that has it nothing is left to change. -/
structure Marks (change : Provider → Except Error Provider) (mark : Provider → Prop) : Prop where
  left : ∀ p q, change p = .ok q → mark q
  kept : ∀ p q : Provider, p.Grown q → mark p → mark q
  again : ∀ p q, mark p → change p = .ok q → q = p

/-- Once a change has been made, it is not made again. -/
theorem Marks.repeats {change : Provider → Except Error Provider} {mark : Provider → Prop}
    (h : Marks change mark) {p₀ p₁ p q : Provider} (first : change p₀ = .ok p₁)
    (grown : p₁.Grown p) (second : change p = .ok q) : q = p :=
  h.again p q (h.kept p₁ p grown (h.left p₀ p₁ first)) second

namespace Provider

theorem marks_property [DecidableEq α] {read : Provider → Option α}
    {store : Provider → Option α → Provider} (property : IsProperty read store) (what : Scalar)
    (shown : α → ScalarValue) (given : Option α) :
    Marks (fun p => do return store p (← setIfGiven what shown (read p) given))
      fun p => ∀ v, given = some v → read p = some v where
  left p q h := by
    rintro v rfl
    obtain ⟨_, hset, rfl⟩ := setIfGiven_of_ok h
    rw [property.read_store]
    exact (setOnce_eq_ok hset).1
  kept p q grown mark v hv := (property.kept p q grown).eq_some (mark v hv)
  again p q mark h := by
    obtain ⟨v, hset, rfl⟩ := setIfGiven_of_ok h
    have same : v = read p := by
      cases given with
      | none =>
        cases hset
        rfl
      | some new => rw [mark new rfl, (setOnce_eq_ok hset).1]
    rw [same, property.store_read]

/-- An entry that is put into a table of the provider, where it may be already. -/
theorem marks_entry {β : Type} {change : Provider → Except Error Provider}
    {read : Provider → Table String β} (store : Provider → Table String β → Provider)
    {name : String} {value : β} (read_store : ∀ p t, read (store p t) = t)
    (kept : ∀ p q : Provider, p.Grown q → Table.Extends Eq (read p) (read q))
    (entered : ∀ p q, change p = .ok q → (read p).find? name = some value ∧ q = p ∨
      (read p).find? name = none ∧ q = store p ((read p).insert name value)) :
    Marks change fun p => (read p).find? name = some value where
  left p q h := by
    rcases entered p q h with ⟨found, rfl⟩ | ⟨-, rfl⟩
    · exact found
    · rw [read_store, Table.find?_insert, if_pos rfl]
  kept p q grown mark := by
    obtain ⟨_, hq, rfl⟩ := kept p q grown name value mark
    exact hq
  again p q mark h := by
    rcases entered p q h with ⟨-, rfl⟩ | ⟨fresh, -⟩
    · rfl
    · rw [mark] at fresh
      cases fresh

theorem marks_defineAlias (name value : String) :
    Marks (·.defineAlias name value) fun p => p.aliases.find? name = some value :=
  marks_entry (fun p t => { p with aliases := t }) (fun _ _ => rfl)
    (fun _ _ grown => grown.aliases) fun _ _ => defineAlias_eq_ok

theorem marks_defineTypedef (name : String) (type : FieldType) :
    Marks (·.defineTypedef name type) fun p => p.typedefs.find? name = some type :=
  marks_entry (fun p t => { p with typedefs := t }) (fun _ _ => rfl)
    (fun _ _ grown => grown.typedefs) fun _ _ => defineTypedef_eq_ok

theorem marks_defineChannel (id name : String) (type : ChannelType) :
    Marks (·.defineChannel id name type) (·.HasChannel id name type) where
  left p q h := by
    rcases defineChannel_eq_ok h with ⟨found, rfl⟩ | ⟨-, rfl⟩
    · exact found
    · exact ⟨⟨id, name, type, none⟩, by rw [Table.find?_insert, if_pos rfl], rfl, rfl⟩
  kept p q grown mark := by
    obtain ⟨c, hc, hname, htype⟩ := mark
    obtain ⟨c', hc', rfl | ⟨-, v, rfl⟩⟩ := grown.channels id c hc
    · exact ⟨c', hc', hname, htype⟩
    · exact ⟨_, hc', hname, htype⟩
  again p q mark h := by
    rcases defineChannel_eq_ok h with ⟨-, rfl⟩ | ⟨fresh, -⟩
    · rfl
    · obtain ⟨c, hc, -⟩ := mark
      rw [hc] at fresh
      cases fresh

theorem defineOpcode_eq_self {p : Provider} {name : String} (h : p.opcodes.contains name = true) :
    p.defineOpcode name = p := by
  rw [defineOpcode, Table.insertNew_eq_self_of_contains h]

theorem marks_defineTask (name : String) :
    Marks (fun p => .ok (p.defineTask name)) fun p => p.tasks.contains name = true where
  left p q h := by
    cases h
    exact Table.contains_insertNew _
  kept p q grown mark := grown.tasks.contains mark
  again p q mark h := by
    cases h
    rw [defineTask, Table.insertNew_eq_self_of_contains mark]

theorem marks_defineOpcode (name : String) :
    Marks (fun p => .ok (p.defineOpcode name)) fun p => p.opcodes.contains name = true where
  left p q h := by
    cases h
    exact Table.contains_insertNew _
  kept p q grown mark := grown.opcodes.contains mark
  again p q mark h := by
    cases h
    exact defineOpcode_eq_self mark

/-! ### Opcodes of a task -/

theorem hasLocalOpcode_of_grown {p q : Provider} (grown : p.Grown q) {task opcode : String}
    (h : p.HasLocalOpcode task opcode) : q.HasLocalOpcode task opcode := by
  obtain ⟨t, ht, hopcode⟩ := h
  obtain ⟨u, hu, htu⟩ := grown.tasks task t ht
  exact ⟨u, hu, htu.opcodes.contains hopcode⟩

theorem marks_defineTaskOpcode (task opcode : String) :
    Marks (·.defineTaskOpcode task opcode) fun p =>
      p.HasLocalOpcode task opcode ∨ p.opcodes.contains opcode = true where
  left p q h := by
    rcases defineTaskOpcode_eq_ok h with ⟨found, rfl⟩ | ⟨-, rfl⟩
    · exact .inl found
    · exact .inr (Table.contains_insertNew _)
  kept p q grown mark :=
    mark.imp (hasLocalOpcode_of_grown grown) fun hopcode => grown.opcodes.contains hopcode
  again p q mark h := by
    rcases defineTaskOpcode_eq_ok h with ⟨-, rfl⟩ | ⟨missing, rfl⟩
    · rfl
    · exact defineOpcode_eq_self (mark.resolve_left missing)

theorem marks_defineLocalOpcode (task opcode : String) :
    Marks (·.defineLocalOpcode task opcode) (·.HasLocalOpcode task opcode) where
  left p q h := by
    obtain ⟨⟨t, ht⟩, rfl⟩ := defineLocalOpcode_eq_ok h
    have hmodify := Table.find?_modify p.tasks task task fun t =>
      { t with opcodes := t.opcodes.insertNew opcode { name := opcode } }
    rw [if_pos rfl, ht] at hmodify
    exact ⟨_, hmodify, Table.contains_insertNew _⟩
  kept p q grown := hasLocalOpcode_of_grown grown
  again p q mark h := by
    obtain ⟨t, ht, hopcode⟩ := mark
    obtain ⟨-, rfl⟩ := defineLocalOpcode_eq_ok h
    rw [Table.modify_eq_insert ht, Table.insertNew_eq_self_of_contains hopcode,
      Table.insert_eq_self ht]

/-! ### Pinned numbers -/

/-- A number that is pinned in a table of the provider. -/
theorem marks_pin [Numbered α] [LawfulNumbered α] {change : Provider → Except Error Provider}
    {read : Provider → Table String α} (store : Provider → Table String α → Provider)
    {name : String} {value : UInt32} (read_store : ∀ p t, read (store p t) = t)
    (store_read : ∀ p, store p (read p) = p)
    (kept : ∀ p q : Provider, p.Grown q → Kept (numberIn (read p) name) (numberIn (read q) name))
    (pinned : ∀ p q, change p = .ok q →
      (∃ a, (read p).find? name = some a ∧ Filled a (Numbered.withValue a value)) ∧
        q = store p ((read p).modify name fun a => Numbered.withValue a value)) :
    Marks change fun p => numberIn (read p) name = some value where
  left p q h := by
    obtain ⟨⟨a, ha, -⟩, rfl⟩ := pinned p q h
    rw [read_store]
    exact numberIn_modify ha value
  kept p q grown mark := (kept p q grown).eq_some mark
  again p q mark h := by
    obtain ⟨-, rfl⟩ := pinned p q h
    rw [modify_eq_self_of_numberIn mark, store_read]

theorem marks_pinChannel (id : String) (value : UInt32) :
    Marks (·.pinChannel id value) fun p => numberIn p.channels id = some value :=
  marks_pin (fun p t => { p with channels := t }) (fun _ _ => rfl) (fun _ => rfl)
    (fun _ _ grown => kept_numberIn grown.channels (fun _ _ => kept_value_of_filled) id)
    fun _ _ => pinChannel_eq_ok

theorem marks_pinTask (name : String) (value : UInt32) :
    Marks (·.pinTask name value) fun p => numberIn p.tasks name = some value :=
  marks_pin (fun p t => { p with tasks := t }) (fun _ _ => rfl) (fun _ => rfl)
    (fun _ _ grown => kept_numberIn grown.tasks (fun _ _ htu => htu.value) name)
    fun _ _ => pinTask_eq_ok

theorem marks_pinOpcode (name : String) (value : UInt32) :
    Marks (·.pinOpcode name value) fun p => numberIn p.opcodes name = some value :=
  marks_pin (fun p t => { p with opcodes := t }) (fun _ _ => rfl) (fun _ => rfl)
    (fun _ _ grown => kept_numberIn grown.opcodes (fun _ _ => kept_value_of_filled) name)
    fun _ _ => pinOpcode_eq_ok

theorem marks_pinTaskOpcode (task name : String) (value : UInt32) :
    Marks (·.pinTaskOpcode task name value) fun p =>
      ∃ t, p.tasks.find? task = some t ∧ numberIn t.opcodes name = some value where
  left p q h := by
    obtain ⟨⟨t, o, ht, ho, -⟩, rfl⟩ := pinTaskOpcode_eq_ok h
    have hmodify := Table.find?_modify p.tasks task task fun t =>
      { t with opcodes := t.opcodes.modify name fun o => { o with value := some value } }
    rw [if_pos rfl, ht] at hmodify
    exact ⟨_, hmodify, numberIn_modify ho value⟩
  kept p q grown mark := by
    obtain ⟨t, ht, hnumber⟩ := mark
    obtain ⟨u, hu, htu⟩ := grown.tasks task t ht
    exact ⟨u, hu,
      (kept_numberIn htu.opcodes (fun _ _ => kept_value_of_filled) name).eq_some hnumber⟩
  again p q mark h := by
    obtain ⟨t, ht, hnumber⟩ := mark
    have same : (t.opcodes.modify name fun o => { o with value := some value }) = t.opcodes :=
      modify_eq_self_of_numberIn hnumber
    obtain ⟨-, rfl⟩ := pinTaskOpcode_eq_ok h
    rw [Table.modify_eq_insert ht, same, Table.insert_eq_self ht]

/-! ### Events -/

theorem marks_prepareEvent (decl : EventDecl) :
    Marks (·.prepareEvent decl) fun p =>
      p.HasLocalOpcode decl.task decl.opcode ∨ p.opcodes.contains decl.opcode = true where
  left _ _ h := (prepared_of_prepareEvent h).hasOpcode
  kept _ _ grown mark :=
    mark.imp (hasLocalOpcode_of_grown grown) fun hopcode => grown.opcodes.contains hopcode
  again _ _ mark h := eq_of_prepareEvent h fun hbrings => not_there_of_bringsOpcode hbrings mark

/-- An event is not defined twice. -/
theorem marks_addEvent (decl : EventDecl) (severity : Severity) (level : Level) :
    Marks (·.addEvent decl severity level) fun p =>
      p.events.contains (eventSymbol decl.subsystem decl.task decl.opcode) = true where
  left p q h := by
    obtain ⟨fields, -, -, rfl⟩ := addEvent_eq_ok h
    rw [Table.contains, Table.find?_insert, if_pos rfl, Option.isSome_some]
  kept p q grown mark := grown.events.contains mark
  again p q mark h := by
    obtain ⟨fields, -, fresh, -⟩ := addEvent_eq_ok h
    rw [Table.contains, fresh] at mark
    cases mark

end Provider

/-- **Every definition leaves a mark.** -/
theorem exists_marks_of_definition {topic : Topic} {change : Provider → Except Error Provider}
    (definition : Definition topic change) : ∃ mark, Marks change mark := by
  cases definition with
  | property property what shown given =>
    exact ⟨_, Provider.marks_property property what shown given⟩
  | newAlias name value => exact ⟨_, Provider.marks_defineAlias name value⟩
  | typedef name type => exact ⟨_, Provider.marks_defineTypedef name type⟩
  | channel id name type => exact ⟨_, Provider.marks_defineChannel id name type⟩
  | task name => exact ⟨_, Provider.marks_defineTask name⟩
  | opcode name => exact ⟨_, Provider.marks_defineOpcode name⟩
  | taskOpcode task opcode => exact ⟨_, Provider.marks_defineTaskOpcode task opcode⟩
  | localOpcode task opcode => exact ⟨_, Provider.marks_defineLocalOpcode task opcode⟩
  | channelNumber id value => exact ⟨_, Provider.marks_pinChannel id value⟩
  | taskNumber name value => exact ⟨_, Provider.marks_pinTask name value⟩
  | opcodeNumber name value => exact ⟨_, Provider.marks_pinOpcode name value⟩
  | taskOpcodeNumber task name value => exact ⟨_, Provider.marks_pinTaskOpcode task name value⟩
  | unnamed refusal =>
    exact ⟨fun _ => True, fun _ _ _ => trivial, fun _ _ _ => id,
      fun _ _ _ => Provider.eq_of_unnamed⟩

end EventSchema
