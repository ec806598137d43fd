import EventSchema.Document.Parse
import EventSchema.Document.Writer
import EventSchema.Proofs.Markup.PartText
import EventSchema.Proofs.Table

/-!
# Documents as markup

The element of a document (`IsDocument`) holds a row of elements for each of its lists; an element
with nothing inside may be written either way, an empty list may be left out, and containers may be
put around the whole. Reading the tags of one declaration adds it to what has been read (`Tells`),
so a row adds its declarations in order (`tells_row`) and the whole gives the document
(`parse_of_laid`).
-/

namespace EventSchema.Document

open EventSchema.Markup (Part Tag IsName Laid)

/-! ## Elements -/

/-- An element with some parts inside; without any it may be written as an empty element. -/
inductive IsElement (tag : Tag) : List Part → List Part → Prop
  | pair (inside : List Part) : IsElement tag inside (element tag inside)
  | empty : IsElement tag [] [.empty tag]

/-- The parts of some items, one item after the other. -/
inductive Row {α : Type} (form : α → List Part → Prop) : List α → List Part → Prop
  | nil : Row form [] []
  | cons {a : α} {as : List α} {ps qs : List Part} (head : form a ps) (tail : Row form as qs) :
    Row form (a :: as) (ps ++ qs)

/-- An element around the items of a list. It may be left out if there are none. -/
inductive Container {α : Type} (name : String) (form : α → List Part → Prop) :
    List α → List Part → Prop
  | omitted : Container name form [] []
  | around {as : List α} {inside ps : List Part} (row : Row form as inside)
      (element : IsElement { name } inside ps) : Container name form as ps

/-- The start tag of a task. -/
def taskTag (e : TaskEntry) : Tag where
  name := "task"
  attributes := ("name", e.name) :: valueAttribute? e.value

def paramTag (p : String × String) : Tag where
  name := "param"
  attributes := [("type", p.1), ("name", p.2)]

def pathTag (name path : String) : Tag where
  name := name
  attributes := [("path", path)]

def textTag (name key : String) (e : String × String) : Tag where
  name := name
  attributes := [("name", e.1), (key, e.2)]

/-- An element with nothing inside. -/
def IsLeaf {α : Type} (tag : α → Tag) (a : α) (ps : List Part) : Prop := IsElement (tag a) [] ps

/-- The element of a task, with its opcodes inside. -/
inductive IsTask (e : TaskEntry) : List Part → Prop
  | pair {inside : List Part} (opcodes : Row (IsLeaf OpcodeEntry.toTag) e.opcodes inside) :
    IsTask e (element (taskTag e) inside)
  | empty (bare : e.opcodes = []) : IsTask e [.empty (taskTag e)]

/-- The element of an event, with its parameters inside. -/
inductive IsEvent (e : EventDecl) : List Part → Prop
  | pair {inside : List Part} (params : Row (IsLeaf paramTag) e.params inside) :
    IsEvent e (element e.toTag inside)
  | empty (bare : e.params = []) : IsEvent e [.empty e.toTag]

/-- The names of the elements that declare something. -/
def declaring : List String :=
  ["provider", "include", "source", "alias", "typedef", "channel", "task", "opcode", "event",
    "param"]

/-- Tags of elements that only hold others. -/
structure IsContainer (tag : Tag) : Prop where
  proper : tag.Proper
  silent : tag.name ∉ declaring

/-- The lists of a document, each in its container. The texts of a table may come in any order. -/
inductive IsBody (d : Document) : List Part → Prop
  | mk {aliases typedefs : List (String × String)}
      {includes sources aliasParts typedefParts channels tasks opcodes events : List Part}
      (hincludes : Container "includes" (IsLeaf (pathTag "include")) d.includes includes)
      (hsources : Container "sources" (IsLeaf (pathTag "source")) d.sources sources)
      (haliases : aliases.Perm d.aliases.entries)
      (haliasParts : Container "aliases" (IsLeaf (textTag "alias" "value")) aliases aliasParts)
      (htypedefs : typedefs.Perm d.typedefs.entries)
      (htypedefParts :
        Container "typedefs" (IsLeaf (textTag "typedef" "type")) typedefs typedefParts)
      (hchannels : Container "channels" (IsLeaf ChannelEntry.toTag) d.channels channels)
      (htasks : Container "tasks" IsTask d.tasks tasks)
      (hopcodes : Container "opcodes" (IsLeaf OpcodeEntry.toTag) d.opcodes opcodes)
      (hevents : Container "events" IsEvent d.events events) :
    IsBody d
      (includes ++ sources ++ aliasParts ++ typedefParts ++ channels ++ tasks ++ opcodes ++ events)

/-- Tags of the element that holds the lists of a document: that of its provider, or a container if
it has none. -/
def IsHolder (d : Document) (tag : Tag) : Prop :=
  match d.provider with
  | some e => tag = e.toTag
  | none => IsContainer tag

/-- The element of a document, with containers around it or not. -/
inductive IsDocument (d : Document) : List Part → Prop
  | holder {tag : Tag} {inside ps : List Part} (holder : IsHolder d tag) (body : IsBody d inside)
      (element : IsElement tag inside ps) : IsDocument d ps
  | wrapped {tag : Tag} {ps : List Part} (container : IsContainer tag) (document : IsDocument d ps) :
    IsDocument d (element tag ps)

/-! ## Reading parts -/

/-- Reading some parts, in which every element is closed, leads from one state to another. -/
structure Tells (r : Partial) (ps : List Part) (r' : Partial) : Prop where
  proper : ∀ p ∈ ps, p.Proper
  closed : ∀ names, ps.foldlM Markup.openAfter? names = some names
  run : ps.foldlM Partial.take r = .ok r'

variable {r r' r'' : Partial} {ps qs inside : List Part} {tag : Tag}

theorem Tells.nil (r : Partial) : Tells r [] r :=
  ⟨nofun, fun _ => rfl, rfl⟩

theorem Tells.append (h : Tells r ps r') (h' : Tells r' qs r'') : Tells r (ps ++ qs) r'' where
  proper := List.forall_mem_append.2 ⟨h.proper, h'.proper⟩
  closed names := by
    rw [List.foldlM_append, h.closed]
    exact h'.closed names
  run := by
    rw [List.foldlM_append, h.run]
    exact h'.run

theorem tells_empty (proper : tag.Proper) (htag : r.takeTag tag true = .ok r') :
    Tells r [.empty tag] r' where
  proper := List.forall_mem_singleton.2 proper
  closed _ := rfl
  run := by
    rw [List.foldlM_cons, Partial.take, htag]
    rfl

theorem tells_pair (proper : tag.Proper) (htag : r.takeTag tag false = .ok r')
    (hinside : Tells r' inside r'') :
    Tells r (element tag inside) (r''.takeClosing tag.name) where
  proper := by
    refine List.forall_mem_append.2 ⟨List.forall_mem_cons.2 ⟨proper, hinside.proper⟩, ?_⟩
    exact List.forall_mem_singleton.2 proper.name
  closed names := by
    have hopen : Markup.openAfter? names (.opening tag) = some (tag.name :: names) := rfl
    have hclose : [Part.closing tag.name].foldlM Markup.openAfter? (tag.name :: names) =
        some names := by
      simp [Markup.openAfter?]
    rw [element, List.cons_append, List.foldlM_cons, hopen]
    change (inside ++ _).foldlM _ _ = _
    rw [List.foldlM_append, hinside.closed]
    exact hclose
  run := by
    have hopen : r.take (.opening tag) = .ok r' := htag
    rw [element, List.cons_append, List.foldlM_cons, hopen]
    change (inside ++ _).foldlM _ _ = _
    rw [List.foldlM_append, hinside.run]
    rfl

/-- An element that is no task and no event adds the same in both forms. -/
theorem tells_of_isElement (proper : tag.Proper) (h : IsElement tag inside ps)
    (htag : ∀ isEmpty, r.takeTag tag isEmpty = .ok r') (hinside : Tells r' inside r'')
    (hclosing : r''.takeClosing tag.name = r'') : Tells r ps r'' := by
  cases h with
  | pair =>
    rw [← hclosing]
    exact tells_pair proper (htag false) hinside
  | empty =>
    have heq : r' = r'' := Except.ok.inj hinside.run
    exact heq ▸ tells_empty proper (htag true)

/-- A row adds its items one by one, if each item leads from the state after those before it to the
next. -/
theorem tells_row {α : Type} {form : α → List Part → Prop} {as : List α} (state : List α → Partial)
    (h : Row form as ps)
    (step : ∀ done a qs, form a qs → Tells (state done) qs (state (done ++ [a])))
    (done : List α) : Tells (state done) ps (state (done ++ as)) := by
  induction h generalizing done with
  | nil =>
    rw [List.append_nil]
    exact .nil _
  | @cons a _ _ _ head _ ih =>
    have htail := ih (done ++ [a])
    rw [List.append_assoc] at htail
    exact (step done _ _ head).append htail

/-! ## Containers -/

theorem takeTag_of_silent (hsilent : tag.name ∉ declaring) (isEmpty : Bool) :
    r.takeTag tag isEmpty = .ok r := by
  rw [Partial.takeTag]
  split
  case h_11 => rfl
  all_goals
    next heq =>
    rw [heq] at hsilent
    exact absurd (by decide) hsilent

theorem takeClosing_of_silent {name : String} (hsilent : name ∉ declaring) :
    r.takeClosing name = r := by
  rw [Partial.takeClosing.eq_def]
  split
  case h_5 => rfl
  all_goals exact absurd (by decide) hsilent

theorem tells_of_isContainer (h : IsContainer tag) (hinside : Tells r inside r')
    (helement : IsElement tag inside ps) : Tells r ps r' :=
  tells_of_isElement h.proper helement (takeTag_of_silent h.silent) hinside
    (takeClosing_of_silent h.silent)

theorem tells_container {α : Type} {name : String} {form : α → List Part → Prop} {as : List α}
    (state : List α → Partial) (h : Container name form as ps) (hname : IsName name)
    (hsilent : name ∉ declaring)
    (step : ∀ done a qs, form a qs → Tells (state done) qs (state (done ++ [a]))) :
    Tells (state []) ps (state as) := by
  cases h with
  | omitted => exact .nil _
  | around row element =>
    have hcontainer : IsContainer { name } := ⟨⟨hname, nofun, .nil⟩, hsilent⟩
    exact tells_of_isContainer hcontainer (tells_row state row step []) element

/-! ## Attributes -/

theorem lookup_attribute? (key name : String) (value : Option String) :
    (attribute? key value).lookup name = if name = key then value else none := by
  cases value with
  | none => simp [attribute?]
  | some value => simp [attribute?]

theorem isBlank_of_isDigit {c : Char} (h : c.isDigit = true) : Text.isBlank c = false := by
  rw [Char.isDigit, Bool.and_eq_true, decide_eq_true_iff, decide_eq_true_iff] at h
  have hlower : 48 ≤ c.toNat := h.1
  have hupper : c.toNat ≤ 57 := h.2
  simp only [Text.isBlank, Bool.or_eq_false_iff, Bool.and_eq_false_iff, decide_eq_false_iff_not,
    beq_eq_false_iff_ne]
  omega

/-- A number of 32 bits is read from its decimal digits. -/
theorem number32?_decimal (v : UInt32) : number32? (Text.Numeral.decimal v.toNat) = some v := by
  have hdigit : ∀ c ∈ (Text.Numeral.decimal v.toNat).toList, c.isDigit = true :=
    fun c hc => Text.Numeral.isDigit_of_mem_decimal hc
  have htrim : Text.trimChars (Text.Numeral.decimal v.toNat).toList =
      (Text.Numeral.decimal v.toNat).toList :=
    Text.trimChars_eq_self
      (fun c hc => isBlank_of_isDigit (hdigit c (List.mem_of_head? hc)))
      (fun c hc => isBlank_of_isDigit (hdigit c (List.mem_of_getLast? hc)))
  rw [number32?, htrim]
  split
  · next hplus =>
    have := hdigit '+' (hplus ▸ List.mem_cons_self)
    exact absurd this (by decide)
  · rw [Text.Numeral.read?_decimal, Option.bind_some, if_pos v.toNat_lt_size, UInt32.ofNat_toNat]

theorem pinnedValue_of_lookup {v : Option UInt32}
    (h : tag.attributes.lookup "value" = v.map fun v => Text.Numeral.decimal v.toNat) :
    pinnedValue tag = .ok v := by
  cases v with
  | none => rw [pinnedValue, h]; rfl
  | some v =>
    rw [pinnedValue, h]
    simp only [Option.map_some, number32?_decimal]

theorem required_of_lookup {key value : String} (h : tag.attributes.lookup key = some value) :
    required tag key = .ok value := by
  rw [required, h]

/-- Tags whose keys are some of a few names. -/
theorem proper_of_sublist (name : String) (names : List String) {attributes : List (String × String)}
    (hkeys : (attributes.map (·.1)).Sublist names) (hname : IsName name)
    (hnames : ∀ key ∈ names, IsName key) (nodup : names.Nodup) : Tag.Proper ⟨name, attributes⟩ where
  name := hname
  keys a ha := hnames a.1 (hkeys.subset (List.mem_map_of_mem ha))
  nodup := nodup.sublist hkeys

theorem sublist_attribute? (key : String) (value : Option String) :
    ((attribute? key value).map (·.1)).Sublist [key] := by
  cases value with
  | none => exact List.nil_sublist _
  | some value => exact .refl _

theorem sublist_valueAttribute? (value : Option UInt32) :
    ((valueAttribute? value).map (·.1)).Sublist ["value"] :=
  sublist_attribute? "value" _

theorem lookup_valueAttribute? (value : Option UInt32) :
    (valueAttribute? value).lookup "value" = value.map fun v => Text.Numeral.decimal v.toNat := by
  rw [valueAttribute?, lookup_attribute?, if_pos rfl]

/-! ## Declarations -/

/-- An element with nothing inside adds what its tag says. -/
theorem tells_of_isLeaf {α : Type} {tag : α → Tag} {a : α} (h : IsLeaf tag a ps)
    (proper : (tag a).Proper) (htag : ∀ isEmpty, r.takeTag (tag a) isEmpty = .ok r')
    (hclosing : r'.takeClosing (tag a).name = r') : Tells r ps r' :=
  tells_of_isElement proper h htag (.nil r') hclosing

/-- A state between two declarations. -/
def between (d : Document) : Partial := { document := d }

theorem proper_path {name : String} (hname : IsName name) (path : String) :
    (pathTag name path).Proper :=
  proper_of_sublist name ["path"] (.refl _) hname (by decide) (by decide)

theorem tells_include {d : Document} {path : String} (h : IsLeaf (pathTag "include") path ps) :
    Tells (between d) ps (between { d with includes := d.includes ++ [path] }) :=
  tells_of_isLeaf h (proper_path (by decide) path) (fun _ => rfl) rfl

theorem tells_source {d : Document} {path : String} (h : IsLeaf (pathTag "source") path ps) :
    Tells (between d) ps (between { d with sources := d.sources ++ [path] }) :=
  tells_of_isLeaf h (proper_path (by decide) path) (fun _ => rfl) rfl

theorem tells_alias {d : Document} {e : String × String} (h : IsLeaf (textTag "alias" "value") e ps) :
    Tells (between d) ps (between { d with aliases := d.aliases.insert e.1 e.2 }) :=
  tells_of_isLeaf h
    (proper_of_sublist "alias" ["name", "value"] (.refl _) (by decide) (by decide) (by decide))
    (fun _ => rfl) rfl

theorem tells_typedef {d : Document} {e : String × String}
    (h : IsLeaf (textTag "typedef" "type") e ps) :
    Tells (between d) ps (between { d with typedefs := d.typedefs.insert e.1 e.2 }) :=
  tells_of_isLeaf h
    (proper_of_sublist "typedef" ["name", "type"] (.refl _) (by decide) (by decide) (by decide))
    (fun _ => rfl) rfl

/-! ### Channels -/

theorem proper_channel (c : ChannelEntry) : c.toTag.Proper :=
  proper_of_sublist "channel" ["id", "name", "type", "value"]
    ((((sublist_valueAttribute? c.value).cons_cons _).cons_cons _).cons_cons _) (by decide)
    (by decide) (by decide)

theorem channelOfTag_toTag (c : ChannelEntry) : channelOfTag c.toTag = .ok c := by
  have hid : required c.toTag "id" = .ok c.id := required_of_lookup rfl
  have hname : required c.toTag "name" = .ok c.name := required_of_lookup rfl
  have htype : required c.toTag "type" = .ok c.type := required_of_lookup rfl
  have hvalue : pinnedValue c.toTag = .ok c.value :=
    pinnedValue_of_lookup (lookup_valueAttribute? c.value)
  rw [channelOfTag, hid, hname, htype, hvalue]
  rfl

theorem tells_channel {d : Document} {c : ChannelEntry} (h : IsLeaf ChannelEntry.toTag c ps) :
    Tells (between d) ps (between { d with channels := d.channels ++ [c] }) := by
  refine tells_of_isLeaf h (proper_channel c) (fun _ => ?_) rfl
  have hread := channelOfTag_toTag c
  rw [ChannelEntry.toTag] at hread ⊢
  simp only [Partial.takeTag, hread]
  rfl

/-! ### Opcodes -/

theorem proper_opcode (o : OpcodeEntry) : o.toTag.Proper :=
  proper_of_sublist "opcode" ["name", "value"] ((sublist_valueAttribute? o.value).cons_cons _)
    (by decide) (by decide) (by decide)

theorem opcodeOfTag_toTag (o : OpcodeEntry) : opcodeOfTag o.toTag = .ok o := by
  have hname : required o.toTag "name" = .ok o.name := required_of_lookup rfl
  have hvalue : pinnedValue o.toTag = .ok o.value :=
    pinnedValue_of_lookup (lookup_valueAttribute? o.value)
  rw [opcodeOfTag, hname, hvalue]
  rfl

/-- Outside tasks an opcode is the provider's. -/
theorem tells_opcode {d : Document} {o : OpcodeEntry} (h : IsLeaf OpcodeEntry.toTag o ps) :
    Tells (between d) ps (between { d with opcodes := d.opcodes ++ [o] }) := by
  refine tells_of_isLeaf h (proper_opcode o) (fun _ => ?_) rfl
  have hread := opcodeOfTag_toTag o
  rw [OpcodeEntry.toTag] at hread ⊢
  simp only [Partial.takeTag, hread]
  rfl

/-- Inside a task an opcode is that task's. -/
theorem tells_localOpcode {d : Document} {t : TaskEntry} {o : OpcodeEntry}
    (h : IsLeaf OpcodeEntry.toTag o ps) :
    Tells { document := d, task := some t } ps
      { document := d, task := some { t with opcodes := t.opcodes ++ [o] } } := by
  refine tells_of_isLeaf h (proper_opcode o) (fun _ => ?_) rfl
  have hread := opcodeOfTag_toTag o
  rw [OpcodeEntry.toTag] at hread ⊢
  simp only [Partial.takeTag, hread]
  rfl

/-! ### Tasks -/

theorem proper_task (e : TaskEntry) : (taskTag e).Proper :=
  proper_of_sublist "task" ["name", "value"] ((sublist_valueAttribute? e.value).cons_cons _)
    (by decide) (by decide) (by decide)

theorem taskOfTag_taskTag (e : TaskEntry) :
    taskOfTag (taskTag e) = .ok { name := e.name, value := e.value } := by
  have hname : required (taskTag e) "name" = .ok e.name := required_of_lookup rfl
  have hvalue : pinnedValue (taskTag e) = .ok e.value :=
    pinnedValue_of_lookup (lookup_valueAttribute? e.value)
  rw [taskOfTag, hname, hvalue]
  rfl

theorem tells_task {d : Document} {e : TaskEntry} (h : IsTask e ps) :
    Tells (between d) ps (between { d with tasks := d.tasks ++ [e] }) := by
  have hread := taskOfTag_taskTag e
  obtain ⟨name, value, opcodes⟩ := e
  rw [taskTag] at hread
  cases h with
  | pair hopcodes =>
    -- The opcodes so far are kept in the task that is open.
    let state (done : List OpcodeEntry) : Partial :=
      { document := d, task := some { name, value, opcodes := done } }
    have hinside := tells_row state hopcodes (fun _ _ _ => tells_localOpcode) []
    refine tells_pair (proper_task _) ?_ hinside
    simp only [Partial.takeTag, taskTag, hread]
    rfl
  | empty bare =>
    cases bare
    refine tells_empty (proper_task _) ?_
    simp only [Partial.takeTag, taskTag, hread]
    rfl

/-! ### Events -/

theorem tells_param {d : Document} {e : EventDecl} {p : String × String} (h : IsLeaf paramTag p ps) :
    Tells { document := d, event := some e } ps
      { document := d, event := some { e with params := e.params ++ [p] } } :=
  tells_of_isLeaf h
    (proper_of_sublist "param" ["type", "name"] (.refl _) (by decide) (by decide) (by decide))
    (fun _ => rfl) rfl

theorem proper_event (e : EventDecl) : e.toTag.Proper :=
  proper_of_sublist "event"
    ["subsystem", "severity", "level", "channel", "task", "opcode", "value"]
    (((((((sublist_valueAttribute? e.value).cons_cons _).cons_cons _).cons_cons _).cons_cons
      _).cons_cons _).cons_cons _) (by decide) (by decide) (by decide)

theorem eventOfTag_toTag (e : EventDecl) : eventOfTag e.toTag = .ok { e with params := [] } := by
  have hsubsystem : required e.toTag "subsystem" = .ok e.subsystem := required_of_lookup rfl
  have hseverity : required e.toTag "severity" = .ok e.severity := required_of_lookup rfl
  have hlevel : required e.toTag "level" = .ok e.level := required_of_lookup rfl
  have hchannel : required e.toTag "channel" = .ok e.channel := required_of_lookup rfl
  have htask : required e.toTag "task" = .ok e.task := required_of_lookup rfl
  have hopcode : required e.toTag "opcode" = .ok e.opcode := required_of_lookup rfl
  have hvalue : pinnedValue e.toTag = .ok e.value :=
    pinnedValue_of_lookup (lookup_valueAttribute? e.value)
  rw [eventOfTag, hsubsystem, hseverity, hlevel, hchannel, htask, hopcode, hvalue]
  rfl

theorem tells_event {d : Document} {e : EventDecl} (h : IsEvent e ps) :
    Tells (between d) ps (between { d with events := d.events ++ [e] }) := by
  have hread := eventOfTag_toTag e
  rw [EventDecl.toTag] at hread
  cases h with
  | pair hparams =>
    -- The parameters so far are kept in the event that is open.
    let state (done : List (String × String)) : Partial :=
      { document := d, event := some { e with params := done } }
    have hinside := tells_row state hparams (fun _ _ _ => tells_param) []
    refine tells_pair (proper_event e) ?_ hinside
    simp only [Partial.takeTag, EventDecl.toTag, hread]
    rfl
  | empty bare =>
    refine tells_empty (proper_event e) ?_
    have hbare : { e with params := [] } = e := by rw [← bare]
    rw [hbare] at hread
    simp only [Partial.takeTag, EventDecl.toTag, hread]
    rfl

/-! ### Providers -/

theorem proper_provider (e : ProviderEntry) : e.toTag.Proper := by
  have hkeys : (e.toTag.attributes.map (·.1)).Sublist
      ["id", "name", "symbol", "description", "resourceName"] := by
    simp only [ProviderEntry.toTag, List.map_append]
    exact ((((sublist_attribute? _ _).append (sublist_attribute? _ _)).append
      (sublist_attribute? _ _)).append (sublist_attribute? _ _)).append (sublist_attribute? _ _)
  exact proper_of_sublist "provider" _ hkeys (by decide) (by decide) (by decide)

theorem providerOfTag_toTag (e : ProviderEntry) : providerOfTag e.toTag = e := by
  simp [providerOfTag, ProviderEntry.toTag, List.lookup_append, lookup_attribute?]

/-! ## Documents -/

/-- A table is put together from its texts in any order. -/
theorem ofList_eq_of_perm {l : List (String × String)} {t : Table String String}
    (h : l.Perm t.entries) : Table.ofList l = t :=
  Table.ofList_eq ((h.map _).nodup_iff.2 t.keys_nodup) fun _ => h.mem_iff

/-- The lists of a document are added to what is known of its provider. -/
theorem tells_body {d : Document} (h : IsBody d ps) :
    Tells (between { provider := d.provider }) ps (between d) := by
  obtain @⟨aliases, typedefs, _, _, _, _, _, _, _, _, hincludes, hsources, haliases, haliasParts,
    htypedefs, htypedefParts, hchannels, htasks, hopcodes, hevents⟩ := h
  have h₁ := tells_container (fun l => between { provider := d.provider, includes := l })
    hincludes (by decide) (by decide) fun _ _ _ => tells_include
  have h₂ := tells_container
    (fun l => between { provider := d.provider, includes := d.includes, sources := l })
    hsources (by decide) (by decide) fun _ _ _ => tells_source
  have h₃ := tells_container
    (fun l => between {
      provider := d.provider, includes := d.includes, sources := d.sources,
      aliases := Table.ofList l })
    haliasParts (by decide) (by decide) fun done e _ h => by
      rw [Table.ofList_concat]
      exact tells_alias h
  have h₄ := tells_container
    (fun l => between {
      provider := d.provider, includes := d.includes, sources := d.sources, aliases := d.aliases,
      typedefs := Table.ofList l })
    htypedefParts (by decide) (by decide) fun done e _ h => by
      rw [Table.ofList_concat]
      exact tells_typedef h
  have h₅ := tells_container
    (fun l => between { d with channels := l, tasks := [], opcodes := [], events := [] })
    hchannels (by decide) (by decide) fun _ _ _ => tells_channel
  have h₆ := tells_container (fun l => between { d with tasks := l, opcodes := [], events := [] })
    htasks (by decide) (by decide) fun _ _ _ => tells_task
  have h₇ := tells_container (fun l => between { d with opcodes := l, events := [] })
    hopcodes (by decide) (by decide) fun _ _ _ => tells_opcode
  have h₈ := tells_container (fun l => between { d with events := l })
    hevents (by decide) (by decide) fun _ _ _ => tells_event
  rw [ofList_eq_of_perm haliases] at h₃
  rw [ofList_eq_of_perm htypedefs] at h₄
  exact ((((((h₁.append h₂).append h₃).append h₄).append h₅).append h₆).append h₇).append h₈

/-- The element of a document tells the document. -/
theorem tells_document {d : Document} (h : IsDocument d ps) : Tells {} ps (between d) := by
  induction h with
  | @holder tag inside ps holder body element =>
    have hbody := tells_body body
    rw [IsHolder.eq_def] at holder
    cases hprovider : d.provider with
    | none =>
      rw [hprovider] at holder hbody
      exact tells_of_isContainer holder hbody element
    | some e =>
      rw [hprovider] at holder hbody
      subst holder
      refine tells_of_isElement (proper_provider e) element (fun _ => ?_) hbody rfl
      have hread := providerOfTag_toTag e
      rw [ProviderEntry.toTag] at hread ⊢
      simp only [Partial.takeTag, hread]
      rfl
  | wrapped container _ ih => exact tells_of_isContainer container ih (.pair _)

/-! ## Texts -/

theorem isBlank_of_markup {c : Char} (h : Markup.isBlank c = true) : Text.isBlank c = true := by
  simp only [Markup.isBlank, Bool.or_eq_true, beq_iff_eq] at h
  rcases h with ((rfl | rfl) | rfl) | rfl
  all_goals rfl

theorem isJson_of_laid {text : String} (h : Laid ps text.toList) (proper : ∀ p ∈ ps, p.Proper) :
    isJson text = false := by
  rw [isJson]
  generalize text.toList = t at h
  induction h with
  | nil => rfl
  | blank blank _ ih =>
    rw [List.dropWhile_cons_of_pos (isBlank_of_markup blank)]
    exact ih proper
  | part =>
    obtain ⟨m, htext, -⟩ := Markup.marked?_text (proper _ List.mem_cons_self)
    rw [htext]
    rfl

/-- **A document is read from every markup text of it.** -/
theorem parse_of_laid (d : Document) (path : String) (h : IsDocument d ps) {text : String}
    (laid : Laid ps text.toList) : parse path text = .ok [d] := by
  have htells := tells_document h
  have hread : Markup.read text = { parts := ps } :=
    Markup.read_of_laid laid htells.proper (htells.closed [])
  have hdocument : ofMarkup path text = .ok d := by
    rw [ofMarkup, hread]
    simp only [htells.run]
    rfl
  rw [parse, isJson_of_laid laid htells.proper, if_neg Bool.false_ne_true, hdocument]
  rfl

/-! ## The markup of a document -/

theorem row_of_forall {α : Type} {form : α → List Part → Prop} {parts : α → List Part}
    (h : ∀ a, form a (parts a)) (as : List α) : Row form as (as.flatMap parts) := by
  induction as with
  | nil => exact .nil
  | cons a as ih => exact .cons (h a) ih

theorem row_leaf {α : Type} (tag : α → Tag) (as : List α) :
    Row (IsLeaf tag) as (as.map fun a => .empty (tag a)) := by
  have hrow : Row (IsLeaf tag) as (as.flatMap fun a => [.empty (tag a)]) :=
    row_of_forall (fun _ => .empty) as
  rwa [← List.map_eq_flatMap] at hrow

/-- The parts that a document is written as are a form of it. -/
theorem isDocument_toParts (d : Document) : IsDocument d d.toParts := by
  have hholder : IsHolder d d.outerTag := by
    rw [IsHolder.eq_def, outerTag.eq_def]
    cases d.provider with
    | none => exact ⟨⟨by decide, nofun, .nil⟩, by decide⟩
    | some e => rfl
  have htask : ∀ e : TaskEntry, IsTask e e.toParts := fun e => .pair (row_leaf _ e.opcodes)
  have hevent : ∀ e : EventDecl, IsEvent e e.toParts := fun e => .pair (row_leaf _ e.params)
  refine .holder hholder (.mk ?_ ?_ (.refl _) ?_ (.refl _) ?_ ?_ ?_ ?_ ?_) (.pair _)
  · exact .around (row_leaf _ _) (.pair _)
  · exact .around (row_leaf _ _) (.pair _)
  · exact .around (row_leaf _ _) (.pair _)
  · exact .around (row_leaf _ _) (.pair _)
  · exact .around (row_leaf _ _) (.pair _)
  · exact .around (row_of_forall htask _) (.pair _)
  · exact .around (row_leaf _ _) (.pair _)
  · exact .around (row_of_forall hevent _) (.pair _)

end EventSchema.Document
