import EventSchema.Compilation.Basic
import EventSchema.Proofs.Draft.Definition
import EventSchema.Proofs.Draft.Method
import Mathlib.Control.Basic

/-!
# What steps are made of

Everything that reads a schema is made of definitions, each a single change of the provider, and of
paths that are added at the ends of the queue; it looks at the draft only through the aliases.
`MadeOf` says so, with the topics that the definitions are about, and `Definition` lists the changes.
What holds of every such step is then proved once, by induction on what it is made of: statements,
documents and files are made of definitions (`madeOf_statement`, `madeOf_merge`, `madeOf_takeText`),
of aliases only if they define some.
-/

namespace EventSchema

open Relation (ReflTransGen)

variable {α β : Type} {allowed : Topic → Prop} {may : Prop}

/-! ## Definitions -/

/-- The changes that definitions make, each about one topic. The two that make an event belong
together and are not among them (`MadeOf.event`). -/
inductive Definition : Topic → (Provider → Except Error Provider) → Prop
  | property {α : Type} [DecidableEq α] {read : Provider → Option α}
      {store : Provider → Option α → Provider} (h : IsProperty read store) (what : Scalar)
      (shown : α → ScalarValue) (given : Option α) :
      Definition .properties fun p => do return store p (← setIfGiven what shown (read p) given)
  /-- Nothing is changed, but a provider with a name is refused. -/
  | unnamed (refusal : String → Error) :
      Definition .properties fun p =>
        match p.name with
        | some name => .error (refusal name)
        | none => .ok p
  | newAlias (name value : String) : Definition .aliases (·.defineAlias name value)
  | typedef (name : String) (type : FieldType) : Definition .typedefs (·.defineTypedef name type)
  | channel (id name : String) (type : ChannelType) :
      Definition .entities (·.defineChannel id name type)
  | task (name : String) : Definition .entities fun p => .ok (p.defineTask name)
  | opcode (name : String) : Definition .entities fun p => .ok (p.defineOpcode name)
  | taskOpcode (task opcode : String) : Definition .entities (·.defineTaskOpcode task opcode)
  | localOpcode (task opcode : String) : Definition .entities (·.defineLocalOpcode task opcode)
  | channelNumber (id : String) (value : UInt32) : Definition .entities (·.pinChannel id value)
  | taskNumber (name : String) (value : UInt32) : Definition .entities (·.pinTask name value)
  | opcodeNumber (name : String) (value : UInt32) : Definition .entities (·.pinOpcode name value)
  | taskOpcodeNumber (task name : String) (value : UInt32) :
      Definition .entities (·.pinTaskOpcode task name value)

namespace Definition

variable {topic : Topic} {change : Provider → Except Error Provider} {p q : Provider}

/-- **A definition that succeeds** makes single changes. -/
theorem changes (definition : Definition topic change) (h : change p = .ok q) :
    ReflTransGen Provider.Change p q := by
  cases definition with
  | property property =>
    obtain ⟨v, hset, rfl⟩ := setIfGiven_of_ok h
    exact .single (property.change p v (Provider.kept_setIfGiven hset))
  | unnamed =>
    rw [Provider.eq_of_unnamed h]
  | newAlias => exact Provider.changes_defineAlias h
  | typedef => exact Provider.changes_defineTypedef h
  | channel => exact Provider.changes_defineChannel h
  | task name =>
    cases h
    exact Provider.changes_defineTask name
  | opcode name =>
    cases h
    exact Provider.changes_defineOpcode name
  | taskOpcode => exact Provider.changes_defineTaskOpcode h
  | localOpcode => exact Provider.changes_defineLocalOpcode h
  | channelNumber => exact Provider.changes_pinChannel h
  | taskNumber => exact Provider.changes_pinTask h
  | opcodeNumber => exact Provider.changes_pinOpcode h
  | taskOpcodeNumber => exact Provider.changes_pinTaskOpcode h

/-- **A definition changes nothing but what it is about.** -/
theorem only (definition : Definition topic change) (h : change p = .ok q) : topic.Only p q := by
  cases definition with
  | property property =>
    obtain ⟨v, -, rfl⟩ := setIfGiven_of_ok h
    exact property.only p v
  | unnamed =>
    rw [Provider.eq_of_unnamed h]
    rfl
  | newAlias => rcases Provider.defineAlias_eq_ok h with ⟨-, rfl⟩ | ⟨-, rfl⟩ <;> rfl
  | typedef => rcases Provider.defineTypedef_eq_ok h with ⟨-, rfl⟩ | ⟨-, rfl⟩ <;> rfl
  | channel => rcases Provider.defineChannel_eq_ok h with ⟨-, rfl⟩ | ⟨-, rfl⟩ <;> rfl
  | task | opcode =>
    cases h
    rfl
  | taskOpcode => rcases Provider.defineTaskOpcode_eq_ok h with ⟨-, rfl⟩ | ⟨-, rfl⟩ <;> rfl
  | localOpcode =>
    obtain ⟨-, rfl⟩ := Provider.defineLocalOpcode_eq_ok h
    rfl
  | channelNumber =>
    obtain ⟨-, rfl⟩ := Provider.pinChannel_eq_ok h
    rfl
  | taskNumber =>
    obtain ⟨-, rfl⟩ := Provider.pinTask_eq_ok h
    rfl
  | opcodeNumber =>
    obtain ⟨-, rfl⟩ := Provider.pinOpcode_eq_ok h
    rfl
  | taskOpcodeNumber =>
    obtain ⟨-, rfl⟩ := Provider.pinTaskOpcode_eq_ok h
    rfl

/-- An event takes two changes, so no single one is about events. -/
theorem topic_ne_events (definition : Definition topic change) : topic ≠ .events := by
  rintro rfl
  cases definition

end Definition

/-! ## Steps made of definitions -/

/-- A step that is made of definitions about some topics. -/
inductive MadeOf (allowed : Topic → Prop) : {α : Type} → Build α → Prop
  | pure {α : Type} (a : α) : MadeOf allowed (pure a)
  | throw {α : Type} (e : Error) : MadeOf allowed (throw e : Build α)
  | update {topic : Topic} {change : Provider → Except Error Provider}
      (definition : Definition topic change) (allow : allowed topic) :
      MadeOf allowed (Build.update change)
  /-- What an event refers to is there before the event is added. -/
  | event (decl : EventDecl) (severity : Severity) (level : Level) (allow : allowed .events) :
      MadeOf allowed (Build.update (·.prepareEvent decl) >>= fun _ =>
        Build.update (·.addEvent decl severity level))
  | enqueue (front back : List String) (allow : allowed .files) :
      MadeOf allowed (Build.updateQueue fun q => ⟨front ++ q.pending ++ back⟩)
  | aliasing {α : Type} {f : (String → String) → Build α} (h : ∀ text, MadeOf allowed (f text)) :
      MadeOf allowed (get >>= fun d => f d.aliased)
  | bind {α β : Type} {x : Build α} {f : α → Build β} (hx : MadeOf allowed x)
      (hf : ∀ a, MadeOf allowed (f a)) : MadeOf allowed (x >>= f)

namespace MadeOf

theorem map {x : Build α} (f : α → β) (h : MadeOf allowed x) : MadeOf allowed (f <$> x) := by
  rw [map_eq_pure_bind]
  exact .bind h fun _ => .pure _

theorem forM {l : List α} {f : α → Build PUnit} (h : ∀ a ∈ l, MadeOf allowed (f a)) :
    MadeOf allowed (l.forM f) := by
  induction l with
  | nil => exact .pure _
  | cons a rest ih =>
    exact .bind (h a List.mem_cons_self) fun _ => ih fun b hb => h b (List.mem_cons_of_mem _ hb)

/-- What follows a computation matters only for its result. -/
theorem ofExcept_bind {x : Except Error α} {f : α → Build β}
    (h : ∀ a, x = .ok a → MadeOf allowed (f a)) : MadeOf allowed (Build.ofExcept x >>= f) := by
  cases x with
  | ok a => exact h a rfl
  | error e => exact .throw e

theorem ofExcept (x : Except Error α) : MadeOf allowed (Build.ofExcept x) := by
  cases x with
  | ok a => exact .pure a
  | error e => exact .throw e

theorem word (α : Type) [Vocabulary α] (text : String) : MadeOf allowed (Build.word α text) :=
  .ofExcept _

theorem aliased (arg : String) : MadeOf allowed (Build.aliased arg) :=
  .aliasing (f := fun text => Pure.pure (text arg)) fun _ => .pure _

theorem pinning (value : Option UInt32) {pin : UInt32 → Build Unit}
    (h : ∀ v, MadeOf allowed (pin v)) : MadeOf allowed (Document.pinning value pin) := by
  cases value with
  | none => exact .pure ()
  | some v => exact h v

end MadeOf

theorem madeOf_defineProvider (allow : allowed .properties) (decl : ProviderDecl) :
    MadeOf allowed (Build.defineProvider decl) := by
  refine .bind (.update (.property isProperty_id _ _ decl.id) allow) fun _ => ?_
  refine .bind (.update (.property isProperty_name _ _ decl.name) allow) fun _ => ?_
  refine .bind (.update (.property isProperty_symbol _ _ decl.symbol) allow) fun _ => ?_
  refine .bind (.update (.property isProperty_description _ _ decl.description) allow) fun _ => ?_
  exact .update (.property isProperty_resourceName _ _ decl.resourceName) allow

theorem madeOf_defineEvent (allow : allowed .events) (decl : EventDecl) :
    MadeOf allowed (Build.defineEvent decl) :=
  .bind (.word _ _) fun severity => .bind (.word _ _) fun level => .event decl severity level allow

/-! ## Clauses -/

/-- All topics, with aliases among them only if there may be some. -/
def Topic.AliasesIf (may : Prop) (topic : Topic) : Prop := topic = .aliases → may

/-- What a statement is about. -/
def Statement.topic : Statement → Topic
  | .defineProvider _ | .guardUnnamed _ => .properties
  | .defineAlias _ _ => .aliases
  | .sourceFile _ | .includedFile _ => .files
  | .defineChannel _ _ _ | .defineTask _ | .defineOpcode _ | .defineTaskOpcode _ _ => .entities
  | .defineEvent _ => .events

theorem madeOf_statement {s : Statement} (allow : allowed s.topic) : MadeOf allowed s.apply := by
  cases s with
  | defineProvider decl => exact madeOf_defineProvider allow decl
  | guardUnnamed method => exact .update (.unnamed (.providerAlreadyNamed method)) allow
  | defineAlias name value => exact .update (.newAlias name value) allow
  | sourceFile path => exact .enqueue [] [path] allow
  | includedFile path =>
    have hfront : (fun q : WorkQueue => q.pushFront path) =
        fun q => ⟨[path] ++ q.pending ++ []⟩ := by
      funext q
      rw [List.append_nil]
      rfl
    rw [Statement.apply, hfront]
    exact .enqueue [path] [] allow
  | defineChannel id name type => exact .update (.channel id name type) allow
  | defineTask name => exact .update (.task name) allow
  | defineOpcode name => exact .update (.opcode name) allow
  | defineTaskOpcode task opcode => exact .update (.taskOpcode task opcode) allow
  | defineEvent decl => exact madeOf_defineEvent allow decl

/-- Only the definition of an event is about events. -/
theorem Statement.exists_of_topic {s : Statement} (h : s.topic = .events) :
    ∃ decl, s = .defineEvent decl := by
  cases s with
  | defineEvent decl => exact ⟨decl, rfl⟩
  | defineProvider | guardUnnamed | defineAlias | sourceFile | includedFile => cases h
  | defineChannel | defineTask | defineOpcode | defineTaskOpcode => cases h

/-- Only one method defines aliases. -/
theorem Statement.method_of_topic {s : Statement} {method : String} (h : s.HasMethod method)
    (htopic : s.topic = .aliases) : method = "ALIAS" := by
  cases s with
  | defineAlias => exact h
  | defineProvider | guardUnnamed | sourceFile | includedFile => cases htopic
  | defineChannel | defineTask | defineOpcode | defineTaskOpcode | defineEvent => cases htopic

theorem madeOf_applyClause {c : Source.Clause} (h : c.method = "ALIAS" → may) :
    MadeOf (Topic.AliasesIf may) (Build.applyClause c) := by
  refine .aliasing (f := fun text => Build.ofExcept (Statement.ofArguments c.method
    (c.args.map text)) >>= Statement.apply) fun text => ?_
  exact .ofExcept_bind fun s hs => madeOf_statement fun htopic =>
    h (Statement.method_of_topic (Statement.hasMethod_of_ofArguments hs) htopic)

/-! ## Documents -/

namespace Document

theorem madeOf_mergeProvider (allow : allowed .properties) (e : ProviderEntry) :
    MadeOf allowed (mergeProvider e) := by
  unfold mergeProvider
  cases e.id with
  | none => exact .bind (.pure none) fun _ => madeOf_defineProvider allow _
  | some text =>
    refine .bind (.map some ?_) fun _ => madeOf_defineProvider allow _
    exact .bind (.aliased text) fun _ => .ofExcept _

theorem madeOf_mergeTypedef (allow : allowed .typedefs) (name typeName : String) :
    MadeOf allowed (mergeTypedef name typeName) :=
  .bind (.aliased typeName) fun _ => .bind (.word _ _) fun type =>
    .update (.typedef name type) allow

theorem madeOf_mergeChannel (allow : allowed .entities) (e : ChannelEntry) :
    MadeOf allowed (mergeChannel e) := by
  refine .bind (.aliased e.id) fun id => .bind (.aliased e.type) fun typeName => ?_
  refine .bind (.word _ _) fun type => .bind (.aliased e.name) fun name => ?_
  refine .bind (.update (.channel id name type) allow) fun _ => ?_
  exact .pinning e.value fun v => .update (.channelNumber id v) allow

theorem madeOf_mergeLocalOpcode (allow : allowed .entities) (task : String) (e : OpcodeEntry) :
    MadeOf allowed (mergeLocalOpcode task e) := by
  refine .bind (.aliased e.name) fun name => ?_
  refine .bind (.update (.localOpcode task name) allow) fun _ => ?_
  exact .pinning e.value fun v => .update (.taskOpcodeNumber task name v) allow

theorem madeOf_mergeTask (allow : allowed .entities) (e : TaskEntry) :
    MadeOf allowed (mergeTask e) := by
  refine .bind (.aliased e.name) fun name => .bind (.update (.task name) allow) fun _ => ?_
  refine .bind (.pinning e.value fun v => .update (.taskNumber name v) allow) fun _ => ?_
  exact .forM fun o _ => madeOf_mergeLocalOpcode allow name o

theorem madeOf_mergeOpcode (allow : allowed .entities) (e : OpcodeEntry) :
    MadeOf allowed (mergeOpcode e) := by
  refine .bind (.aliased e.name) fun name => .bind (.update (.opcode name) allow) fun _ => ?_
  exact .pinning e.value fun v => .update (.opcodeNumber name v) allow

theorem madeOf_mergeEvent (allow : allowed .events) (e : EventDecl) :
    MadeOf allowed (mergeEvent e) :=
  .aliasing (f := fun text => Build.defineEvent {
    subsystem := text e.subsystem
    severity := text e.severity
    level := text e.level
    channel := text e.channel
    task := text e.task
    opcode := text e.opcode
    params := e.params.map fun param => (text param.1, text param.2)
    value := e.value }) fun _ => madeOf_defineEvent allow _

theorem madeOf_mergeEvents (allow : allowed .events) (events : List EventDecl) :
    MadeOf allowed (events.forM mergeEvent) :=
  .forM fun e _ => madeOf_mergeEvent allow e

theorem pending_foldl_pushBack (q : WorkQueue) (paths : List String) :
    (paths.foldl WorkQueue.pushBack q).pending = q.pending ++ paths := by
  induction paths generalizing q with
  | nil => exact (List.append_nil _).symm
  | cons path rest ih =>
    rw [List.foldl_cons, ih, WorkQueue.pending_pushBack, List.append_assoc]
    rfl

theorem madeOf_mergeFiles (allow : allowed .files) (d : Document) :
    MadeOf allowed d.mergeFiles := by
  refine .aliasing (f := fun text => Build.updateQueue fun q =>
    (d.sources.map text).foldl WorkQueue.pushBack (q.pushFrontAll (d.includes.map text)))
    fun text => ?_
  have hqueue : (fun q : WorkQueue =>
      (d.sources.map text).foldl WorkQueue.pushBack (q.pushFrontAll (d.includes.map text))) =
        fun q => ⟨d.includes.map text ++ q.pending ++ d.sources.map text⟩ := by
    funext q
    refine congrArg WorkQueue.mk ?_
    rw [pending_foldl_pushBack, WorkQueue.pending_pushFrontAll]
  rw [hqueue]
  exact .enqueue _ _ allow

/-- What a document defines before its events. -/
def mergeEntities (d : Document) : Build Unit := do
  match d.provider with
  | some e => mergeProvider e
  | none => pure ()
  d.aliases.entries.forM fun e => Build.defineAlias e.1 e.2
  d.typedefs.entries.forM fun e => mergeTypedef e.1 e.2
  d.channels.forM mergeChannel
  d.tasks.forM mergeTask
  d.opcodes.forM mergeOpcode

/-- A document defines its events last, and then names its files. -/
theorem merge_eq_mergeEntities (d : Document) : d.merge = (do
    d.mergeEntities
    d.events.forM mergeEvent
    d.mergeFiles) := by
  cases h : d.provider <;> simp only [merge, mergeEntities, h, bind_assoc]

theorem madeOf_mergeEntities {d : Document} (properties : allowed .properties)
    (aliases : d.aliases ≠ ∅ → allowed .aliases) (typedefs : allowed .typedefs)
    (entities : allowed .entities) : MadeOf allowed d.mergeEntities := by
  unfold mergeEntities
  extract_lets merge_rest
  have hrest : ∀ u, MadeOf allowed (merge_rest u) := by
    intro _
    refine .bind (.forM fun e he => .update (.newAlias e.1 e.2) (aliases ?_)) fun _ => ?_
    · intro hempty
      rw [hempty] at he
      exact List.not_mem_nil he
    refine .bind (.forM fun e _ => madeOf_mergeTypedef typedefs e.1 e.2) fun _ => ?_
    refine .bind (.forM fun c _ => madeOf_mergeChannel entities c) fun _ => ?_
    refine .bind (.forM fun t _ => madeOf_mergeTask entities t) fun _ => ?_
    exact .forM fun o _ => madeOf_mergeOpcode entities o
  cases d.provider with
  | none => exact hrest ()
  | some e => exact .bind (madeOf_mergeProvider properties e) hrest

theorem madeOf_merge {d : Document} (h : d.aliases ≠ ∅ → may) :
    MadeOf (Topic.AliasesIf may) d.merge := by
  rw [merge_eq_mergeEntities]
  refine .bind (madeOf_mergeEntities nofun (fun hne _ => h hne) nofun nofun) fun _ => ?_
  exact .bind (madeOf_mergeEvents nofun d.events) fun _ => madeOf_mergeFiles nofun d

end Document

/-! ## Files -/

/-- Whether a file that is not the root defines an alias. -/
def DefinesAlias (marker path text : String) : Prop :=
  if isDocumentFile path text = true then
    ∃ documents, Document.parse path text = .ok documents ∧ ∃ d ∈ documents, d.aliases ≠ ∅
  else
    ∃ t ∈ (Source.scan marker text).1, ∃ c, Source.Clause.parse t = .ok c ∧ c.method = "ALIAS"

instance decidableExistsOk {ε : Type} {P : α → Prop} [DecidablePred P] (x : Except ε α) :
    Decidable (∃ a, x = .ok a ∧ P a) :=
  match x with
  | .ok a => decidable_of_iff (P a) ⟨fun ha => ⟨a, rfl, ha⟩, fun ⟨_, heq, ha⟩ => by
      cases heq
      exact ha⟩
  | .error _ => isFalse fun ⟨_, heq, _⟩ => nomatch heq

instance (marker path text : String) : Decidable (DefinesAlias marker path text) :=
  inferInstanceAs (Decidable (if isDocumentFile path text = true then
    ∃ documents, Document.parse path text = .ok documents ∧ ∃ d ∈ documents, d.aliases ≠ ∅
  else
    ∃ t ∈ (Source.scan marker text).1, ∃ c, Source.Clause.parse t = .ok c ∧ c.method = "ALIAS"))

namespace Compilation

theorem madeOf_mergeDocuments {path text : String}
    (h : ∀ documents, Document.parse path text = .ok documents →
      ∀ d ∈ documents, d.aliases ≠ ∅ → may) :
    MadeOf (Topic.AliasesIf may) (mergeDocuments path text) :=
  .ofExcept_bind fun documents hdocuments =>
    .forM fun d hd => Document.madeOf_merge (h documents hdocuments d hd)

theorem madeOf_applySource {marker text : String}
    (h : ∀ t ∈ (Source.scan marker text).1, ∀ c, Source.Clause.parse t = .ok c →
      c.method = "ALIAS" → may) :
    MadeOf (Topic.AliasesIf may) (Build.applySource marker text) := by
  unfold Build.applySource
  generalize Source.scan marker text = found at h ⊢
  obtain ⟨clauses, fault?⟩ := found
  refine .bind (.forM fun t ht => .ofExcept_bind fun c hc => madeOf_applyClause (h t ht c ?_))
    fun _ => ?_
  · cases hparse : Source.Clause.parse t with
    | error fault =>
      rw [hparse] at hc
      cases hc
    | ok c' =>
      rw [hparse] at hc
      cases hc
      rfl
  · cases fault? with
    | none => exact .pure _
    | some fault => exact .throw _

/-- **What files are made of.** -/
theorem madeOf_takeText {marker path text : String} (h : DefinesAlias marker path text → may) :
    MadeOf (Topic.AliasesIf may) (takeText marker path text) := by
  unfold takeText
  unfold DefinesAlias at h
  split
  · next hdocument =>
    rw [if_pos hdocument] at h
    exact madeOf_mergeDocuments fun documents hdocuments d hd hne =>
      h ⟨documents, hdocuments, d, hd, hne⟩
  · next hsource =>
    rw [if_neg hsource] at h
    refine .map _ (madeOf_applySource fun t ht c hc hmethod => h ⟨t, ht, c, hc, hmethod⟩)

end Compilation

end EventSchema
