import EventSchema.Proofs.Agreement
import EventSchema.Proofs.Draft.Interning
import EventSchema.Proofs.Draft.Properties

/-!
# Aliases in documents

A document replaces its texts through the aliases once, after its own aliases are defined, and
declares what it then says (`merge_replaces`). The name, the symbol, the description and the resource
name of the provider and the aliases themselves are the exceptions: a clause replaces them as well, a
document takes them as they are.
-/

namespace EventSchema

/-! ## Replaced texts -/

def ProviderEntry.replaced (text : String → String) (e : ProviderEntry) : ProviderEntry where
  id := e.id.map text
  name := e.name.map text
  symbol := e.symbol.map text
  description := e.description.map text
  resourceName := e.resourceName.map text

/-- The properties with only the id replaced. -/
def ProviderEntry.idReplaced (text : String → String) (e : ProviderEntry) : ProviderEntry :=
  { e with id := e.id.map text }

def ChannelEntry.replaced (text : String → String) (e : ChannelEntry) : ChannelEntry :=
  { e with id := text e.id, name := text e.name, type := text e.type }

def OpcodeEntry.replaced (text : String → String) (e : OpcodeEntry) : OpcodeEntry :=
  { e with name := text e.name }

def TaskEntry.replaced (text : String → String) (e : TaskEntry) : TaskEntry :=
  { e with name := text e.name, opcodes := e.opcodes.map (OpcodeEntry.replaced text) }

/-- The document with its texts replaced, except for those of its provider and its aliases. -/
def Document.replaced (text : String → String) (doc : Document) : Document :=
  { doc with
    includes := doc.includes.map text
    sources := doc.sources.map text
    typedefs := doc.typedefs.mapKeyed fun _ => text
    channels := doc.channels.map (ChannelEntry.replaced text)
    tasks := doc.tasks.map (TaskEntry.replaced text)
    opcodes := doc.opcodes.map (OpcodeEntry.replaced text)
    events := doc.events.map (EventDecl.replaced text) }

/-! ## Texts taken as they are -/

/-- Sets the properties. -/
def ProviderEntry.define (e : ProviderEntry) : Build Unit := do
  let id ←
    match e.id with
    | some text => some <$> Build.ofExcept (ProviderId.parse text)
    | none => pure none
  Build.defineProvider {
    id
    name := e.name
    symbol := e.symbol
    description := e.description
    resourceName := e.resourceName }

/-- Defines the channel and pins its number. -/
def ChannelEntry.define (e : ChannelEntry) : Build Unit := do
  let type ← Build.word ChannelType e.type
  Build.defineChannel e.id e.name type
  Document.pinning e.value (Build.pinChannel e.id)

/-- Defines the opcode of a task and pins its number. -/
def OpcodeEntry.defineLocal (task : String) (e : OpcodeEntry) : Build Unit := do
  Build.defineLocalOpcode task e.name
  Document.pinning e.value (Build.pinTaskOpcode task e.name)

/-- Defines the opcode and pins its number. -/
def OpcodeEntry.define (e : OpcodeEntry) : Build Unit := do
  Build.defineOpcode e.name
  Document.pinning e.value (Build.pinOpcode e.name)

/-- Defines the task with its opcodes and pins their numbers. -/
def TaskEntry.define (e : TaskEntry) : Build Unit := do
  Build.defineTask e.name
  Document.pinning e.value (Build.pinTask e.name)
  e.opcodes.forM (OpcodeEntry.defineLocal e.name)

/-- What a document says besides its provider and its aliases. -/
def Document.define (doc : Document) : Build Unit := do
  doc.typedefs.entries.forM fun e => do
    Build.defineTypedef e.1 (← Build.word FieldType e.2)
  doc.channels.forM ChannelEntry.define
  doc.tasks.forM TaskEntry.define
  doc.opcodes.forM OpcodeEntry.define
  doc.events.forM Build.defineEvent
  Build.updateQueue fun q => doc.sources.foldl WorkQueue.pushBack (q.pushFrontAll doc.includes)

/-! ## Replacing at once -/

section

variable {α : Type} {text : String → String}

/-- Drafts in which texts stand for what they stand for in a given one. -/
def Draft.Reads (text : String → String) (d : Draft) : Prop := d.aliased = text

theorem MadeOf.keeps_reads {x : Build α} (h : MadeOf (· ≠ .aliases) x) :
    Leads (Keeping (Draft.Reads text)) x := by
  intro d hd
  rw [Draft.Reads, aliased_model, h.aliased_eq d]
  exact hd

/-- A text that is replaced on the way may be replaced before. -/
theorem agreeOn_replaced_bind {arg : String} {f : String → Build α} {y : Build α}
    (h : AgreeOn (Draft.Reads text) y (f (text arg))) :
    AgreeOn (Draft.Reads text) y (Build.aliased arg >>= f) := by
  intro d hd
  change y d = f (d.aliased arg) d
  rw [show d.aliased = text from hd, h d hd]

theorem agreeOn_refl (x : Build α) : AgreeOn (Draft.Reads text) x x := fun _ _ => rfl

end

namespace Document

variable {text : String → String}

theorem typedef_agrees (name typeName : String) :
    AgreeOn (Draft.Reads text)
      (Build.word FieldType (text typeName) >>= fun type => Build.defineTypedef name type)
      (mergeTypedef name typeName) :=
  agreeOn_replaced_bind (agreeOn_refl _)

theorem channel_agrees (e : ChannelEntry) :
    AgreeOn (Draft.Reads text) (e.replaced text).define (mergeChannel e) := by
  refine agreeOn_replaced_bind (agreeOn_replaced_bind ?_)
  refine agreeOn_bind (agreeOn_refl _) (MadeOf.word _ _).keeps_reads fun type => ?_
  exact agreeOn_replaced_bind (agreeOn_refl _)

theorem localOpcode_agrees (task : String) (e : OpcodeEntry) :
    AgreeOn (Draft.Reads text) ((e.replaced text).defineLocal task) (mergeLocalOpcode task e) :=
  agreeOn_replaced_bind (agreeOn_refl _)

theorem opcode_agrees (e : OpcodeEntry) :
    AgreeOn (Draft.Reads text) (e.replaced text).define (mergeOpcode e) :=
  agreeOn_replaced_bind (agreeOn_refl _)

theorem task_agrees (e : TaskEntry) :
    AgreeOn (Draft.Reads text) (e.replaced text).define (mergeTask e) := by
  refine agreeOn_replaced_bind ?_
  refine agreeOn_bind (agreeOn_refl _) (MadeOf.update (.task _) nofun).keeps_reads fun _ => ?_
  refine agreeOn_bind (agreeOn_refl _) ?_ fun _ => ?_
  · exact (MadeOf.pinning _ fun v => .update (.taskNumber _ v) nofun).keeps_reads
  · exact agreeOn_forM (forall₂_map_agreeOn _ fun o _ => localOpcode_agrees _ o)
      fun o => (madeOf_mergeLocalOpcode nofun _ o).keeps_reads

theorem event_agrees (e : EventDecl) :
    AgreeOn (Draft.Reads text) (Build.defineEvent (e.replaced text)) (mergeEvent e) := by
  intro d hd
  rw [mergeEvent_apply, show d.aliased = text from hd]

theorem files_agree (doc : Document) :
    AgreeOn (Draft.Reads text)
      (Build.updateQueue fun q =>
        (doc.sources.map text).foldl WorkQueue.pushBack (q.pushFrontAll (doc.includes.map text)))
      doc.mergeFiles := by
  intro d hd
  rw [mergeFiles, get_bind_eq, show d.aliased = text from hd]

/-- **Texts are replaced once**, with the aliases that there are before the first declaration. -/
theorem define_agrees (doc : Document) :
    AgreeOn (Draft.Reads text) (doc.replaced text).define (do
      doc.typedefs.entries.forM fun e => mergeTypedef e.1 e.2
      doc.channels.forM mergeChannel
      doc.tasks.forM mergeTask
      doc.opcodes.forM mergeOpcode
      doc.events.forM mergeEvent
      doc.mergeFiles) := by
  refine agreeOn_forM_bind (forall₂_map_agreeOn _ fun e _ => typedef_agrees e.1 e.2)
    (fun e => (madeOf_mergeTypedef nofun e.1 e.2).keeps_reads) ?_
  refine agreeOn_forM_bind (forall₂_map_agreeOn _ fun c _ => channel_agrees c)
    (fun c => (madeOf_mergeChannel nofun c).keeps_reads) ?_
  refine agreeOn_forM_bind (forall₂_map_agreeOn _ fun t _ => task_agrees t)
    (fun t => (madeOf_mergeTask nofun t).keeps_reads) ?_
  refine agreeOn_forM_bind (forall₂_map_agreeOn _ fun o _ => opcode_agrees o)
    (fun o => (madeOf_mergeOpcode nofun o).keeps_reads) ?_
  exact agreeOn_forM_bind (forall₂_map_agreeOn _ fun e _ => event_agrees e)
    (fun e => (madeOf_mergeEvent nofun e).keeps_reads) (files_agree doc)

theorem map_aliased_bind {α β γ : Type} (g : String → Build α) (f : α → β) (k : β → Build γ)
    (arg : String) (d : Draft) :
    ((f <$> (Build.aliased arg >>= g)) >>= k) d = ((f <$> g (d.aliased arg)) >>= k) d := rfl

/-- Of the properties of the provider the id is replaced. -/
theorem mergeProvider_apply (e : ProviderEntry) (d : Draft) :
    mergeProvider e d = (e.idReplaced d.aliased).define d := by
  unfold mergeProvider ProviderEntry.define ProviderEntry.idReplaced
  cases e.id with
  | none => rfl
  | some text => exact map_aliased_bind (fun arg => Build.ofExcept (ProviderId.parse arg)) _ _ text d

theorem merge_eq (doc : Document) :
    doc.merge = (do
      match doc.provider with
      | some e => mergeProvider e
      | none => pure ()
      doc.aliases.entries.forM fun e => Build.defineAlias e.1 e.2
      (doc.replaced (← get).aliased).define) := by
  have hrest : (do
      doc.typedefs.entries.forM fun e => mergeTypedef e.1 e.2
      doc.channels.forM mergeChannel
      doc.tasks.forM mergeTask
      doc.opcodes.forM mergeOpcode
      doc.events.forM mergeEvent
      doc.mergeFiles) = get >>= fun d => (doc.replaced d.aliased).define := by
    funext d
    rw [get_bind_eq, define_agrees doc d rfl]
  rw [← hrest]
  rfl

/-! ## Documents as clauses would have them -/

/-- What merging a document would be if all of its texts were replaced as those of clauses are. -/
def mergeAsClauses (doc : Document) : Build Unit := do
  match doc.provider with
  | some e => get >>= fun d => (e.replaced d.aliased).define
  | none => pure ()
  doc.aliases.entries.forM fun e => Build.applyClause ⟨"ALIAS", [e.1, e.2]⟩
  (doc.replaced (← get).aliased).define

/-- The texts that only a clause replaces stand for themselves. -/
structure Stands (doc : Document) (d : Draft) : Prop where
  provider : ∀ e, doc.provider = some e → e.replaced d.aliased = e.idReplaced d.aliased
  aliases : ∀ e ∈ doc.aliases.entries, d.aliased e.1 = e.1 ∧ d.aliased e.2 = e.2 ∧
    ∀ value, doc.aliases.find? e.2 = some value → value = e.2

theorem applyClause_alias (name value : String) (d : Draft) :
    Build.applyClause ⟨"ALIAS", [name, value]⟩ d =
      Build.defineAlias (d.aliased name) (d.aliased value) d := rfl

/-- A text still stands for itself after the definition of an alias, unless it is that alias. -/
theorem aliased_of_defineAlias {name value text : String} {d d' : Draft}
    (h : Build.defineAlias name value d = .ok () d') (htext : d.aliased text = text)
    (hname : text = name → value = text) : d'.aliased text = text := by
  obtain ⟨q, hq, rfl⟩ := Build.update_eq_ok.1 h
  rw [aliased_model] at htext ⊢
  change q.aliased text = text
  rcases Provider.defineAlias_eq_ok hq with ⟨-, rfl⟩ | ⟨-, rfl⟩
  · exact htext
  · rw [Provider.aliased, Table.find?_insert]
    split
    · next heq => exact hname heq
    · exact htext

theorem forM_alias_agrees {entries : List (String × String)} {d : Draft}
    (stand : ∀ e ∈ entries, d.aliased e.1 = e.1 ∧ d.aliased e.2 = e.2)
    (apart : entries.Pairwise fun e f => f.1 ≠ e.1 ∧ (f.2 = e.1 → e.2 = f.2)) :
    entries.forM (fun e => Build.applyClause ⟨"ALIAS", [e.1, e.2]⟩) d =
      entries.forM (fun e => Build.defineAlias e.1 e.2) d := by
  induction entries generalizing d with
  | nil => rfl
  | cons e rest ih =>
    obtain ⟨hhead, htail⟩ := List.forall_mem_cons.1 stand
    obtain ⟨hapart, hrest⟩ := List.pairwise_cons.1 apart
    change EStateM.bind (Build.applyClause ⟨"ALIAS", [e.1, e.2]⟩) _ d =
      EStateM.bind (Build.defineAlias e.1 e.2) _ d
    unfold EStateM.bind
    rw [applyClause_alias, hhead.1, hhead.2]
    cases hdefine : Build.defineAlias e.1 e.2 d with
    | error err d' => rfl
    | ok _ d' =>
      refine ih (fun f hf => ?_) hrest
      obtain ⟨hname, hvalue⟩ := hapart f hf
      exact ⟨aliased_of_defineAlias hdefine (htail f hf).1 fun heq => absurd heq hname,
        aliased_of_defineAlias hdefine (htail f hf).2 hvalue⟩

theorem Stands.apart {doc : Document} {d : Draft} (h : doc.Stands d) :
    doc.aliases.entries.Pairwise fun e f => f.1 ≠ e.1 ∧ (f.2 = e.1 → e.2 = f.2) := by
  refine doc.aliases.ascending.imp_of_mem fun {e f} he hf hlt => ⟨fun heq => ?_, fun heq => ?_⟩
  · rw [heq] at hlt
    simp at hlt
  · have hfind : doc.aliases.find? f.2 = some e.2 :=
      heq ▸ (doc.aliases.mem_entries_iff e.1 e.2).1 he
    exact (h.aliases f hf).2.2 e.2 hfind

theorem bind_eq_of_eq {α β : Type} {x y : Build α} {f : α → Build β} {d : Draft} (h : x d = y d) :
    (x >>= f) d = (y >>= f) d := by
  change EStateM.bind x f d = EStateM.bind y f d
  unfold EStateM.bind
  rw [h]

theorem define_agrees_of_stands {doc : Document} {d : Draft} {e : ProviderEntry} (h : doc.Stands d)
    (he : doc.provider = some e) :
    AgreeOn (Draft.Reads d.aliased) (get >>= fun d => (e.replaced d.aliased).define)
      (mergeProvider e) := by
  intro d' hd'
  rw [get_bind_eq, mergeProvider_apply, show d'.aliased = d.aliased from hd', h.provider e he]

theorem aliases_agree_of_stands {doc : Document} {d : Draft} (h : doc.Stands d) :
    AgreeOn (Draft.Reads d.aliased)
      (doc.aliases.entries.forM fun e => Build.applyClause ⟨"ALIAS", [e.1, e.2]⟩)
      (doc.aliases.entries.forM fun e => Build.defineAlias e.1 e.2) := by
  intro d' hd'
  refine forM_alias_agrees (fun e he => ?_) h.apart
  rw [show d'.aliased = d.aliased from hd']
  exact ⟨(h.aliases e he).1, (h.aliases e he).2.1⟩

/-- A document does what its clauses would do if the texts that it takes as they are stand for
themselves. -/
theorem mergeAsClauses_eq {doc : Document} {d : Draft} (h : doc.Stands d) :
    doc.mergeAsClauses d = doc.merge d := by
  have hrest : AgreeOn (Draft.Reads d.aliased)
      ((doc.aliases.entries.forM fun e => Build.applyClause ⟨"ALIAS", [e.1, e.2]⟩) >>= fun _ =>
        get >>= fun d => (doc.replaced d.aliased).define)
      ((doc.aliases.entries.forM fun e => Build.defineAlias e.1 e.2) >>= fun _ =>
        get >>= fun d => (doc.replaced d.aliased).define) :=
    fun d' hd' => bind_eq_of_eq (aliases_agree_of_stands h d' hd')
  rw [merge_eq, mergeAsClauses]
  cases he : doc.provider with
  | none => exact hrest d rfl
  | some e =>
    exact agreeOn_bind (define_agrees_of_stands h he) (madeOf_mergeProvider nofun e).keeps_reads
      (fun _ => hrest) d rfl

end Document

/-! ## Properties that are set -/

/-- A text that is given for a property is its text afterwards. -/
theorem text_set_of_given {given old new : Option String}
    (h : new.map ScalarValue.text = (given.map .text).or (old.map .text)) (v : String)
    (hv : given = some v) : new = some v := by
  subst hv
  obtain ⟨w, rfl, hw⟩ := Option.map_eq_some_iff.1 h
  rw [ScalarValue.text.inj hw]

theorem Build.defineProvider_sets {decl : ProviderDecl} {d d' : Draft}
    (h : Build.defineProvider decl d = .ok () d') :
    (∀ v, decl.name = some v → d'.model.name = some v) ∧
      (∀ v, decl.symbol = some v → d'.model.symbol = some v) ∧
      (∀ v, decl.description = some v → d'.model.description = some v) ∧
      ∀ v, decl.resourceName = some v → d'.model.resourceName = some v := by
  have hset := (givenSet_of_defineProvider h).given
  exact ⟨text_set_of_given (hset .providerName (by decide)),
    text_set_of_given (hset .providerSymbol (by decide)),
    text_set_of_given (hset .providerDescription (by decide)),
    text_set_of_given (hset .providerResourceName (by decide))⟩

theorem ProviderEntry.define_sets {e : ProviderEntry} {d d' : Draft} (h : e.define d = .ok () d') :
    (∀ v, e.name = some v → d'.model.name = some v) ∧
      (∀ v, e.symbol = some v → d'.model.symbol = some v) ∧
      (∀ v, e.description = some v → d'.model.description = some v) ∧
      ∀ v, e.resourceName = some v → d'.model.resourceName = some v := by
  unfold ProviderEntry.define at h
  cases hid : e.id
  all_goals
    rw [hid] at h
    obtain ⟨id, d₁, -, hdefine⟩ := bind_eq_ok.1 h
    exact Build.defineProvider_sets hdefine

theorem map_eq_self_of_set {α : Type} {f : α → α} {given current : Option α}
    (h : ∀ v, given = some v → current = some v)
    (hmap : ∀ v, given.map f = some v → current = some v) : given.map f = given := by
  cases given with
  | none => rfl
  | some v => exact (hmap (f v) rfl).symm.trans (h v rfl)

/-- A provider that a document has declared is what a clause would have made of it exactly when the
texts that are taken as they are stand for themselves. -/
theorem define_replaced_iff {e : ProviderEntry} {d d' : Draft}
    (h : Document.mergeProvider e d = .ok () d') :
    (e.replaced d.aliased).define d = .ok () d' ↔ e.replaced d.aliased = e.idReplaced d.aliased := by
  rw [Document.mergeProvider_apply] at h
  constructor
  · intro hclause
    obtain ⟨name, symbol, description, resourceName⟩ := ProviderEntry.define_sets h
    obtain ⟨name', symbol', description', resourceName'⟩ := ProviderEntry.define_sets hclause
    have hname : e.name.map d.aliased = e.name := map_eq_self_of_set name name'
    have hsymbol : e.symbol.map d.aliased = e.symbol := map_eq_self_of_set symbol symbol'
    have hdescription : e.description.map d.aliased = e.description :=
      map_eq_self_of_set description description'
    have hresourceName : e.resourceName.map d.aliased = e.resourceName :=
      map_eq_self_of_set resourceName resourceName'
    rw [ProviderEntry.replaced, hname, hsymbol, hdescription, hresourceName]
    rfl
  · intro hsame
    rw [hsame, h]

/-- An alias of a new name is what a clause would have made of it exactly when its value stands for
itself. -/
theorem applyClause_alias_iff {name value : String} {d : Draft}
    (fresh : d.model.aliases.find? name = none) :
    Build.applyClause ⟨"ALIAS", [name, value]⟩ d = Build.defineAlias name value d ↔
      d.aliased value = value := by
  have hname : d.aliased name = name := by
    rw [aliased_model, Provider.aliased, fresh, Option.getD_none]
  rw [Document.applyClause_alias, hname]
  constructor
  · intro h
    have haliases (v : String) : (stateAfter (Build.defineAlias name v) d).model.aliases =
        d.model.aliases.insert name v := by
      rw [Build.defineAlias, model_update, Provider.defineAlias, fresh]
      rfl
    have hstate : stateAfter (Build.defineAlias name (d.aliased value)) d =
        stateAfter (Build.defineAlias name value) d := by
      rw [stateAfter, stateAfter, h]
    have hfind := congrArg (fun d => d.model.aliases.find? name) hstate
    simpa [haliases, Table.find?_insert] using hfind
  · intro h
    rw [h]

namespace Document

/-- **What a document replaces.** It replaces its texts through the aliases once, apart from the name,
the symbol, the description and the resource name of its provider and from its aliases. So it does
what its clauses would do where these stand for themselves; a provider that it declares with success
and an alias of a new name are what a clause would make of them only then. -/
theorem merge_replaces (doc : Document) (d : Draft) :
    doc.merge d = (do
      match doc.provider with
      | some e => get >>= fun d => (e.idReplaced d.aliased).define
      | none => pure ()
      doc.aliases.entries.forM fun e => Build.defineAlias e.1 e.2
      (doc.replaced (← get).aliased).define : Build Unit) d ∧
    (doc.Stands d → doc.merge d = doc.mergeAsClauses d) ∧
    (∀ e d', mergeProvider e d = .ok () d' →
      ((e.replaced d.aliased).define d = .ok () d' ↔
        e.replaced d.aliased = e.idReplaced d.aliased)) ∧
    ∀ name value, d.model.aliases.find? name = none →
      (Build.applyClause ⟨"ALIAS", [name, value]⟩ d = Build.defineAlias name value d ↔
        d.aliased value = value) := by
  refine ⟨?_, fun h => (mergeAsClauses_eq h).symm, fun e d' => define_replaced_iff,
    fun name value => applyClause_alias_iff⟩
  rw [merge_eq]
  cases doc.provider with
  | none => rfl
  | some e => exact bind_eq_of_eq (mergeProvider_apply e d)

/-- A draft with an alias for an id and one for a name. -/
def idAliasedDraft : Draft where
  provider := some { aliases := .ofList [("ID", "7"), ("P", "Q")] }

/-- A document that uses both, and that makes one text an alias for itself and for another one. -/
def standingDocument : Document where
  provider := some { id := some "ID", name := some "N" }
  aliases := .ofList [("A", "C"), ("C", "C")]
  tasks := [{ name := "P" }]

/-- What the document takes as it is stands for itself, so it does what its clauses would do. A
provider whose name is an alias, and an alias whose value is one, would come out otherwise. -/
theorem merge_replaces_standing :
    standingDocument.Stands idAliasedDraft ∧
      standingDocument.merge idAliasedDraft = standingDocument.mergeAsClauses idAliasedDraft ∧
      (∃ d, standingDocument.merge idAliasedDraft = .ok () d ∧ d.model.id = some 7 ∧
        d.model.tasks.keys = ["Q"] ∧ d.model.aliases.find? "A" = some "C") ∧
      (∃ d, mergeProvider { id := some "ID", name := some "P" } idAliasedDraft = .ok () d ∧
        (ProviderEntry.replaced idAliasedDraft.aliased
          { id := some "ID", name := some "P" }).define idAliasedDraft ≠ .ok () d) ∧
      idAliasedDraft.model.aliases.find? "B" = none ∧
      Build.applyClause ⟨"ALIAS", ["B", "C"]⟩ idAliasedDraft =
        Build.defineAlias "B" "C" idAliasedDraft ∧
      Build.applyClause ⟨"ALIAS", ["B", "P"]⟩ idAliasedDraft ≠
        Build.defineAlias "B" "P" idAliasedDraft := by
  have stands : standingDocument.Stands idAliasedDraft := by
    refine ⟨?_, ?_⟩
    · rintro e ⟨⟩
      rfl
    · intro e he
      rcases List.mem_cons.1 he with rfl | he
      · exact ⟨rfl, rfl, fun value h => (Option.some.inj h).symm⟩
      · rw [List.mem_singleton.1 he]
        exact ⟨rfl, rfl, fun value h => (Option.some.inj h).symm⟩
  obtain ⟨-, hclauses, hprovider, halias⟩ := merge_replaces standingDocument idAliasedDraft
  obtain ⟨d, hd⟩ : ∃ d,
      mergeProvider { id := some "ID", name := some "P" } idAliasedDraft = .ok () d := ⟨_, rfl⟩
  have hfresh : idAliasedDraft.model.aliases.find? "B" = none := rfl
  refine ⟨stands, hclauses stands, by decide +kernel, ⟨d, hd, fun h => ?_⟩, hfresh,
    (halias "B" "C" hfresh).2 rfl, fun h => ?_⟩
  · exact absurd ((hprovider _ d hd).1 h) (by decide)
  · exact absurd ((halias "B" "P" hfresh).1 h) (by decide)

/-- A draft with an alias. -/
def aliasedDraft : Draft where
  provider := some { aliases := .ofList [("P", "Q")] }

/-- A document that uses this alias for the name of its provider and for the value of an alias. -/
def aliasedDocument : Document where
  provider := some {
    id := some "1"
    name := some "P"
    symbol := some "S"
    description := some "D"
    resourceName := some "R" }
  aliases := .ofList [("A", "P")]

theorem merge_ne_mergeAsClauses :
    (∃ d, aliasedDocument.merge aliasedDraft = .ok () d ∧
      d.model.name = some "P" ∧ d.model.aliases.find? "A" = some "P") ∧
    (∃ d, aliasedDocument.mergeAsClauses aliasedDraft = .ok () d ∧
      d.model.name = some "Q" ∧ d.model.aliases.find? "A" = some "Q") ∧
    ¬ ∀ (doc : Document) (d : Draft), doc.merge d = doc.mergeAsClauses d := by
  have hmerge : ∃ d, aliasedDocument.merge aliasedDraft = .ok () d ∧
      d.model.name = some "P" ∧ d.model.aliases.find? "A" = some "P" := by decide +kernel
  have hclauses : ∃ d, aliasedDocument.mergeAsClauses aliasedDraft = .ok () d ∧
      d.model.name = some "Q" ∧ d.model.aliases.find? "A" = some "Q" := by decide +kernel
  refine ⟨hmerge, hclauses, fun h => ?_⟩
  obtain ⟨d, hd, hname, -⟩ := hmerge
  obtain ⟨d', hd', hname', -⟩ := hclauses
  rw [h, hd'] at hd
  cases hd
  exact absurd (hname.symm.trans hname') (by decide)

end Document

end EventSchema
