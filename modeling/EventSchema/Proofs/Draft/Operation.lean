import EventSchema.Proofs.Draft.Composition

/-!
# Operations on a draft

What can be done to a draft, one operation at a time, whether or not it succeeds. A step that is made
of definitions takes the provider through single changes, also where it fails part of the way, and
leaves alone what its definitions are not about (`MadeOf.leads`). Every operation is such a step, or
changes the queue, or assigns the numbers (`Operation.View`), so it takes the provider through single
changes as well (`Operation.run_changes`).
-/

namespace EventSchema

open EventSchema.Numbering (ProviderFilled)
open Relation (ReflTransGen)

variable {α : Type} {allowed : Topic → Prop} {d : Draft}

/-- The provider of a draft. A draft without one counts as having an empty one. -/
def Draft.model (d : Draft) : Provider := d.provider.getD {}

/-! ## Drafts before and after a step -/

/-- Drafts whose providers are apart by single changes. -/
structure Draft.Changes (d e : Draft) : Prop where
  provider : d.provider.isSome = true → e.provider.isSome = true
  model : ReflTransGen Provider.Change d.model e.model

instance : IsPreorder Draft Draft.Changes where
  refl _ := ⟨id, .refl⟩
  trans _ _ _ hde hef := ⟨hef.provider ∘ hde.provider, .trans hde.model hef.model⟩

/-- Drafts that are apart by changes about some topics. -/
structure Draft.ChangesAbout (allowed : Topic → Prop) (d e : Draft) : Prop
    extends Draft.Changes d e where
  only : ReflTransGen (fun p q => ∃ topic, allowed topic ∧ topic.Only p q) d.model e.model
  queue : ¬ allowed .files → e.queue = d.queue

instance : IsPreorder Draft (Draft.ChangesAbout allowed) where
  refl d := ⟨refl_of Draft.Changes d, .refl, fun _ => rfl⟩
  trans _ _ _ hde hef := {
    toChanges := trans_of Draft.Changes hde.toChanges hef.toChanges
    only := .trans hde.only hef.only
    queue := fun hfiles => (hef.queue hfiles).trans (hde.queue hfiles) }

/-! ## Steps -/

namespace Build

/-- A change succeeds on a draft where it does on its provider. -/
theorem update_eq_ok {change : Provider → Except Error Provider} {d e : Draft} :
    update change d = .ok () e ↔
      ∃ q, change d.model = .ok q ∧ e = { d with provider := some q } := by
  rw [update, Draft.model]
  cases hchange : change (d.provider.getD {}) with
  | ok q => simp [eq_comm]
  | error e => simp

/-- A change fails on a draft where it does on its provider, and changes nothing. -/
theorem update_eq_error {change : Provider → Except Error Provider} {d d' : Draft} {e : Error} :
    update change d = .error e d' ↔
      change d.model = .error e ∧ d' = { d with provider := some d.model } := by
  rw [update, Draft.model]
  cases hchange : change (d.provider.getD {}) with
  | ok q => simp
  | error e' => simp [eq_comm]

/-- An event is added to the provider that was made ready for it. -/
theorem event_of_ok {decl : EventDecl} {severity : Severity} {level : Level} {d e : Draft}
    (h : (update (·.prepareEvent decl) >>= fun _ => update (·.addEvent decl severity level)) d =
      .ok () e) :
    ∃ q r, d.model.prepareEvent decl = .ok q ∧ q.addEvent decl severity level = .ok r ∧
      e = { d with provider := some r } := by
  obtain ⟨⟨⟩, _, hprepare, hadd⟩ := bind_eq_ok.1 h
  obtain ⟨q, hq, rfl⟩ := update_eq_ok.1 hprepare
  obtain ⟨r, hr, rfl⟩ := update_eq_ok.1 hadd
  exact ⟨q, r, hq, hr, rfl⟩

theorem changesAbout_update {topic : Topic} {change : Provider → Except Error Provider}
    (allow : allowed topic) (changes : ∀ q, change d.model = .ok q →
      ReflTransGen Provider.Change d.model q ∧ topic.Only d.model q) :
    d.ChangesAbout allowed (stateAfter (update change) d) := by
  rw [stateAfter]
  cases hrun : update change d with
  | ok u e =>
    obtain ⟨q, hq, rfl⟩ := update_eq_ok.1 hrun
    obtain ⟨hchanges, honly⟩ := changes q hq
    exact ⟨⟨fun _ => rfl, hchanges⟩, .single ⟨topic, allow, honly⟩, fun _ => rfl⟩
  | error err e =>
    obtain ⟨-, rfl⟩ := update_eq_error.1 hrun
    exact ⟨⟨fun _ => rfl, .refl⟩, .refl, fun _ => rfl⟩

/-- Adding an event may rely on what was made sure of before. -/
theorem changesAbout_event (allow : allowed .events) (decl : EventDecl) (severity : Severity)
    (level : Level) :
    Leads (Draft.ChangesAbout allowed) (update (·.prepareEvent decl) >>= fun _ =>
      update (·.addEvent decl severity level)) := by
  refine leads_bind_of_ok (fun d => changesAbout_update allow fun q hq =>
    ⟨Provider.changes_prepareEvent hq, Provider.only_prepareEvent hq⟩) ?_
  intro d _ d' hprepare
  obtain ⟨q, hq, rfl⟩ := update_eq_ok.1 hprepare
  have hprepared : q.Prepared decl := Provider.prepared_of_prepareEvent hq
  exact changesAbout_update allow fun r hadd =>
    ⟨.single (Provider.change_addEvent hprepared hadd), Provider.only_addEvent hadd⟩

end Build

/-- **What a step leaves behind**, whether or not it succeeds: its provider has gone through changes
that are about what its definitions are about. -/
theorem MadeOf.leads {x : Build α} (h : MadeOf allowed x) :
    Leads (Draft.ChangesAbout allowed) x := by
  induction h with
  | pure a => exact leads_pure a
  | throw e => exact leads_throw e
  | update definition allow =>
    exact fun d => Build.changesAbout_update allow fun q hq =>
      ⟨definition.changes hq, definition.only hq⟩
  | event decl severity level allow => exact Build.changesAbout_event allow decl severity level
  | enqueue front back allow =>
    exact fun d => ⟨⟨id, .refl⟩, .refl, fun hfiles => absurd allow hfiles⟩
  | aliasing _ ih => exact leads_bind leads_get fun d => ih d.aliased
  | bind _ _ ihx ihf => exact leads_bind ihx ihf

theorem MadeOf.changes {x : Build α} (h : MadeOf allowed x) : Leads Draft.Changes x :=
  fun d => (h.leads d).toChanges

theorem Build.changes_of_defineEvent {decl : EventDecl} {d e : Draft}
    (h : defineEvent decl d = .ok () e) : d.Changes e := by
  have made : MadeOf (Topic.AliasesIf True) (defineEvent decl) := madeOf_defineEvent nofun decl
  have hchanges := made.changes d
  rwa [stateAfter_of_ok h] at hchanges

/-- Assigning numbers only fills in numbers, also where it fails. -/
theorem Build.assignNumbers_filled (d : Draft) :
    ProviderFilled d.model (stateAfter assignNumbers d).model := by
  have hfilled : ProviderFilled d.model (stateAfter Numbering.numberAll d.model) :=
    Numbering.numberAll_leads d.model
  unfold Draft.model stateAfter at hfilled
  unfold Draft.model stateAfter assignNumbers
  cases hrun : Numbering.numberAll (d.provider.getD {}) with
  | ok _ q =>
    rw [hrun] at hfilled
    exact hfilled
  | error e q =>
    rw [hrun] at hfilled
    exact hfilled

theorem Build.isSome_assignNumbers (d : Draft) :
    (stateAfter assignNumbers d).provider.isSome = true := by
  unfold stateAfter assignNumbers
  cases Numbering.numberAll (d.provider.getD {}) <;> rfl

/-! ## Operations -/

/-- What can be done to a draft. -/
inductive Operation
  | apply (c : Source.Clause)
  | merge (document : Document)
  | defineProvider (decl : ProviderDecl)
  | defineAlias (name value : String)
  | defineTypedef (name : String) (type : FieldType)
  | defineChannel (id name : String) (type : ChannelType)
  | defineTask (name : String)
  | defineOpcode (name : String)
  | defineTaskOpcode (task opcode : String)
  | defineLocalOpcode (task opcode : String)
  | pinChannel (id : String) (value : UInt32)
  | pinTask (name : String) (value : UInt32)
  | pinOpcode (name : String) (value : UInt32)
  | pinTaskOpcode (task name : String) (value : UInt32)
  | defineEvent (decl : EventDecl)
  | updateQueue (change : WorkQueue → WorkQueue)
  | assignNumbers

namespace Operation

/-- Carries an operation out. -/
def run : Operation → Build Unit
  | .apply c => Build.applyClause c
  | .merge document => document.merge
  | .defineProvider decl => Build.defineProvider decl
  | .defineAlias name value => Build.defineAlias name value
  | .defineTypedef name type => Build.defineTypedef name type
  | .defineChannel id name type => Build.defineChannel id name type
  | .defineTask name => Build.defineTask name
  | .defineOpcode name => Build.defineOpcode name
  | .defineTaskOpcode task opcode => Build.defineTaskOpcode task opcode
  | .defineLocalOpcode task opcode => Build.defineLocalOpcode task opcode
  | .pinChannel id value => Build.pinChannel id value
  | .pinTask name value => Build.pinTask name value
  | .pinOpcode name value => Build.pinOpcode name value
  | .pinTaskOpcode task name value => Build.pinTaskOpcode task name value
  | .defineEvent decl => Build.defineEvent decl
  | .updateQueue change => Build.updateQueue change
  | .assignNumbers => Build.assignNumbers

/-- What an operation is: a single definition, a step that may be made of several, or one of the two
that define nothing. -/
inductive View : Operation → Prop
  | single {op : Operation} {topic : Topic} {change : Provider → Except Error Provider}
      (definition : Definition topic change) (run_eq : op.run = Build.update change) : View op
  | apply (c : Source.Clause) : View (.apply c)
  | merge (document : Document) : View (.merge document)
  | defineProvider (decl : ProviderDecl) : View (.defineProvider decl)
  | defineEvent (decl : EventDecl) : View (.defineEvent decl)
  | updateQueue (change : WorkQueue → WorkQueue) : View (.updateQueue change)
  | assignNumbers : View .assignNumbers

theorem view (op : Operation) : op.View := by
  cases op with
  | apply c => exact .apply c
  | merge document => exact .merge document
  | defineProvider decl => exact .defineProvider decl
  | defineAlias name value => exact .single (.newAlias name value) rfl
  | defineTypedef name type => exact .single (.typedef name type) rfl
  | defineChannel id name type => exact .single (.channel id name type) rfl
  | defineTask name => exact .single (.task name) rfl
  | defineOpcode name => exact .single (.opcode name) rfl
  | defineTaskOpcode task opcode => exact .single (.taskOpcode task opcode) rfl
  | defineLocalOpcode task opcode => exact .single (.localOpcode task opcode) rfl
  | pinChannel id value => exact .single (.channelNumber id value) rfl
  | pinTask name value => exact .single (.taskNumber name value) rfl
  | pinOpcode name value => exact .single (.opcodeNumber name value) rfl
  | pinTaskOpcode task name value => exact .single (.taskOpcodeNumber task name value) rfl
  | defineEvent decl => exact .defineEvent decl
  | updateQueue change => exact .updateQueue change
  | assignNumbers => exact .assignNumbers

/-- **What an operation does.** It takes the provider through single changes, whether or not it
succeeds. -/
theorem run_changes (op : Operation) : Leads Draft.Changes op.run := by
  have made {x : Build Unit} (h : MadeOf (Topic.AliasesIf True) x) : Leads Draft.Changes x :=
    h.changes
  cases op.view with
  | single definition run_eq =>
    rw [run_eq]
    exact made (.update definition fun _ => trivial)
  | apply c => exact made (madeOf_applyClause fun _ => trivial)
  | merge document => exact made (Document.madeOf_merge fun _ => trivial)
  | defineProvider decl => exact made (madeOf_defineProvider nofun decl)
  | defineEvent decl => exact made (madeOf_defineEvent nofun decl)
  | updateQueue change => exact fun _ => ⟨id, .refl⟩
  | assignNumbers =>
    exact fun d => ⟨fun _ => Build.isSome_assignNumbers d,
      .single (.numbers (Build.assignNumbers_filled d))⟩

end Operation

/-- The draft after some operations, of which each may succeed or fail. -/
def Draft.after (d : Draft) (ops : List Operation) : Draft :=
  ops.foldl (fun d op => stateAfter op.run d) d

/-- Any run of operations takes the provider through single changes. -/
theorem Draft.changes_after (d : Draft) (ops : List Operation) : d.Changes (d.after ops) := by
  induction ops generalizing d with
  | nil => exact refl_of Draft.Changes d
  | cons op rest ih => exact trans_of Draft.Changes (op.run_changes d) (ih (stateAfter op.run d))

end EventSchema
