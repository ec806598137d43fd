import EventSchema.Proofs.Draft.Marks
import EventSchema.Proofs.Draft.Order

/-!
# What declarations come to

A declaration that succeeds leaves its mark, and takes the provider no further than to the least one
above it that has the mark (`Settles`). So a list of declarations takes it to the least one that has
all their marks (`settles_forM`), and the marks do not depend on the order of the list: where the
declarations succeed in two orders, the drafts they end in are the same (`forM_perm`).
-/

namespace EventSchema

open EventSchema.Numbering (Filled numberIn)
open Relation (ReflTransGen)

variable {α : Type} {R : Provider → Provider → Prop} {x y : Build Unit}
  {mark mark' : Provider → Prop} {d d₁ d₂ : Draft}

instance : Std.Antisymm Provider.Below where
  antisymm _ _ hpq hqp := Provider.grown_antisymm hpq.grown hqp.grown

/-! ## Least providers with a mark -/

/-- A step that, where it succeeds, takes the provider to the least one above it that has a mark, and
leaves the rest of the draft alone. -/
structure Settles (R : Provider → Provider → Prop) (x : Build Unit) (mark : Provider → Prop) :
    Prop where
  queue : ∀ d e, x d = .ok () e → e.queue = d.queue
  there : ∀ d e, x d = .ok () e → e.provider = some e.model
  grows : ∀ d e, x d = .ok () e → R d.model e.model
  left : ∀ d e, x d = .ok () e → mark e.model
  kept : ∀ p q, R p q → mark p → mark q
  least : ∀ d e r, x d = .ok () e → R d.model r → mark r → R e.model r

theorem settles_update {change : Provider → Except Error Provider}
    (grows : ∀ p q, change p = .ok q → R p q) (left : ∀ p q, change p = .ok q → mark q)
    (kept : ∀ p q, R p q → mark p → mark q)
    (least : ∀ p q r, change p = .ok q → R p r → mark r → R q r) :
    Settles R (Build.update change) mark where
  queue d e h := by
    obtain ⟨q, -, rfl⟩ := Build.update_eq_ok.1 h
    rfl
  there d e h := by
    obtain ⟨q, -, rfl⟩ := Build.update_eq_ok.1 h
    rfl
  grows d e h := by
    obtain ⟨q, hq, rfl⟩ := Build.update_eq_ok.1 h
    exact grows d.model q hq
  left d e h := by
    obtain ⟨q, hq, rfl⟩ := Build.update_eq_ok.1 h
    exact left d.model q hq
  kept := kept
  least d e r h hr hmark := by
    obtain ⟨q, hq, rfl⟩ := Build.update_eq_ok.1 h
    exact least d.model q r hq hr hmark

theorem Settles.bind [IsTrans Provider R] (hx : Settles R x mark) (hy : Settles R y mark') :
    Settles R (x >>= fun _ => y) fun p => mark p ∧ mark' p where
  queue d f h := by
    obtain ⟨_, e, hxe, hyf⟩ := bind_eq_ok.1 h
    rw [hy.queue e f hyf, hx.queue d e hxe]
  there d f h := by
    obtain ⟨_, e, -, hyf⟩ := bind_eq_ok.1 h
    exact hy.there e f hyf
  grows d f h := by
    obtain ⟨_, e, hxe, hyf⟩ := bind_eq_ok.1 h
    exact trans_of R (hx.grows d e hxe) (hy.grows e f hyf)
  left d f h := by
    obtain ⟨_, e, hxe, hyf⟩ := bind_eq_ok.1 h
    exact ⟨hx.kept _ _ (hy.grows e f hyf) (hx.left d e hxe), hy.left e f hyf⟩
  kept p q hpq h := ⟨hx.kept p q hpq h.1, hy.kept p q hpq h.2⟩
  least d f r h hr hmark := by
    obtain ⟨_, e, hxe, hyf⟩ := bind_eq_ok.1 h
    have her : R e.model r := hx.least d e r hxe hr hmark.1
    exact hy.least e f r hyf her hmark.2

/-- **A list of steps takes the provider to the least one that has all their marks.** -/
theorem settles_forM [IsTrans Provider R] {f : α → Build Unit} {marks : α → Provider → Prop} :
    ∀ {l : List α}, l ≠ [] → (∀ a ∈ l, Settles R (f a) (marks a)) →
      Settles R (l.forM f) fun p => ∀ a ∈ l, marks a p := by
  intro l
  induction l with
  | nil =>
    intro hne
    exact absurd rfl hne
  | cons a rest ih =>
    intro _ h
    have ha : Settles R (f a) (marks a) := h a List.mem_cons_self
    by_cases hrest : rest = []
    · subst hrest
      have hone : [a].forM f = f a := by
        change (f a >>= fun _ => pure ()) = f a
        exact bind_pure (f a)
      rw [hone]
      simpa using ha
    · have hall := ih hrest fun b hb => h b (List.mem_cons_of_mem a hb)
      have hboth : Settles R (f a >>= fun _ => rest.forM f) _ := ha.bind hall
      simpa using hboth

/-- Two steps with the same mark come to the same. -/
theorem Settles.eq_of_ok [Std.Antisymm R] (hx : Settles R x mark) (hy : Settles R y mark)
    (h₁ : x d = .ok () d₁) (h₂ : y d = .ok () d₂) : d₁ = d₂ := by
  have hle : R d₁.model d₂.model := hx.least d d₁ _ h₁ (hy.grows d d₂ h₂) (hy.left d d₂ h₂)
  have hge : R d₂.model d₁.model := hy.least d d₂ _ h₂ (hx.grows d d₁ h₁) (hx.left d d₁ h₁)
  have hmodel : d₁.model = d₂.model := antisymm_of R hle hge
  have hprovider : d₁.provider = d₂.provider := by
    rw [hx.there d d₁ h₁, hy.there d d₂ h₂, hmodel]
  have hqueue : d₁.queue = d₂.queue := by rw [hx.queue d d₁ h₁, hy.queue d d₂ h₂]
  cases d₁
  cases d₂
  simp_all

/-- **The order of steps that settle does not matter.** -/
theorem forM_perm [IsTrans Provider R] [Std.Antisymm R] {f : α → Build Unit} {l l' : List α}
    (perm : l.Perm l') (settles : ∀ a ∈ l, ∃ mark, Settles R (f a) mark)
    (h₁ : l.forM f d = .ok () d₁) (h₂ : l'.forM f d = .ok () d₂) : d₁ = d₂ := by
  choose! marks hmarks using settles
  by_cases hnil : l = []
  · subst hnil
    rw [perm.nil_eq] at h₁
    exact (EStateM.Result.ok.inj (h₁.symm.trans h₂)).2
  · have hnil' : l' ≠ [] := fun h => hnil (h ▸ perm).eq_nil
    have hl : Settles R (l.forM f) fun p => ∀ a ∈ l, marks a p := settles_forM hnil hmarks
    have hl' : Settles R (l'.forM f) fun p => ∀ a ∈ l', marks a p :=
      settles_forM hnil' fun a ha => hmarks a (perm.mem_iff.2 ha)
    simp only [← perm.mem_iff] at hl'
    exact hl.eq_of_ok hl' h₁ h₂

/-! ## New entities and pinned numbers -/

theorem filled_newChannel {c : Channel} {id name : String} {type : ChannelType} (hid : c.id = id)
    (hname : c.name = name) (htype : c.type = type) : Filled ⟨id, name, type, none⟩ c := by
  subst hid hname htype
  cases hvalue : c.value with
  | none => exact .inl (by cases c; cases hvalue; rfl)
  | some v => exact .inr ⟨rfl, v, by cases c; cases hvalue; rfl⟩

theorem filled_newOpcode {o : Opcode} {name : String} (hname : o.name = name) :
    Filled { name } o := by
  subst hname
  cases hvalue : o.value with
  | none => exact .inl (by cases o; cases hvalue; rfl)
  | some v => exact .inr ⟨rfl, v, by cases o; cases hvalue; rfl⟩

theorem taskGrown_newTask {t : Task} {name : String} (hname : t.name = name) :
    TaskGrown { name } t where
  name := hname
  value := .inl rfl
  opcodes := by rintro _ _ ⟨⟩

theorem filled_pinned [Numbered α] [LawfulNumbered α] {a b : α} {value : UInt32} (h : Filled a b)
    (hb : Numbered.value b = some value) : Filled (Numbered.withValue a value) b := by
  rcases h with rfl | ⟨-, v, rfl⟩
  · exact .inl (LawfulNumbered.withValue_self b value hb).symm
  · rw [LawfulNumbered.value_withValue] at hb
    cases hb
    exact .inl rfl

/-- A table with a number pinned in it is below those in which it has that number. -/
theorem extends_pinned [Numbered α] [LawfulNumbered α] {t s : Table String α} {name : String}
    {value : UInt32} (h : Table.Extends Filled t s) (hs : numberIn s name = some value) :
    Table.Extends Filled (t.modify name fun a => Numbered.withValue a value) s := by
  refine h.modify fun a b _ hb hab => filled_pinned hab ?_
  simpa [numberIn, hb] using hs

namespace Provider

variable {p q r : Provider}

/-! ## Declarations -/

/-- A definition settles if every provider above, once it has the mark, has all that is defined. -/
theorem settles_of_marks {change : Provider → Except Error Provider} (marks : Marks change mark)
    (changes : ∀ p q, change p = .ok q → ReflTransGen Change p q)
    (within : ∀ p q r, change p = .ok q → p.Below r → mark r → q.Grown r) :
    Settles Below (Build.update change) mark := by
  refine settles_update (fun p q h => below_of_changes (changes p q h)) marks.left
    (fun p q hpq => marks.kept p q hpq.grown) fun p q r h hpr hmark => ?_
  have hpq : p.Grown q := grown_of_changes (changes p q h)
  exact hpr.of_between hpq (within p q r h hpr hmark)

theorem settles_property [DecidableEq α] {read : Provider → Option α}
    {store : Provider → Option α → Provider} (property : IsProperty read store)
    (within : ∀ p r v, p.Grown r → Kept v (read r) → (store p v).Grown r) (what : Scalar)
    (shown : α → ScalarValue) (given : Option α) :
    Settles Below (Build.update fun p => do
        return store p (← setIfGiven what shown (read p) given))
      fun p => ∀ v, given = some v → read p = some v := by
  refine settles_of_marks (marks_property property what shown given) (fun p q h => ?_)
    fun p q r h hpr hmark => ?_
  · obtain ⟨v, hset, rfl⟩ := setIfGiven_of_ok h
    exact .single (property.change p v (kept_setIfGiven hset))
  · obtain ⟨v, hset, rfl⟩ := setIfGiven_of_ok h
    refine within p r v hpr.grown ?_
    cases given with
    | none =>
      cases hset
      exact property.kept p r hpr.grown
    | some new =>
      have hnew : v = some new := (setOnce_eq_ok hset).1
      exact .inr (by rw [hmark new rfl, hnew])

theorem settles_defineProvider (decl : ProviderDecl) :
    ∃ mark, Settles Below (Build.defineProvider decl) mark := by
  have hid := settles_property isProperty_id (fun _ _ _ grown h => { grown with id := h })
    .providerId .number decl.id
  have hname := settles_property isProperty_name (fun _ _ _ grown h => { grown with name := h })
    .providerName .text decl.name
  have hsymbol := settles_property isProperty_symbol
    (fun _ _ _ grown h => { grown with symbol := h }) .providerSymbol .text decl.symbol
  have hdescription := settles_property isProperty_description
    (fun _ _ _ grown h => { grown with description := h }) .providerDescription .text
    decl.description
  have hresourceName := settles_property isProperty_resourceName
    (fun _ _ _ grown h => { grown with resourceName := h }) .providerResourceName .text
    decl.resourceName
  exact ⟨_, hid.bind (hname.bind (hsymbol.bind (hdescription.bind hresourceName)))⟩

theorem settles_defineAlias (name value : String) :
    Settles Below (Build.defineAlias name value) fun p => p.aliases.find? name = some value := by
  refine settles_of_marks (marks_defineAlias name value) (fun _ _ => changes_defineAlias)
    fun p q r h hpr hmark => ?_
  rcases defineAlias_eq_ok h with ⟨-, rfl⟩ | ⟨-, rfl⟩
  · exact hpr.grown
  · exact { hpr.grown with aliases := hpr.grown.aliases.insert hmark rfl }

theorem settles_defineTypedef (name : String) (type : FieldType) :
    Settles Below (Build.defineTypedef name type) fun p => p.typedefs.find? name = some type := by
  refine settles_of_marks (marks_defineTypedef name type) (fun _ _ => changes_defineTypedef)
    fun p q r h hpr hmark => ?_
  rcases defineTypedef_eq_ok h with ⟨-, rfl⟩ | ⟨-, rfl⟩
  · exact hpr.grown
  · exact { hpr.grown with typedefs := hpr.grown.typedefs.insert hmark rfl }

theorem settles_defineChannel (id name : String) (type : ChannelType) :
    Settles Below (Build.defineChannel id name type) (·.HasChannel id name type) := by
  refine settles_of_marks (marks_defineChannel id name type) (fun _ _ => changes_defineChannel)
    fun p q r h hpr hmark => ?_
  rcases defineChannel_eq_ok h with ⟨-, rfl⟩ | ⟨fresh, rfl⟩
  · exact hpr.grown
  · obtain ⟨c, hc, hname, htype⟩ := hmark
    have hid : c.id = id := hpr.channels id c fresh hc
    exact { hpr.grown with
      channels := hpr.grown.channels.insert hc (filled_newChannel hid hname htype) }

theorem settles_defineTask (name : String) :
    Settles Below (Build.defineTask name) fun p => p.tasks.contains name = true := by
  refine settles_of_marks (marks_defineTask name) (fun p q h => ?_) fun p q r h hpr hmark => ?_
  · cases h
    exact changes_defineTask name
  · cases h
    obtain ⟨t, ht⟩ := Option.isSome_iff_exists.1 hmark
    exact { hpr.grown with
      tasks := hpr.grown.tasks.insertNew fun fresh =>
        ⟨t, ht, taskGrown_newTask (hpr.tasks name t fresh ht)⟩ }

theorem grown_defineOpcode {name : String} (hpr : p.Below r)
    (h : r.opcodes.contains name = true) : (p.defineOpcode name).Grown r := by
  obtain ⟨o, ho⟩ := Option.isSome_iff_exists.1 h
  exact { hpr.grown with
    opcodes := hpr.grown.opcodes.insertNew fun fresh =>
      ⟨o, ho, filled_newOpcode (hpr.opcodes name o fresh ho)⟩ }

theorem settles_defineOpcode (name : String) :
    Settles Below (Build.defineOpcode name) fun p => p.opcodes.contains name = true := by
  refine settles_of_marks (marks_defineOpcode name) (fun p q h => ?_) fun p q r h hpr hmark => ?_
  · cases h
    exact changes_defineOpcode name
  · cases h
    exact grown_defineOpcode hpr hmark

theorem settles_defineLocalOpcode (task opcode : String) :
    Settles Below (Build.defineLocalOpcode task opcode) (·.HasLocalOpcode task opcode) := by
  refine settles_of_marks (marks_defineLocalOpcode task opcode)
    (fun _ _ => changes_defineLocalOpcode) fun p q r h hpr hmark => ?_
  obtain ⟨-, rfl⟩ := defineLocalOpcode_eq_ok h
  obtain ⟨u, hu, hopcode⟩ := hmark
  obtain ⟨o, ho⟩ := Option.isSome_iff_exists.1 hopcode
  refine { hpr.grown with tasks := hpr.grown.tasks.modify fun t v ht hv htv => ?_ }
  obtain rfl : u = v := Option.some.inj (hu.symm.trans hv)
  refine { htv with opcodes := htv.opcodes.insertNew fun fresh => ⟨o, ho, ?_⟩ }
  have named := hpr.localOpcodes task
  rw [localOpcodes_of_find? ht, localOpcodes_of_find? hu] at named
  exact filled_newOpcode (named opcode o fresh ho)

theorem settles_pinChannel (id : String) (value : UInt32) :
    Settles Below (Build.pinChannel id value) fun p => numberIn p.channels id = some value := by
  refine settles_of_marks (marks_pinChannel id value) (fun _ _ => changes_pinChannel)
    fun p q r h hpr hmark => ?_
  obtain ⟨-, rfl⟩ := pinChannel_eq_ok h
  exact { hpr.grown with channels := extends_pinned hpr.grown.channels hmark }

theorem settles_pinTask (name : String) (value : UInt32) :
    Settles Below (Build.pinTask name value) fun p => numberIn p.tasks name = some value := by
  refine settles_of_marks (marks_pinTask name value) (fun _ _ => changes_pinTask)
    fun p q r h hpr hmark => ?_
  obtain ⟨-, rfl⟩ := pinTask_eq_ok h
  refine { hpr.grown with tasks := hpr.grown.tasks.modify fun t u _ hu htu => ?_ }
  have hvalue : u.value = some value := by
    rw [numberIn, hu] at hmark
    exact hmark
  exact { htu with value := .inr hvalue }

theorem settles_pinOpcode (name : String) (value : UInt32) :
    Settles Below (Build.pinOpcode name value) fun p => numberIn p.opcodes name = some value := by
  refine settles_of_marks (marks_pinOpcode name value) (fun _ _ => changes_pinOpcode)
    fun p q r h hpr hmark => ?_
  obtain ⟨-, rfl⟩ := pinOpcode_eq_ok h
  exact { hpr.grown with opcodes := extends_pinned hpr.grown.opcodes hmark }

theorem settles_pinTaskOpcode (task name : String) (value : UInt32) :
    Settles Below (Build.pinTaskOpcode task name value) fun p =>
      ∃ t, p.tasks.find? task = some t ∧ numberIn t.opcodes name = some value := by
  refine settles_of_marks (marks_pinTaskOpcode task name value) (fun _ _ => changes_pinTaskOpcode)
    fun p q r h hpr hmark => ?_
  obtain ⟨-, rfl⟩ := pinTaskOpcode_eq_ok h
  obtain ⟨u, hu, hnumber⟩ := hmark
  refine { hpr.grown with tasks := hpr.grown.tasks.modify fun t v _ hv htv => ?_ }
  obtain rfl : u = v := Option.some.inj (hu.symm.trans hv)
  exact { htv with opcodes := extends_pinned htv.opcodes hnumber }

end Provider

/-- The operations that declare something other than an event. -/
def Operation.Declares : Operation → Prop
  | .defineProvider _ | .defineAlias _ _ | .defineTypedef _ _ | .defineChannel _ _ _
  | .defineTask _ | .defineOpcode _ | .defineLocalOpcode _ _
  | .pinChannel _ _ | .pinTask _ _ | .pinOpcode _ _ | .pinTaskOpcode _ _ _ => True
  | .apply _ | .merge _ | .defineTaskOpcode _ _ | .defineEvent _ | .updateQueue _
  | .assignNumbers => False

/-- **Every declaration settles.** -/
theorem Operation.exists_settles {op : Operation} (h : op.Declares) :
    ∃ mark, Settles Provider.Below op.run mark := by
  cases op with
  | defineProvider decl => exact Provider.settles_defineProvider decl
  | defineAlias name value => exact ⟨_, Provider.settles_defineAlias name value⟩
  | defineTypedef name type => exact ⟨_, Provider.settles_defineTypedef name type⟩
  | defineChannel id name type => exact ⟨_, Provider.settles_defineChannel id name type⟩
  | defineTask name => exact ⟨_, Provider.settles_defineTask name⟩
  | defineOpcode name => exact ⟨_, Provider.settles_defineOpcode name⟩
  | defineLocalOpcode task opcode => exact ⟨_, Provider.settles_defineLocalOpcode task opcode⟩
  | pinChannel id value => exact ⟨_, Provider.settles_pinChannel id value⟩
  | pinTask name value => exact ⟨_, Provider.settles_pinTask name value⟩
  | pinOpcode name value => exact ⟨_, Provider.settles_pinOpcode name value⟩
  | pinTaskOpcode task name value => exact ⟨_, Provider.settles_pinTaskOpcode task name value⟩
  | apply | merge | defineTaskOpcode | defineEvent | updateQueue | assignNumbers => exact h.elim

end EventSchema
