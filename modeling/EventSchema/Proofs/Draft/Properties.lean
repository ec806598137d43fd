import EventSchema.Proofs.Draft.Growth

/-!
# Properties that are set in their order

A provider is given its properties one after the other. Each single one is set, left alone where
none is given, or refused because it has another value (`setsProperty_setProperty`), and nothing
takes it back. So a declaration that is refused has set the properties before the first that
contradicts the one that is there (`defineProvider_sets_in_order`).
-/

namespace EventSchema

/-! ## Properties -/

/-- The properties of a provider, in the order in which they are set. -/
def providerProperties : List Scalar :=
  [.providerId, .providerName, .providerSymbol, .providerDescription, .providerResourceName]

/-- The value of a property. A number of an entity is no property of the provider. -/
def Provider.property? (p : Provider) : Scalar → Option ScalarValue
  | .providerId => p.id.map .number
  | .providerName => p.name.map .text
  | .providerSymbol => p.symbol.map .text
  | .providerDescription => p.description.map .text
  | .providerResourceName => p.resourceName.map .text
  | .channelValue | .taskValue | .opcodeValue | .taskOpcodeValue => none

/-- The value that is given for a property. -/
def ProviderDecl.property? (decl : ProviderDecl) : Scalar → Option ScalarValue
  | .providerId => decl.id.map .number
  | .providerName => decl.name.map .text
  | .providerSymbol => decl.symbol.map .text
  | .providerDescription => decl.description.map .text
  | .providerResourceName => decl.resourceName.map .text
  | .channelValue | .taskValue | .opcodeValue | .taskOpcodeValue => none

/-- A property has one value, and another one is given for it. -/
structure ProviderDecl.Contradicts (decl : ProviderDecl) (p : Provider) (what : Scalar)
    (old new : ScalarValue) : Prop where
  current : p.property? what = some old
  given : decl.property? what = some new
  differ : old ≠ new

/-- Providers that agree in all but their properties. -/
def Provider.SameTables (p q : Provider) : Prop :=
  q = { p with
    id := q.id
    name := q.name
    symbol := q.symbol
    description := q.description
    resourceName := q.resourceName }

/-- Drafts of which the second is the first with some properties set as a declaration gives them. -/
structure Draft.GivenSet (decl : ProviderDecl) (whats : List Scalar) (d e : Draft) : Prop where
  /-- What is given is set, and what is left out stays. -/
  given : ∀ what ∈ whats, e.model.property? what = (decl.property? what).or (d.model.property? what)
  others : ∀ what, what ∉ whats → e.model.property? what = d.model.property? what
  tables : d.model.SameTables e.model
  queue : e.queue = d.queue

theorem givenSet_nil (decl : ProviderDecl) (d : Draft) : d.GivenSet decl [] d :=
  ⟨nofun, fun _ _ => rfl, rfl, rfl⟩

theorem givenSet_of_absent {decl : ProviderDecl} {what : Scalar} {d : Draft}
    (h : decl.property? what = none) : d.GivenSet decl [what] d where
  given other hother := by
    obtain rfl := List.mem_singleton.1 hother
    rw [h, Option.none_or]
  others _ _ := rfl
  tables := rfl
  queue := rfl

theorem Draft.GivenSet.append {decl : ProviderDecl} {whats more : List Scalar} {d e f : Draft}
    (h : d.GivenSet decl whats e) (h' : e.GivenSet decl more f)
    (apart : ∀ what ∈ whats, what ∉ more) : d.GivenSet decl (whats ++ more) f where
  given what hwhat := by
    rcases List.mem_append.1 hwhat with hbefore | hmore
    · rw [h'.others what (apart what hbefore), h.given what hbefore]
    · have hother : what ∉ whats := fun hbefore => apart what hbefore hmore
      rw [h'.given what hmore, h.others what hother]
  others what hwhat := by
    rw [List.mem_append, not_or] at hwhat
    rw [h'.others what hwhat.2, h.others what hwhat.1]
  tables := by
    have htables := h.tables
    have htables' := h'.tables
    unfold Provider.SameTables at htables htables' ⊢
    rw [htables', htables]
  queue := h'.queue.trans h.queue

/-! ## One property -/

/-- A step that sets one property, or refuses to and changes nothing. -/
structure SetsProperty (decl : ProviderDecl) (what : Scalar) (x : Build Unit) : Prop where
  ok : ∀ d d', x d = .ok () d' →
    (∀ old new, ¬ decl.Contradicts d.model what old new) ∧ d.GivenSet decl [what] d'
  error : ∀ d d' e, x d = .error e d' →
    ∃ old new, e = .redefined what old new ∧ decl.Contradicts d.model what old new ∧
      d.GivenSet decl [] d'

/-- A property is set unless it has another value. -/
theorem setIfGiven_cases {α : Type} [DecidableEq α] (what : Scalar) (shown : α → ScalarValue)
    (current given : Option α) :
    (∃ old new, current = some old ∧ given = some new ∧ old ≠ new ∧
        setIfGiven what shown current given = .error (.redefined what (shown old) (shown new))) ∨
      (∀ old new, current = some old → given = some new → old = new) ∧
        setIfGiven what shown current given = .ok (given.or current) := by
  cases given with
  | none => exact .inr ⟨nofun, rfl⟩
  | some new =>
    cases current with
    | none => exact .inr ⟨nofun, rfl⟩
    | some old =>
      by_cases heq : old = new
      · subst heq
        refine .inr ⟨fun _ _ hold hnew => ?_, ?_⟩
        · cases hold
          cases hnew
          rfl
        · simp [setIfGiven, setOnce]
      · exact .inl ⟨old, new, rfl, rfl, heq, by simp [setIfGiven, setOnce, heq]⟩

section

variable {α : Type} [DecidableEq α] {shown : α → ScalarValue} {what : Scalar} {given : Option α}
  {decl : ProviderDecl}

/-- Each property is set in the same way, as it is read, stored and shown. -/
theorem setsProperty_update (read : Provider → Option α) (store : Provider → Option α → Provider)
    (hshown : Function.Injective shown)
    (hread : ∀ p : Provider, p.property? what = (read p).map shown)
    (hgiven : decl.property? what = given.map shown)
    (hstore : ∀ (p : Provider) v other, (store p v).property? other =
      if other = what then v.map shown else p.property? other)
    (htables : ∀ (p : Provider) v, p.SameTables (store p v)) :
    SetsProperty decl what
      (Build.update fun p => do return store p (← setIfGiven what shown (read p) given)) where
  ok d d' h := by
    obtain ⟨q, hq, rfl⟩ := Build.update_eq_ok.1 h
    obtain ⟨v, hset, rfl⟩ := setIfGiven_of_ok hq
    rcases setIfGiven_cases what shown (read d.model) given with
      ⟨old, new, -, -, -, herror⟩ | ⟨hsame, hok⟩
    · rw [herror] at hset
      cases hset
    · obtain rfl : given.or (read d.model) = v := Except.ok.inj (hok.symm.trans hset)
      refine ⟨?_, ?_, ?_, htables d.model _, rfl⟩
      · rintro _ _ ⟨hold, hnew, hne⟩
        rw [hread] at hold
        rw [hgiven] at hnew
        obtain ⟨a, ha, rfl⟩ := Option.map_eq_some_iff.1 hold
        obtain ⟨b, hb, rfl⟩ := Option.map_eq_some_iff.1 hnew
        exact hne (congrArg shown (hsame a b ha hb))
      · intro other hother
        refine (hstore d.model _ other).trans ?_
        rw [if_pos (List.mem_singleton.1 hother), List.mem_singleton.1 hother, hgiven, hread]
        exact Option.map_or
      · intro other hother
        refine (hstore d.model _ other).trans (if_neg ?_)
        rintro rfl
        exact hother List.mem_cons_self
  error d d' e h := by
    obtain ⟨hchange, rfl⟩ := Build.update_eq_error.1 h
    rcases setIfGiven_cases what shown (read d.model) given with
      ⟨old, new, hold, hnew, hne, herror⟩ | ⟨-, hok⟩
    · rw [herror] at hchange
      cases hchange
      refine ⟨shown old, shown new, rfl, ⟨?_, ?_, fun heq => hne (hshown heq)⟩, ?_⟩
      · rw [hread, hold, Option.map_some]
      · rw [hgiven, hnew, Option.map_some]
      · exact ⟨fun _ hnone => absurd hnone List.not_mem_nil, fun _ _ => rfl, rfl, rfl⟩
    · rw [hok] at hchange
      cases hchange

end

theorem setsProperty_pure {decl : ProviderDecl} {what : Scalar} (h : decl.property? what = none) :
    SetsProperty decl what (pure ()) where
  ok d d' hok := by
    cases hok
    refine ⟨?_, givenSet_of_absent h⟩
    rintro old new ⟨-, hgiven, -⟩
    rw [h] at hgiven
    cases hgiven
  error d d' e herror := by cases herror

/-- Sets one property, where it is given. -/
def Build.setProperty (decl : ProviderDecl) : Scalar → Build Unit
  | .providerId => update fun p => do
      return { p with id := ← setIfGiven .providerId .number p.id decl.id }
  | .providerName => update fun p => do
      return { p with name := ← setIfGiven .providerName .text p.name decl.name }
  | .providerSymbol => update fun p => do
      return { p with symbol := ← setIfGiven .providerSymbol .text p.symbol decl.symbol }
  | .providerDescription => update fun p => do
      return { p with
        description := ← setIfGiven .providerDescription .text p.description decl.description }
  | .providerResourceName => update fun p => do
      return { p with
        resourceName :=
          ← setIfGiven .providerResourceName .text p.resourceName decl.resourceName }
  | .channelValue | .taskValue | .opcodeValue | .taskOpcodeValue => pure ()

theorem setsProperty_setProperty (decl : ProviderDecl) (what : Scalar) :
    SetsProperty decl what (Build.setProperty decl what) := by
  have hnumber : Function.Injective ScalarValue.number := fun _ _ h => ScalarValue.number.inj h
  have htext : Function.Injective ScalarValue.text := fun _ _ h => ScalarValue.text.inj h
  cases what with
  | providerId =>
    refine setsProperty_update Provider.id (fun p v => { p with id := v }) hnumber
      (fun _ => rfl) rfl (fun _ _ other => ?_) fun _ _ => rfl
    cases other <;> rfl
  | providerName =>
    refine setsProperty_update Provider.name (fun p v => { p with name := v }) htext
      (fun _ => rfl) rfl (fun _ _ other => ?_) fun _ _ => rfl
    cases other <;> rfl
  | providerSymbol =>
    refine setsProperty_update Provider.symbol (fun p v => { p with symbol := v }) htext
      (fun _ => rfl) rfl (fun _ _ other => ?_) fun _ _ => rfl
    cases other <;> rfl
  | providerDescription =>
    refine setsProperty_update Provider.description (fun p v => { p with description := v }) htext
      (fun _ => rfl) rfl (fun _ _ other => ?_) fun _ _ => rfl
    cases other <;> rfl
  | providerResourceName =>
    refine setsProperty_update Provider.resourceName (fun p v => { p with resourceName := v }) htext
      (fun _ => rfl) rfl (fun _ _ other => ?_) fun _ _ => rfl
    cases other <;> rfl
  | channelValue | taskValue | opcodeValue | taskOpcodeValue =>
    exact setsProperty_pure rfl

/-! ## All properties -/

theorem Build.defineProvider_eq (decl : ProviderDecl) :
    defineProvider decl = providerProperties.forM (setProperty decl) := by
  simp only [providerProperties, List.forM, bind_pure_unit]
  rfl

/-- What contradicts a provider does so before and after other properties are set. -/
theorem contradicts_of_givenSet {decl : ProviderDecl} {whats : List Scalar} {d d' : Draft}
    (h : d.GivenSet decl whats d') {what : Scalar} (hwhat : what ∉ whats) {old new : ScalarValue} :
    decl.Contradicts d'.model what old new ↔ decl.Contradicts d.model what old new := by
  have hsame := h.others what hwhat
  constructor
  · rintro ⟨hcurrent, hgiven, hdiffer⟩
    exact ⟨hsame ▸ hcurrent, hgiven, hdiffer⟩
  · rintro ⟨hcurrent, hgiven, hdiffer⟩
    exact ⟨hsame ▸ hcurrent, hgiven, hdiffer⟩

/-- **Properties that were set one after the other** contradicted nothing, and are as given. -/
theorem givenSet_of_forM {decl : ProviderDecl} {whats : List Scalar} {d d' : Draft}
    (hnodup : whats.Nodup) (h : whats.forM (Build.setProperty decl) d = .ok () d') :
    (∀ what ∈ whats, ∀ old new, ¬ decl.Contradicts d.model what old new) ∧
      d.GivenSet decl whats d' := by
  -- No property is twice in the list, so what is set first leaves the later ones to be checked as
  -- they were.
  induction whats generalizing d with
  | nil =>
    cases h
    exact ⟨nofun, givenSet_nil decl _⟩
  | cons what rest ih =>
    obtain ⟨hnew, hrest⟩ := List.nodup_cons.1 hnodup
    obtain ⟨⟨⟩, e, hwhat, hforM⟩ := bind_eq_ok.1 h
    obtain ⟨hagrees, hset⟩ := (setsProperty_setProperty decl what).ok d e hwhat
    obtain ⟨hothers, hsets⟩ := ih hrest hforM
    constructor
    · intro other hother old new
      rcases List.mem_cons.1 hother with rfl | hother
      · exact hagrees old new
      · have hne : other ∉ [what] := fun heq => hnew (List.mem_singleton.1 heq ▸ hother)
        intro hcontradicts
        exact hothers other hother old new ((contradicts_of_givenSet hset hne).2 hcontradicts)
    · refine hset.append hsets fun other hother => ?_
      rw [List.mem_singleton.1 hother]
      exact hnew

theorem givenSet_of_defineProvider {decl : ProviderDecl} {d d' : Draft}
    (h : Build.defineProvider decl d = .ok () d') : d.GivenSet decl providerProperties d' := by
  rw [Build.defineProvider_eq] at h
  exact (givenSet_of_forM (by decide) h).2

/-- **The properties of a provider are set in their order**, each if it is given, up to the first
that contradicts the one that is there. That one and those after it stay, and so does everything
else. -/
theorem defineProvider_sets_in_order (decl : ProviderDecl) (d : Draft) :
    (∃ d', Build.defineProvider decl d = .ok () d' ∧
        (∀ what ∈ providerProperties, ∀ old new, ¬ decl.Contradicts d.model what old new) ∧
        d.GivenSet decl providerProperties d') ∨
      ∃ before what after old new d', providerProperties = before ++ what :: after ∧
        Build.defineProvider decl d = .error (.redefined what old new) d' ∧
        (∀ earlier ∈ before, ∀ old new, ¬ decl.Contradicts d.model earlier old new) ∧
        decl.Contradicts d.model what old new ∧ d.GivenSet decl before d' := by
  have hnodup : providerProperties.Nodup := by decide
  rw [Build.defineProvider_eq]
  cases h : providerProperties.forM (Build.setProperty decl) d with
  | ok _ d' => exact .inl ⟨d', rfl, givenSet_of_forM hnodup h⟩
  | error e d' =>
    obtain ⟨before, what, after, t, hsplit, hbefore, herror⟩ := forM_eq_error.1 h
    rw [hsplit] at hnodup
    obtain ⟨hbeforeNodup, -, hapart⟩ := List.nodup_append.1 hnodup
    obtain ⟨hagree, hset⟩ := givenSet_of_forM hbeforeNodup hbefore
    obtain ⟨old, new, rfl, hcontradicts, hstays⟩ :=
      (setsProperty_setProperty decl what).error t d' e herror
    have hwhat : what ∉ before := fun hmem => hapart what hmem what List.mem_cons_self rfl
    refine .inr ⟨before, what, after, old, new, d', hsplit, rfl, hagree,
      (contradicts_of_givenSet hset hwhat).1 hcontradicts, ?_⟩
    simpa using hset.append hstays nofun

/-- A provider with a name, and a declaration with another name and an identifier. -/
def namedDraft : Draft := { provider := some { name := some "P" } }

def renamed : ProviderDecl := { id := some 7, name := some "Q", symbol := some "S" }

/-- The identifier stays although the name is refused. -/
theorem id_set_by_refused_defineProvider :
    Build.defineProvider renamed namedDraft =
        .error (.redefined .providerName (.text "P") (.text "Q"))
          { provider := some { id := some 7, name := some "P" } } ∧
      ¬ ∀ (decl : ProviderDecl) (d d' : Draft) (e : Error),
        Build.defineProvider decl d = .error e d' →
          ∀ what ∈ providerProperties, d'.model.property? what = d.model.property? what := by
  have hrun : Build.defineProvider renamed namedDraft =
      .error (.redefined .providerName (.text "P") (.text "Q"))
        { provider := some { id := some 7, name := some "P" } } := rfl
  refine ⟨hrun, fun h => ?_⟩
  have hid := h renamed namedDraft _ _ hrun .providerId List.mem_cons_self
  cases hid

end EventSchema
