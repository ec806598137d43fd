import EventSchema.Proofs.Draft.Marks
import EventSchema.Proofs.Draft.Parts

/-!
# Definitions that stand

A definition that was accepted once is accepted again, and changes nothing, however the draft has
grown since (`Lasts`). Each of its changes finds the mark that it left, and where that is found
there is nothing to object to (`Accepts`). So a clause that defines something can be repeated at any
later time, as long as its arguments stand for the same (`applyClause_stands`).
-/

namespace EventSchema

/-! ## Changes -/

/-- A change that leaves a mark and is accepted wherever the mark is found. -/
structure Accepts (change : Provider → Except Error Provider) (mark : Provider → Prop) : Prop
    extends Marks change mark where
  accepted : ∀ p, mark p → ∃ q, change p = .ok q

/-- A change that was made is accepted later and changes nothing. -/
theorem Accepts.stands {change : Provider → Except Error Provider} {mark : Provider → Prop}
    (h : Accepts change mark) {p₀ p₁ p : Provider} (first : change p₀ = .ok p₁)
    (grown : p₁.Grown p) : change p = .ok p := by
  have hmark : mark p := h.kept p₁ p grown (h.left p₀ p₁ first)
  obtain ⟨q, hq⟩ := h.accepted p hmark
  rw [hq, h.again p q hmark hq]

namespace Provider

theorem accepts_property {α : Type} [DecidableEq α] {read : Provider → Option α}
    {store : Provider → Option α → Provider} (property : IsProperty read store) (what : Scalar)
    (shown : α → ScalarValue) (given : Option α) :
    Accepts (fun p => do return store p (← setIfGiven what shown (read p) given))
      fun p => ∀ v, given = some v → read p = some v where
  toMarks := marks_property property what shown given
  accepted p mark := by
    have hset : ∃ v, setIfGiven what shown (read p) given = .ok v := by
      cases given with
      | none => exact ⟨read p, rfl⟩
      | some new => exact ⟨some new, by simp [setIfGiven, setOnce, mark new rfl]⟩
    obtain ⟨v, hv⟩ := hset
    exact ⟨store p v, by rw [hv]; rfl⟩

theorem accepts_defineChannel (id name : String) (type : ChannelType) :
    Accepts (·.defineChannel id name type) (·.HasChannel id name type) where
  toMarks := marks_defineChannel id name type
  accepted p := by
    rintro ⟨c, hc, same⟩
    exact ⟨p, by simp only [defineChannel, hc, if_pos same]⟩

theorem accepts_defineTask (name : String) :
    Accepts (fun p => .ok (p.defineTask name)) fun p => p.tasks.contains name = true where
  toMarks := marks_defineTask name
  accepted p _ := ⟨p.defineTask name, rfl⟩

theorem accepts_defineOpcode (name : String) :
    Accepts (fun p => .ok (p.defineOpcode name)) fun p => p.opcodes.contains name = true where
  toMarks := marks_defineOpcode name
  accepted p _ := ⟨p.defineOpcode name, rfl⟩

theorem task_of_defineTaskOpcode {p q : Provider} {task opcode : String}
    (h : p.defineTaskOpcode task opcode = .ok q) : p.tasks.contains task = true := by
  unfold defineTaskOpcode at h
  split at h
  · cases h
  · next t ht => rw [Table.contains, ht, Option.isSome_some]

theorem tasks_of_defineTaskOpcode {p q : Provider} {task opcode : String}
    (h : p.defineTaskOpcode task opcode = .ok q) : q.tasks = p.tasks := by
  rcases defineTaskOpcode_eq_ok h with ⟨-, rfl⟩ | ⟨-, rfl⟩ <;> rfl

/-- The task has to be there still, and the opcode may meanwhile be one of its own as well. -/
theorem accepts_defineTaskOpcode (task opcode : String) :
    Accepts (·.defineTaskOpcode task opcode) fun p => p.tasks.contains task = true ∧
      (p.HasLocalOpcode task opcode ∨ p.opcodes.contains opcode = true) where
  left p q h := by
    refine ⟨?_, (marks_defineTaskOpcode task opcode).left p q h⟩
    rw [tasks_of_defineTaskOpcode h]
    exact task_of_defineTaskOpcode h
  kept p q grown mark :=
    ⟨grown.tasks.contains mark.1, (marks_defineTaskOpcode task opcode).kept p q grown mark.2⟩
  again p q mark := (marks_defineTaskOpcode task opcode).again p q mark.2
  accepted p mark := by
    obtain ⟨t, ht⟩ := Option.isSome_iff_exists.1 mark.1
    exact ⟨_, by simp only [defineTaskOpcode, ht]; rfl⟩

end Provider

/-! ## Steps -/

/-- A step that lasts: it only adds to a draft, and where nothing has been taken back since it
succeeded, it succeeds again and changes nothing. -/
structure Lasts (x : Build Unit) : Prop where
  grows : Leads Draft.Grown x
  again : ∀ d₀ d₁ d : Draft, x d₀ = .ok () d₁ → d₁.Grown d → x d = .ok () d

theorem lasts_update {topic : Topic} {change : Provider → Except Error Provider} {mark : Provider → Prop}
    (definition : Definition topic change) (h : Accepts change mark) :
    Lasts (Build.update change) where
  grows := (MadeOf.update definition rfl : MadeOf (· = topic) _).leads_grown
  again d₀ d₁ d first grown := by
    obtain ⟨p₁, hfirst, rfl⟩ := Build.update_eq_ok.1 first
    obtain ⟨p, hp, hgrown⟩ := grown p₁ rfl
    obtain ⟨provider, queue⟩ := d
    cases hp
    exact Build.update_eq_ok.2 ⟨p, h.stands hfirst hgrown, rfl⟩

theorem lasts_bind {x y : Build Unit} (hx : Lasts x) (hy : Lasts y) :
    Lasts (x >>= fun _ => y) where
  grows := leads_bind hx.grows fun _ => hy.grows
  again d₀ d₁ d first grown := by
    obtain ⟨⟨⟩, m, hfirst, hsecond⟩ := bind_eq_ok.1 first
    have between : m.Grown d₁ := by
      have hgrown := hy.grows m
      rwa [stateAfter_of_ok hsecond] at hgrown
    have hagain := hx.again d₀ m d hfirst (trans_of Draft.Grown between grown)
    exact bind_eq_ok.2 ⟨(), d, hagain, hy.again m d₁ d hsecond grown⟩

theorem lasts_property {α : Type} [DecidableEq α] {read : Provider → Option α}
    {store : Provider → Option α → Provider} (property : IsProperty read store) (what : Scalar)
    (shown : α → ScalarValue) (given : Option α) :
    Lasts (Build.update fun p => do return store p (← setIfGiven what shown (read p) given)) :=
  lasts_update (.property property what shown given)
    (Provider.accepts_property property what shown given)

theorem Build.lasts_defineProvider (decl : ProviderDecl) : Lasts (defineProvider decl) := by
  refine lasts_bind (lasts_property isProperty_id _ _ decl.id) ?_
  refine lasts_bind (lasts_property isProperty_name _ _ decl.name) ?_
  refine lasts_bind (lasts_property isProperty_symbol _ _ decl.symbol) ?_
  refine lasts_bind (lasts_property isProperty_description _ _ decl.description) ?_
  exact lasts_property isProperty_resourceName _ _ decl.resourceName

/-! ## Clauses -/

/-- The methods of clauses that say what there is, with nothing to go wrong when they say so
again. -/
def lastingMethods : List String := ["PROVIDER", "CHANNEL", "TASK", "OPCODE", "TASK_OPCODE"]

theorem Statement.lasts_apply {s : Statement} {method : String} (h : s.HasMethod method)
    (hmethod : method ∈ lastingMethods) : Lasts s.apply := by
  cases s with
  | defineProvider decl => exact Build.lasts_defineProvider decl
  | defineChannel id name type =>
    exact lasts_update (.channel id name type) (Provider.accepts_defineChannel id name type)
  | defineTask name => exact lasts_update (.task name) (Provider.accepts_defineTask name)
  | defineOpcode name => exact lasts_update (.opcode name) (Provider.accepts_defineOpcode name)
  | defineTaskOpcode task opcode =>
    exact lasts_update (.taskOpcode task opcode) (Provider.accepts_defineTaskOpcode task opcode)
  | defineAlias | sourceFile | includedFile =>
    obtain rfl : method = _ := h
    exact absurd hmethod (by decide)
  | guardUnnamed =>
    rcases h.2 with rfl | rfl
    all_goals exact absurd hmethod (by decide)
  | defineEvent =>
    have hnumber : ∀ lasting ∈ lastingMethods, isNumber lasting = false := by decide
    have hevent : isNumber method = true := h
    rw [hnumber method hmethod] at hevent
    cases hevent

/-- **A definition stands.** A clause that has defined something is accepted again and changes
nothing, whatever was done in between, and whether or not it succeeded, if the arguments of the
clause still stand for the same. -/
theorem applyClause_stands {c : Source.Clause} {d₀ d : Draft} (hmethod : c.method ∈ lastingMethods)
    (applied : Build.applyClause c d₀ = .ok () d) (later : List Operation)
    (same : ∀ arg ∈ c.args, (d.after later).aliased arg = d.aliased arg) :
    Build.applyClause c (d.after later) = .ok () (d.after later) := by
  obtain ⟨s, hs, happly⟩ := Build.applyClause_eq_ok.1 applied
  have hlasts : Lasts s.apply := s.lasts_apply (Statement.hasMethod_of_ofArguments hs) hmethod
  -- the clause itself defines no alias, so its arguments are read again as they were the first time
  have kept : d.aliased = d₀.aliased := by
    have hnoAlias : c.method = "ALIAS" → False := fun h => absurd (h ▸ hmethod) (by decide)
    have made : MadeOf (· ≠ .aliases) (Build.applyClause c) := madeOf_applyClause hnoAlias
    have haliased := made.aliased_eq d₀
    rwa [stateAfter_of_ok applied, ← aliased_model] at haliased
  have hargs : c.args.map (d.after later).aliased = c.args.map d₀.aliased :=
    List.map_congr_left fun arg harg => by rw [same arg harg, kept]
  rw [Build.applyClause_of_ok (hargs ▸ hs)]
  exact hlasts.again d₀ d (d.after later) happly (d.grown_after later)

/-- A draft with a task, an alias and a name. -/
def spinDraft : Draft :=
  ({} : Draft).after
    [.apply ⟨"TASK", ["Net"]⟩, .apply ⟨"ALIAS", ["OP", "Spin"]⟩,
      .defineProvider { name := some "P" }]

/-- A clause that adds an opcode to the provider. -/
def spinClause : Source.Clause := ⟨"TASK_OPCODE", ["Net", "OP"]⟩

def spinDefined : Draft := spinDraft.after [.apply spinClause]

/-- The task gets an opcode of the same name, a refused name leaves its identifier behind, and all
numbers are assigned. -/
def spinLater : List Operation :=
  [.defineLocalOpcode "Net" "Spin", .pinTaskOpcode "Net" "Spin" 12,
    .defineProvider { id := some 7, name := some "Q" }, .apply ⟨"ALIAS", ["Spin", "Net"]⟩,
    .assignNumbers]

theorem applyClause_stands_spin :
    Build.applyClause spinClause spinDraft = .ok () spinDefined ∧
      (spinDefined.after spinLater).model.id = some 7 ∧
      (spinDefined.after spinLater).model.opcodes.find? "Spin" = some ⟨"Spin", some 10⟩ ∧
      Build.applyClause spinClause (spinDefined.after spinLater) =
        .ok () (spinDefined.after spinLater) := by
  have applied : Build.applyClause spinClause spinDraft = .ok () spinDefined := rfl
  refine ⟨applied, rfl, by decide +kernel, applyClause_stands (by decide) applied spinLater ?_⟩
  intro arg harg
  rcases List.mem_cons.1 harg with rfl | harg
  · rfl
  · rw [List.mem_singleton.1 harg]
    rfl

end EventSchema
