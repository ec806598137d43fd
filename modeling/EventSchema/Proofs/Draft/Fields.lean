import EventSchema.Draft.Define
import Mathlib.Data.List.Forall2

/-!
# The fields of an event

A parameter is resolved to a field by the typedefs of the provider, and by the vocabulary where there
is no typedef of its type name (`Provider.FieldOf`). The fields of an event are its parameters, one
for one and in order, and there are none if one of them has no type
(`Provider.eventFields_eq_ok`).
-/

namespace EventSchema

/-! ## Lists of results -/

section

variable {ε α β : Type} {f : α → Except ε β} {R : α → β → Prop} {l : List α} {l' : List β}

/-- The results for the elements of a list are all there or none is. -/
theorem mapM_eq_ok : l.mapM f = .ok l' ↔ List.Forall₂ (fun a b => f a = .ok b) l l' := by
  induction l generalizing l' with
  | nil =>
    rw [List.forall₂_nil_left_iff, eq_comm]
    exact ⟨fun h => Except.ok.inj h, congrArg _⟩
  | cons a l ih =>
    rw [List.mapM_cons, List.forall₂_cons_left_iff]
    simp only [← ih]
    cases f a with
    | error e => simp [bind, Except.bind]
    | ok b => cases l.mapM f <;> simp [bind, Except.bind, pure, Except.pure, eq_comm]

theorem exists_forall₂ : (∃ l', List.Forall₂ R l l') ↔ ∀ a ∈ l, ∃ b, R a b := by
  induction l with
  | nil => exact ⟨fun _ => List.forall_mem_nil _, fun _ => ⟨[], .nil⟩⟩
  | cons a l ih =>
    rw [List.forall_mem_cons, ← ih]
    simp only [List.forall₂_cons_left_iff]
    constructor
    · rintro ⟨_, b, l', hb, hl, rfl⟩
      exact ⟨⟨b, hb⟩, l', hl⟩
    · rintro ⟨⟨b, hb⟩, l', hl⟩
      exact ⟨b :: l', b, l', hb, hl, rfl⟩

end

namespace Provider

variable {p q : Provider} {param : String × String} {params : List (String × String)}
  {field : Field} {fields other : List Field}

/-! ## Types of parameters -/

/-- The field that a parameter is resolved to: its type is that of a typedef of its name, or else
the word of the vocabulary. -/
structure FieldOf (p : Provider) (param : String × String) (field : Field) : Prop where
  type : p.typedefs.find? param.1 = some field.type ∨
    p.typedefs.find? param.1 = none ∧ Vocabulary.parse FieldType param.1 = .ok field.type
  name : field.name = param.2

/-- A type name is that of a typedef or a word of the vocabulary. -/
def KnowsType (p : Provider) (name : String) : Prop :=
  p.typedefs.contains name = true ∨ ∃ type, Vocabulary.parse FieldType name = .ok type

theorem fieldType_eq_ok {name : String} {type : FieldType} : p.fieldType name = .ok type ↔
    p.typedefs.find? name = some type ∨
      p.typedefs.find? name = none ∧ Vocabulary.parse FieldType name = .ok type := by
  rw [fieldType]
  cases p.typedefs.find? name <;> simp

theorem fieldOf_iff : p.FieldOf param field ↔
    p.fieldType param.1 = .ok field.type ∧ field.name = param.2 :=
  ⟨fun h => ⟨fieldType_eq_ok.2 h.type, h.name⟩, fun h => ⟨fieldType_eq_ok.1 h.1, h.2⟩⟩

instance : Decidable (p.FieldOf param field) :=
  decidable_of_iff ((p.fieldType param.1).toOption = some field.type ∧ field.name = param.2) <| by
    rw [fieldOf_iff]
    cases p.fieldType param.1 <;> simp [Except.toOption]

theorem exists_fieldOf : (∃ field, p.FieldOf param field) ↔ p.KnowsType param.1 := by
  have htype : (∃ field, p.FieldOf param field) ↔ ∃ type, p.fieldType param.1 = .ok type := by
    constructor
    · rintro ⟨field, hfield⟩
      exact ⟨field.type, (fieldOf_iff.1 hfield).1⟩
    · rintro ⟨type, htype⟩
      exact ⟨⟨type, param.2⟩, fieldOf_iff.2 ⟨htype, rfl⟩⟩
  rw [htype, KnowsType, fieldType, Table.contains]
  cases p.typedefs.find? param.1 <;> simp

theorem fieldOf_of_typedefs (h : q.typedefs = p.typedefs) : q.FieldOf = p.FieldOf := by
  funext param field
  rw [eq_iff_iff, fieldOf_iff, fieldOf_iff, fieldType, fieldType, h]

/-! ## Fields of events -/

/-- **The fields of an event are its parameters**, one for one and in order. -/
theorem eventFields_eq_ok :
    p.eventFields params = .ok fields ↔ List.Forall₂ p.FieldOf params fields := by
  have hmap : p.eventFields params = params.mapM fun param =>
      ((p.fieldType param.1).map fun type => Field.mk type param.2).mapError .unknownWord := by
    rw [eventFields]
    congr
    funext param
    cases p.fieldType param.1 <;> rfl
  have hfield (param : String × String) (field : Field) :
      ((p.fieldType param.1).map fun type => Field.mk type param.2).mapError Error.unknownWord =
        .ok field ↔ p.FieldOf param field := by
    constructor
    · intro h
      cases htype : p.fieldType param.1 with
      | error word => simp [htype, Except.map, Except.mapError] at h
      | ok type =>
        rw [htype] at h
        cases h
        exact fieldOf_iff.2 ⟨htype, rfl⟩
    · intro h
      rw [(fieldOf_iff.1 h).1, Except.map, Except.mapError, ← h.name]
  rw [hmap, mapM_eq_ok]
  simp only [hfield]

/-- Parameters are resolved in one way at most. -/
theorem fields_unique (h : List.Forall₂ p.FieldOf params fields)
    (h' : List.Forall₂ p.FieldOf params other) : fields = other :=
  Except.ok.inj ((eventFields_eq_ok.2 h).symm.trans (eventFields_eq_ok.2 h'))

end Provider

end EventSchema
