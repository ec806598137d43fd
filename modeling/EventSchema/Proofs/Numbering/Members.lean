import EventSchema.Proofs.Numbering.Slots
import EventSchema.Proofs.Table

/-!
# Members and their numbers

The numbers in a table, and what happens to them when the missing ones are filled in:

* pinned members stay as they are and only missing numbers are set (`related_withAssigned`);
* after a filling without a fault no number is missing (`complete_withAssigned`);
* no two members have the same number, if no two pinned ones had and the filling knew the pinned
  ones (`distinct_withAssigned`).
-/

namespace EventSchema

/-- A number that was set is the one that is there, and setting it again changes nothing. -/
class LawfulNumbered (α : Type) [Numbered α] : Prop where
  value_withValue (a : α) (v : UInt32) : Numbered.value (Numbered.withValue a v) = some v
  withValue_self (a : α) (v : UInt32) (h : Numbered.value a = some v) : Numbered.withValue a v = a

instance : LawfulNumbered Channel :=
  ⟨fun _ _ => rfl, fun c _ h => by cases c; cases h; rfl⟩

instance : LawfulNumbered Task :=
  ⟨fun _ _ => rfl, fun t _ h => by cases t; cases h; rfl⟩

instance : LawfulNumbered Opcode :=
  ⟨fun _ _ => rfl, fun o _ h => by cases o; cases h; rfl⟩

instance : LawfulNumbered Event :=
  ⟨fun _ _ => rfl, fun e _ h => by cases e; cases h; rfl⟩

namespace Numbering

variable {α : Type} [Numbered α]

/-- The number of the member under a name. -/
def numberIn (t : Table String α) (name : String) : Option UInt32 :=
  (t.find? name).bind Numbered.value

/-- No two members of a table have the same number. -/
def Distinct (t : Table String α) : Prop :=
  ∀ a b v, numberIn t a = some v → numberIn t b = some v → a = b

/-- Every member of a table has a number. -/
def Complete (t : Table String α) : Prop := ∀ name ∈ t.keys, ∃ v, numberIn t name = some v

/-- What a member may become: itself or, if it had no number, itself with one. -/
def Filled (a b : α) : Prop :=
  b = a ∨ Numbered.value a = none ∧ ∃ v, b = Numbered.withValue a v

instance : Std.Refl (Filled : α → α → Prop) := ⟨fun _ => .inl rfl⟩

instance [LawfulNumbered α] : IsTrans α Filled where
  trans a b c hab hbc := by
    rcases hab with rfl | ⟨ha, v, rfl⟩
    · exact hbc
    · rcases hbc with rfl | ⟨hb, -⟩
      · exact .inr ⟨ha, v, rfl⟩
      · rw [LawfulNumbered.value_withValue] at hb
        cases hb

/-! ## Slots and tables -/

theorem mem_pins_slots {t : Table String α} {name : String} {v : UInt32} :
    (name, v) ∈ pins (slots t) ↔ numberIn t name = some v := by
  rw [mem_pins, slots, List.mem_map, numberIn, Option.bind_eq_some_iff]
  constructor
  · rintro ⟨⟨k, a⟩, hmem, he⟩
    obtain ⟨rfl, hv⟩ := Prod.mk.inj he
    exact ⟨a, (t.mem_entries_iff k a).1 hmem, hv⟩
  · rintro ⟨a, ha, hv⟩
    exact ⟨(name, a), (t.mem_entries_iff name a).2 ha, by rw [hv]⟩

theorem mem_vacant_slots {t : Table String α} {name : String} :
    name ∈ vacant (slots t) ↔ ∃ a, t.find? name = some a ∧ Numbered.value a = none := by
  rw [mem_vacant, slots, List.mem_map]
  constructor
  · rintro ⟨⟨k, a⟩, hmem, he⟩
    obtain ⟨rfl, hv⟩ := Prod.mk.inj he
    exact ⟨a, (t.mem_entries_iff k a).1 hmem, hv⟩
  · rintro ⟨a, ha, hv⟩
    exact ⟨(name, a), (t.mem_entries_iff name a).2 ha, by rw [hv]⟩

theorem mem_numbers_slots {t : Table String α} {v : UInt32} :
    v.toNat ∈ numbers (pins (slots t)) ↔ ∃ name, numberIn t name = some v := by
  rw [mem_numbers]
  constructor
  · rintro ⟨name, w, hmem, hw⟩
    obtain rfl := UInt32.toNat_inj.1 hw
    exact ⟨name, mem_pins_slots.1 hmem⟩
  · rintro ⟨name, hname⟩
    exact ⟨name, v, mem_pins_slots.2 hname, rfl⟩

/-- No number is pinned twice exactly when the pinned members are apart. -/
theorem distinct_of_nodup {t : Table String α} (h : (numbers (pins (slots t))).Nodup) :
    Distinct t :=
  fun _ _ _ ha hb => owner_unique h (mem_pins_slots.2 ha) (mem_pins_slots.2 hb)

/-! ## Filling in -/

section

variable {t : Table String α} {assigned : List (String × UInt32)} {name : String}

theorem mem_of_lookup_eq_some {v : UInt32} (h : assigned.lookup name = some v) :
    (name, v) ∈ assigned := by
  obtain ⟨l₁, l₂, rfl, -⟩ := List.lookup_eq_some_iff.1 h
  simp

/-- A member's number is its own or else the one that was found for it. -/
theorem numberIn_withAssigned [LawfulNumbered α] :
    numberIn (withAssigned t assigned) name =
      (t.find? name).bind fun a => (Numbered.value a).or (assigned.lookup name) := by
  rw [numberIn, withAssigned, Table.find?_mapKeyed]
  cases t.find? name with
  | none => rfl
  | some a =>
    simp only [Option.map_some, Option.bind_some]
    cases ha : Numbered.value a with
    | some v => simpa using ha
    | none =>
      cases assigned.lookup name with
      | none => simpa using ha
      | some w => simpa using LawfulNumbered.value_withValue a w

/-- Only missing numbers are set. -/
theorem related_withAssigned : Table.Related Filled t (withAssigned t assigned) := by
  refine Table.related_mapKeyed fun k a _ => ?_
  cases ha : Numbered.value a with
  | some v => exact .inl rfl
  | none =>
    cases assigned.lookup k with
    | none => exact .inl rfl
    | some w => exact .inr ⟨ha, w, rfl⟩

/-- Where a number comes from. -/
theorem numberIn_withAssigned_cases [LawfulNumbered α] {v : UInt32}
    (h : numberIn (withAssigned t assigned) name = some v) :
    numberIn t name = some v ∨ numberIn t name = none ∧ (name, v) ∈ assigned := by
  rw [numberIn_withAssigned] at h
  obtain ⟨a, ha, hv⟩ := Option.bind_eq_some_iff.1 h
  rw [numberIn, ha, Option.bind_some]
  rcases Option.or_eq_some_iff.1 hv with hv | ⟨hnone, hlookup⟩
  · exact .inl hv
  · exact .inr ⟨hnone, mem_of_lookup_eq_some hlookup⟩

/-- A filling without a fault leaves no number missing. -/
theorem complete_withAssigned [LawfulNumbered α] {space : NumberSpace} {used : List Nat}
    (h : (fill space used (slots t)).fault? = none) :
    Complete (withAssigned t (fill space used (slots t)).assigned) := by
  intro name hname
  rw [related_withAssigned.keys_eq] at hname
  obtain ⟨a, ha⟩ := Table.mem_keys_iff.1 hname
  rw [numberIn_withAssigned, ha]
  cases hv : Numbered.value a with
  | some v => exact ⟨v, by simp [hv]⟩
  | none =>
    have hvacant : name ∈ vacant (slots t) := mem_vacant_slots.2 ⟨a, ha, hv⟩
    rw [← fill_names h] at hvacant
    have hsome : ((fill space used (slots t)).assigned.lookup name).isSome := by
      obtain ⟨⟨k, v⟩, hmem, rfl⟩ := List.mem_map.1 hvacant
      exact List.lookup_isSome_iff.2 ⟨(k, v), hmem, by simp⟩
    obtain ⟨v, hv'⟩ := Option.isSome_iff_exists.1 hsome
    exact ⟨v, by simp [hv, hv']⟩

variable {space : NumberSpace} {used : List Nat}

/-- A number that was found is in the range of its space and was not in use. -/
theorem fresh_of_mem_assigned (asc : used.Pairwise (· < ·)) {v : UInt32}
    (h : (name, v) ∈ (fill space used (slots t)).assigned) :
    space.first ≤ v.toNat ∧ v.toNat ≤ space.last ∧ v.toNat ∉ used :=
  fill_fresh asc (mem_numbers.2 ⟨name, v, h, rfl⟩)

/-- **Apart after filling in.** A number that was found differs from the pinned ones, which were in
use, and from the others that were found. -/
theorem distinct_withAssigned [LawfulNumbered α] (pinned : Distinct t)
    (asc : used.Pairwise (· < ·)) (known : ∀ name v, numberIn t name = some v → v.toNat ∈ used) :
    Distinct (withAssigned t (fill space used (slots t)).assigned) := by
  intro a b v ha hb
  rcases numberIn_withAssigned_cases ha with ha | ⟨-, ha⟩
  · rcases numberIn_withAssigned_cases hb with hb | ⟨-, hb⟩
    · exact pinned a b v ha hb
    · exact absurd (known a v ha) (fresh_of_mem_assigned asc hb).2.2
  · rcases numberIn_withAssigned_cases hb with hb | ⟨-, hb⟩
    · exact absurd (known b v hb) (fresh_of_mem_assigned asc ha).2.2
    · exact owner_unique (fill_nodup asc) ha hb

end

end Numbering

end EventSchema
