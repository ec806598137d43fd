import EventSchema.Proofs.Numbering.Free
import EventSchema.Proofs.Numbering.Outcome
import EventSchema.Proofs.Text.Order

/-!
# Supply and demand of numbers

The members of a table that need a number, sorted by name (`unnumbered`), and the numbers that a
table has (`numbersIn`). Filling a table gives the free numbers to these members one after the other
(`fill_slots_assigned`), as far as there are enough of them (`fill_slots_fault?_eq_none_iff`).
-/

namespace EventSchema.Numbering

open Text.Utf8 (encode)

/-! ## The members without a number -/

theorem vacant_eq (slots : List (String × Option UInt32)) :
    vacant slots = (slots.filter (·.2.isNone)).map (·.1) := by
  fun_induction vacant slots <;> simp_all

section

variable {α : Type} [Numbered α] {t : Table String α}

/-- The names of the members without a number, sorted by their bytes. -/
def unnumbered (t : Table String α) : List String :=
  ((t.entries.filter fun e => (Numbered.value e.2).isNone).map (·.1)).mergeSort
    fun a b => decide (encode a ≤ encode b)

omit [Numbered α] in
/-- The names of a table are in the order of their bytes. -/
theorem entries_pairwise_encode (t : Table String α) :
    t.entries.Pairwise fun a b => encode a.1 < encode b.1 :=
  t.ascending.imp fun h => Text.Utf8.encode_lt_encode (compareOfLessAndEq_eq_lt.1 h)

/-- A table is in order already. -/
theorem unnumbered_eq (t : Table String α) : unnumbered t = vacant (slots t) := by
  rw [unnumbered, List.mergeSort_of_pairwise, vacant_eq, slots, List.filter_map, List.map_map]
  · rfl
  · refine List.pairwise_map.2 (((entries_pairwise_encode t).filter _).imp fun h => ?_)
    exact decide_eq_true (List.le_of_lt h)

theorem mem_unnumbered {name : String} :
    name ∈ unnumbered t ↔ ∃ a, t.find? name = some a ∧ Numbered.value a = none := by
  rw [unnumbered_eq, mem_vacant_slots]

theorem unnumbered_nodup (t : Table String α) : (unnumbered t).Nodup :=
  (List.mergeSort_perm _ _).nodup_iff.2 (t.keys_nodup.sublist (List.filter_sublist.map _))

/-! ## The numbers of a table -/

/-- The numbers that the members of a table have. -/
def numbersIn (t : Table String α) : List Nat :=
  t.values.filterMap fun a => (Numbered.value a).map UInt32.toNat

theorem numbersIn_eq (t : Table String α) : numbersIn t = numbers (pins (slots t)) := by
  rw [numbersIn, Table.values, slots]
  induction t.entries with
  | nil => rfl
  | cons e rest ih =>
    cases he : Numbered.value e.2 with
    | none => simpa [he, pins] using ih
    | some v => simpa [he, pins] using ih

theorem mem_numbersIn {n : Nat} :
    n ∈ numbersIn t ↔ ∃ name v, numberIn t name = some v ∧ v.toNat = n := by
  simp only [numbersIn_eq, mem_numbers, mem_pins_slots]

end

/-- The numbers that the opcodes of the tasks of a provider have. -/
def numbersInTasks (p : Provider) : List Nat := p.tasks.values.flatMap fun t => numbersIn t.opcodes

theorem mem_numbersInTasks {p : Provider} {n : Nat} :
    n ∈ numbersInTasks p ↔ ∃ task name v, taskNumber p task name = some v ∧ v.toNat = n := by
  simp only [numbersInTasks, List.mem_flatMap, Table.mem_values_iff, mem_numbersIn]
  constructor
  · rintro ⟨t, ⟨task, ht⟩, name, v, hv, hn⟩
    exact ⟨task, name, v, Option.bind_eq_some_iff.2 ⟨t, ht, hv⟩, hn⟩
  · rintro ⟨task, name, v, hv, hn⟩
    obtain ⟨t, ht, hv⟩ := Option.bind_eq_some_iff.1 hv
    exact ⟨t, ⟨task, ht⟩, name, v, hv, hn⟩

/-! ## Filling a table -/

section

variable {α : Type} [Numbered α] {t : Table String α} {space : NumberSpace}
  {used excluded : List Nat}

/-- The numbers of a range, without those excluded, for the members that have none. -/
def supplied (lo hi : Nat) (excluded : List Nat) (t : Table String α) : List (String × UInt32) :=
  (unnumbered t).zip ((free lo hi excluded).map UInt32.ofNat)

theorem fill_slots_assigned (asc : used.Pairwise (· < ·)) (h : ∀ n, n ∈ used ↔ n ∈ excluded) :
    (fill space used (slots t)).assigned = supplied space.first space.last excluded t := by
  rw [fill_assigned asc, supplied, unnumbered_eq, free_congr fun n _ => h n]

theorem fill_slots_fault?_eq_none_iff (asc : used.Pairwise (· < ·))
    (h : ∀ n, n ∈ used ↔ n ∈ excluded) :
    (fill space used (slots t)).fault? = none ↔
      (unnumbered t).length ≤ (free space.first space.last excluded).length := by
  rw [fill_fault?_eq_none_iff asc, unnumbered_eq, free_congr fun n _ => h n]

theorem mem_useAll_slots {taken : List Nat} {n : Nat} :
    n ∈ useAll (pins (slots t)) taken ↔ n ∈ numbersIn t ++ taken := by
  rw [mem_useAll, numbersIn_eq, List.mem_append]

theorem mem_useAll_slots_nil {n : Nat} : n ∈ useAll (pins (slots t)) [] ↔ n ∈ numbersIn t := by
  rw [mem_useAll_slots, List.append_nil]

/-- What stands beside a name in a list without repetitions is found under it. -/
theorem lookup_zip {β : Type} {names : List String} {values : List β} (nodup : names.Nodup)
    {k : Nat} {name : String} (hk : names[k]? = some name) : (names.zip values).lookup name = values[k]? := by
  induction names generalizing k values with
  | nil => simp at hk
  | cons first names ih =>
    obtain ⟨hnot, hnodup⟩ := List.nodup_cons.1 nodup
    cases values with
    | nil => simp
    | cons value values =>
      cases k with
      | zero =>
        obtain rfl : first = name := by simpa using hk
        simp
      | succ k =>
        rw [List.getElem?_cons_succ] at hk
        have hne : name ≠ first := fun heq => hnot (heq ▸ List.mem_of_getElem? hk)
        rw [List.zip_cons_cons, List.lookup_cons, beq_false_of_ne hne, List.getElem?_cons_succ]
        exact ih hnodup hk

/-- The number that a member is supplied with is its number from then on. -/
theorem numberIn_supplied [LawfulNumbered α] {lo hi k : Nat} {name : String}
    (hk : (unnumbered t)[k]? = some name) :
    numberIn (withAssigned t (supplied lo hi excluded t)) name =
      ((free lo hi excluded).map UInt32.ofNat)[k]? := by
  obtain ⟨a, ha, hnone⟩ := mem_unnumbered.1 (List.mem_of_getElem? hk)
  rw [numberIn_withAssigned, ha, Option.bind_some, hnone, Option.none_or, supplied,
    lookup_zip (unnumbered_nodup t) hk]

/-- After its members were supplied, a table has the numbers it had and those supplied. -/
theorem mem_numbersIn_supplied [LawfulNumbered α] {lo hi n : Nat} :
    n ∈ numbersIn (withAssigned t (supplied lo hi excluded t)) ↔
      n ∈ numbers (supplied lo hi excluded t) ∨ n ∈ numbersIn t := by
  rw [mem_numbersIn, mem_numbersIn, mem_numbers]
  constructor
  · rintro ⟨name, v, hv, hn⟩
    rcases numberIn_withAssigned_cases hv with hv | ⟨-, hmem⟩
    · exact .inr ⟨name, v, hv, hn⟩
    · exact .inl ⟨name, v, hmem, hn⟩
  · rintro (⟨name, v, hmem, hn⟩ | ⟨name, v, hv, hn⟩)
    · obtain ⟨k, hk⟩ := List.mem_iff_getElem?.1 hmem
      obtain ⟨hname, hvalue⟩ := List.getElem?_zip_eq_some.1 hk
      exact ⟨name, v, (numberIn_supplied hname).trans hvalue, hn⟩
    · refine ⟨name, v, ?_, hn⟩
      obtain ⟨a, ha, hv⟩ := Option.bind_eq_some_iff.1 hv
      rw [numberIn_withAssigned, ha, Option.bind_some, hv, Option.some_or]

end

/-! ## Claims on a table -/

section

variable {α : Type} [Numbered α] {t : Table String α} {allowed : String → UInt32 → Bool}
  {taken : List Nat}

theorem nodup_of_distinct (h : Distinct t) : (numbers (pins (slots t))).Nodup := by
  have hpins : ∀ l : List (String × Option UInt32),
      pins l = l.filterMap fun e => e.2.map (e.1, ·) := fun l => by
    fun_induction pins l <;> simp_all
  have hnames : (pins (slots t)).Pairwise fun a b => a.1 ≠ b.1 := by
    rw [hpins, slots, List.filterMap_map]
    refine (List.pairwise_map.1 t.keys_nodup).filterMap _ fun a b hab x hx y hy => ?_
    obtain ⟨v, -, rfl⟩ := Option.map_eq_some_iff.1 hx
    obtain ⟨w, -, rfl⟩ := Option.map_eq_some_iff.1 hy
    exact hab
  refine List.pairwise_map.2 (hnames.imp_of_mem fun {a b} ha hb hne heq => hne ?_)
  have hvalue : a.2 = b.2 := UInt32.toNat_inj.1 heq
  exact h a.1 b.1 a.2 (mem_pins_slots.1 ha) (mem_pins_slots.1 (hvalue ▸ hb))

/-- The numbers of a table can be claimed when they are allowed, not taken and apart. -/
theorem claimable_iff : Claimable allowed taken (slots t) ↔
    (∀ name v, numberIn t name = some v → allowed name v = true) ∧
      (∀ name v, numberIn t name = some v → v.toNat ∉ taken) ∧ Distinct t := by
  constructor
  · rintro ⟨hallowed, hunused, hnodup⟩
    exact ⟨fun name v hv => hallowed (name, v) (mem_pins_slots.2 hv),
      fun name v hv => hunused _ (mem_numbers_slots.2 ⟨name, hv⟩), distinct_of_nodup hnodup⟩
  · rintro ⟨hallowed, hunused, hdistinct⟩
    refine ⟨fun e he => hallowed e.1 e.2 (mem_pins_slots.1 he), fun n hn => ?_,
      nodup_of_distinct hdistinct⟩
    obtain ⟨name, v, hv, rfl⟩ := mem_numbers.1 hn
    exact hunused name v (mem_pins_slots.1 hv)

end

end EventSchema.Numbering
