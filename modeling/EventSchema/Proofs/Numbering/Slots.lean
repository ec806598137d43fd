import EventSchema.Numbering.Assign
import Mathlib.Data.List.Nodup

/-!
# Claiming and filling

What a claim of pinned numbers and a filling of missing ones do to a list of slots:

* a claim succeeds exactly when every pinned number is allowed, not in use and pinned once, and then
  it adds these numbers to those in use (`claim_eq_ok_iff`);
* every number that a filling finds is in the range of its space and was not in use
  (`fill_fresh`), and no two of them are equal (`fill_nodup`);
* a filling without a fault finds a number for every empty slot (`fill_names`).
-/

namespace EventSchema.Numbering

/-! ## Pinned and empty slots -/

/-- The pinned numbers of some slots, with their owners. -/
def pins : List (String × Option UInt32) → List (String × UInt32)
  | [] => []
  | (_, none) :: rest => pins rest
  | (owner, some value) :: rest => (owner, value) :: pins rest

/-- The owners of the empty slots. -/
def vacant : List (String × Option UInt32) → List String
  | [] => []
  | (owner, none) :: rest => owner :: vacant rest
  | (_, some _) :: rest => vacant rest

theorem mem_pins {slots : List (String × Option UInt32)} {owner : String} {value : UInt32} :
    (owner, value) ∈ pins slots ↔ (owner, some value) ∈ slots := by
  fun_induction pins slots <;> simp_all

theorem mem_vacant {slots : List (String × Option UInt32)} {owner : String} :
    owner ∈ vacant slots ↔ (owner, none) ∈ slots := by
  fun_induction vacant slots <;> simp_all

/-- The numbers of some members. -/
def numbers (members : List (String × UInt32)) : List Nat := members.map (·.2.toNat)

@[simp] theorem numbers_nil : numbers [] = [] := rfl

@[simp] theorem numbers_cons (e : String × UInt32) (members : List (String × UInt32)) :
    numbers (e :: members) = e.2.toNat :: numbers members := rfl

theorem mem_numbers {members : List (String × UInt32)} {n : Nat} :
    n ∈ numbers members ↔ ∃ owner value, (owner, value) ∈ members ∧ value.toNat = n := by
  simp [numbers]

/-- Two members with one number, where no number occurs twice, are the same. -/
theorem owner_unique {members : List (String × UInt32)} (h : (numbers members).Nodup)
    {a b : String} {value : UInt32} (ha : (a, value) ∈ members) (hb : (b, value) ∈ members) :
    a = b :=
  congrArg Prod.fst (List.inj_on_of_nodup_map h ha hb rfl)

/-! ## Numbers in use -/

/-- Adds several numbers to those in use. -/
def useAll (members : List (String × UInt32)) (used : List Nat) : List Nat :=
  members.foldl (fun used e => use e.2.toNat used) used

theorem mem_useAll {members : List (String × UInt32)} {used : List Nat} {n : Nat} :
    n ∈ useAll members used ↔ n ∈ numbers members ∨ n ∈ used := by
  induction members generalizing used with
  | nil => simp [useAll]
  | cons e rest ih =>
    rw [useAll, List.foldl_cons, ← useAll, ih, mem_use, numbers_cons, List.mem_cons]
    constructor
    · rintro (h | rfl | h)
      · exact .inl (.inr h)
      · exact .inl (.inl rfl)
      · exact .inr h
    · rintro ((rfl | h) | h)
      · exact .inr (.inl rfl)
      · exact .inl h
      · exact .inr (.inr h)

theorem useAll_ascending (members : List (String × UInt32)) {used : List Nat}
    (h : used.Pairwise (· < ·)) : (useAll members used).Pairwise (· < ·) := by
  induction members generalizing used with
  | nil => exact h
  | cons e rest ih => exact ih (use_ascending _ h)

theorem mem_foldr_use {new used : List Nat} {n : Nat} :
    n ∈ new.foldr use used ↔ n ∈ new ∨ n ∈ used := by
  induction new with
  | nil => simp
  | cons m rest ih => rw [List.foldr_cons, mem_use, ih, List.mem_cons, or_assoc]

theorem foldr_use_ascending (new : List Nat) {used : List Nat} (h : used.Pairwise (· < ·)) :
    (new.foldr use used).Pairwise (· < ·) := by
  induction new with
  | nil => exact h
  | cons m rest ih => exact use_ascending m ih

/-! ## Claims -/

/-- Every pinned number is allowed and not in use, and no number is pinned twice. -/
structure Claimable (allowed : String → UInt32 → Bool) (used : List Nat)
    (slots : List (String × Option UInt32)) : Prop where
  allowed : ∀ e ∈ pins slots, allowed e.1 e.2 = true
  unused : ∀ n ∈ numbers (pins slots), n ∉ used
  nodup : (numbers (pins slots)).Nodup

theorem claimable_nil (allowed : String → UInt32 → Bool) (used : List Nat) :
    Claimable allowed used [] :=
  ⟨by simp [pins], by simp [pins], by simp [pins]⟩

theorem claimable_cons {allowed : String → UInt32 → Bool} {used : List Nat} {owner : String}
    {value : UInt32} {rest : List (String × Option UInt32)} :
    Claimable allowed used ((owner, some value) :: rest) ↔
      allowed owner value = true ∧ value.toNat ∉ used ∧
        Claimable allowed (use value.toNat used) rest := by
  constructor
  · rintro ⟨hallowed, hunused, hnodup⟩
    simp only [pins, numbers_cons, List.forall_mem_cons, List.nodup_cons] at hallowed hunused hnodup
    refine ⟨hallowed.1, hunused.1, hallowed.2, fun n hn => ?_, hnodup.2⟩
    rw [mem_use, not_or]
    refine ⟨?_, hunused.2 n hn⟩
    rintro rfl
    exact hnodup.1 hn
  · rintro ⟨hvalue, hfree, hallowed, hunused, hnodup⟩
    have apart : ∀ n ∈ numbers (pins rest), n ≠ value.toNat ∧ n ∉ used := by
      intro n hn
      have := hunused n hn
      rwa [mem_use, not_or] at this
    refine ⟨?_, ?_, ?_⟩
    · simpa [pins] using ⟨hvalue, by simpa using hallowed⟩
    · simpa only [pins, numbers_cons, List.forall_mem_cons] using
        ⟨hfree, fun n hn => (apart n hn).2⟩
    · simp only [pins, numbers_cons, List.nodup_cons]
      exact ⟨fun hmem => (apart _ hmem).1 rfl, hnodup⟩

/-- **When a claim succeeds.** It then adds the pinned numbers to those in use. -/
theorem claim_eq_ok_iff {space : NumberSpace} {allowed : String → UInt32 → Bool}
    {used used' : List Nat} {slots : List (String × Option UInt32)} :
    claim space allowed used slots = .ok used' ↔
      Claimable allowed used slots ∧ used' = useAll (pins slots) used := by
  induction slots generalizing used with
  | nil =>
    have := claimable_nil allowed used
    simp [claim, this, pins, useAll, eq_comm]
  | cons slot rest ih =>
    obtain ⟨owner, value⟩ := slot
    cases value with
    | none =>
      rw [claim, ih]
      exact and_congr_left' ⟨fun ⟨a, u, n⟩ => ⟨a, u, n⟩, fun ⟨a, u, n⟩ => ⟨a, u, n⟩⟩
    | some value =>
      rw [claim, claimable_cons]
      cases hallowed : allowed owner value with
      | false => simp
      | true =>
        by_cases hmem : value.toNat ∈ used
        · simp [hmem]
        · simp [hmem, ih, pins, useAll]

/-! ## Fillings -/

theorem last_lt_size (space : NumberSpace) : space.last < UInt32.size := by
  cases space <;> simp [NumberSpace.last, NumberSpace.last?, UInt32.size]

/-- The number that a filling takes for an empty slot is its first free one, also as 32 bits. -/
theorem toNat_firstFree {space : NumberSpace} {used : List Nat}
    (h : firstFree space.first used ≤ space.last) :
    (UInt32.ofNat (firstFree space.first used)).toNat = firstFree space.first used := by
  have := last_lt_size space
  exact UInt32.toNat_ofNat_of_lt' (by omega)

section

variable {space : NumberSpace} {used : List Nat} {slots : List (String × Option UInt32)}

/-- A filling without a fault finds a number for every empty slot, in order. -/
theorem fill_names (h : (fill space used slots).fault? = none) :
    (fill space used slots).assigned.map (·.1) = vacant slots := by
  fun_induction fill space used slots with
  | case1 => rfl
  | case2 used owner value rest ih => simpa [vacant] using ih h
  | case3 used owner rest n hn more ih => simpa [vacant] using ih h
  | case4 => simp at h

/-- What is in use after a filling is what was in use before and what was found. -/
theorem mem_fill_used {n : Nat} :
    n ∈ (fill space used slots).used ↔
      n ∈ numbers (fill space used slots).assigned ∨ n ∈ used := by
  fun_induction fill space used slots with
  | case1 => simp
  | case2 used owner value rest ih => exact ih
  | case3 used owner rest m hm more ih =>
    have hm' : (UInt32.ofNat m).toNat = m := toNat_firstFree hm
    simp only [numbers_cons, hm', List.mem_cons]
    rw [ih, mem_use]
    tauto
  | case4 => simp

theorem fill_used_ascending (asc : used.Pairwise (· < ·)) :
    (fill space used slots).used.Pairwise (· < ·) := by
  fun_induction fill space used slots with
  | case1 => exact asc
  | case2 used owner value rest ih => exact ih asc
  | case3 used owner rest n hn more ih => exact ih (use_ascending n asc)
  | case4 => exact asc

/-- Every number that a filling finds is in the range of its space and was not in use. -/
theorem fill_fresh (asc : used.Pairwise (· < ·)) {n : Nat}
    (h : n ∈ numbers (fill space used slots).assigned) :
    space.first ≤ n ∧ n ≤ space.last ∧ n ∉ used := by
  fun_induction fill space used slots with
  | case1 => simp at h
  | case2 used owner value rest ih => exact ih asc h
  | case3 used owner rest m hm more ih =>
    have hm' : (UInt32.ofNat m).toNat = m := toNat_firstFree hm
    simp only [numbers_cons, hm', List.mem_cons] at h
    rcases h with rfl | h
    · exact ⟨le_firstFree _ _, hm, firstFree_not_mem _ asc⟩
    · obtain ⟨lo, hi, hfree⟩ := ih (use_ascending m asc) h
      rw [mem_use, not_or] at hfree
      exact ⟨lo, hi, hfree.2⟩
  | case4 => simp at h

/-- No number is found twice: it is in use for the slots that follow. -/
theorem fill_nodup (asc : used.Pairwise (· < ·)) :
    (numbers (fill space used slots).assigned).Nodup := by
  fun_induction fill space used slots with
  | case1 => exact .nil
  | case2 used owner value rest ih => exact ih asc
  | case3 used owner rest m hm more ih =>
    have hm' : (UInt32.ofNat m).toNat = m := toNat_firstFree hm
    simp only [numbers_cons, hm', List.nodup_cons]
    refine ⟨fun hmem => ?_, ih (use_ascending m asc)⟩
    exact (fill_fresh (use_ascending m asc) hmem).2.2 ((mem_use m m used).2 (.inl rfl))
  | case4 => exact .nil

end

end EventSchema.Numbering
