import EventSchema.Proofs.Numbering.Slots

/-!
# Free numbers

The numbers of a range that are not taken, in ascending order. A filling hands them out in this
order, one to each empty slot (`fill_assigned`), and it has a fault exactly when there are more
empty slots than free numbers (`fill_fault?_eq_none_iff`).
-/

namespace EventSchema.Numbering

/-- The numbers from `lo` to `hi` that are not taken, in ascending order. -/
def free (lo hi : Nat) (taken : List Nat) : List Nat :=
  (List.range' lo (hi + 1 - lo)).filter (· ∉ taken)

section

variable {lo hi n : Nat} {taken : List Nat}

theorem mem_free : n ∈ free lo hi taken ↔ lo ≤ n ∧ n ≤ hi ∧ n ∉ taken := by
  rw [free, List.mem_filter, List.mem_range'_1, decide_eq_true_iff]
  constructor
  · rintro ⟨⟨hlo, hlt⟩, hn⟩
    exact ⟨hlo, by omega, hn⟩
  · rintro ⟨hlo, hhi, hn⟩
    exact ⟨⟨hlo, by omega⟩, hn⟩

/-- Only what is taken of the range matters. -/
theorem free_congr {taken' : List Nat} (h : ∀ n, lo ≤ n → (n ∈ taken ↔ n ∈ taken')) :
    free lo hi taken = free lo hi taken' :=
  List.filter_congr fun n hn => by simp only [h n (List.mem_range'_1.1 hn).1]

theorem free_eq_nil (h : ∀ n, lo ≤ n → n ≤ hi → n ∈ taken) : free lo hi taken = [] := by
  refine List.eq_nil_iff_forall_not_mem.2 fun n hn => ?_
  obtain ⟨hlo, hhi, hfree⟩ := mem_free.1 hn
  exact hfree (h n hlo hhi)

/-- A range may start later where all numbers before are taken. -/
theorem free_of_le (hlo : lo ≤ n) (hhi : n ≤ hi + 1) (h : ∀ m, lo ≤ m → m < n → m ∈ taken) :
    free lo hi taken = free n hi taken := by
  have hsplit : List.range' lo (hi + 1 - lo) =
      List.range' lo (n - lo) ++ List.range' n (hi + 1 - n) := by
    have happend : List.range' lo (n - lo) ++ List.range' (lo + 1 * (n - lo)) (hi + 1 - n) =
        List.range' lo (n - lo + (hi + 1 - n)) := List.range'_append
    rw [show lo + 1 * (n - lo) = n by omega, show n - lo + (hi + 1 - n) = hi + 1 - lo by omega]
      at happend
    exact happend.symm
  have hbelow : (List.range' lo (n - lo)).filter (· ∉ taken) = [] := by
    refine List.filter_eq_nil_iff.2 fun m hm => ?_
    obtain ⟨hm, hlt⟩ := List.mem_range'_1.1 hm
    simpa using h m hm (by omega)
  rw [free, hsplit, List.filter_append, hbelow, List.nil_append, ← free]

theorem free_eq_cons (hhi : lo ≤ hi) (hn : lo ∉ taken) :
    free lo hi taken = lo :: free (lo + 1) hi taken := by
  have hsucc : hi + 1 - lo = (hi + 1 - (lo + 1)) + 1 := by omega
  rw [free, hsucc, List.range'_succ, List.filter_cons_of_pos (by simpa using hn), ← free]

/-- With the numbers that are taken, the free ones make up the range. -/
theorem length_free_add_length (nodup : taken.Nodup) (within : ∀ n ∈ taken, lo ≤ n ∧ n ≤ hi) :
    (free lo hi taken).length + taken.length = hi + 1 - lo := by
  have hperm : ((List.range' lo (hi + 1 - lo)).filter (· ∈ taken)).Perm taken := by
    refine (List.perm_ext_iff_of_nodup ((List.nodup_range' ..).filter _) nodup).2 fun n => ?_
    rw [List.mem_filter, List.mem_range'_1, decide_eq_true_iff]
    refine ⟨fun h => h.2, fun h => ⟨?_, h⟩⟩
    obtain ⟨hlo, hhi⟩ := within n h
    exact ⟨hlo, by omega⟩
  have hparts := List.length_eq_length_filter_add (l := List.range' lo (hi + 1 - lo)) (· ∈ taken)
  rw [List.length_range', hperm.length_eq] at hparts
  simp only [free, decide_not]
  omega

end

/-! ## The first free number -/

section

variable {lo hi : Nat} {used : List Nat}

theorem free_eq_nil_of_lt_firstFree (h : hi < firstFree lo used) : free lo hi used = [] :=
  free_eq_nil fun _ hlo hhi => firstFree_least lo used hlo (by omega)

/-- The first free number is the head of the free ones. Once it is in use the others are left. -/
theorem free_eq_firstFree_cons (asc : used.Pairwise (· < ·)) (h : firstFree lo used ≤ hi) :
    free lo hi used = firstFree lo used :: free lo hi (use (firstFree lo used) used) := by
  have hle := le_firstFree lo used
  have hbelow : ∀ m, lo ≤ m → m < firstFree lo used → m ∈ used :=
    fun m hlo hlt => firstFree_least lo used hlo hlt
  have hrest : free lo hi (use (firstFree lo used) used) =
      free (firstFree lo used + 1) hi used := by
    rw [free_of_le (n := firstFree lo used + 1) (by omega) (by omega) fun m hlo hlt => ?_]
    · exact free_congr fun m hm => by rw [mem_use]; exact or_iff_right (by omega)
    · rw [mem_use]
      exact (Nat.lt_succ_iff_lt_or_eq.1 hlt).symm.imp_right (hbelow m hlo)
  rw [hrest, free_of_le hle (by omega) hbelow, free_eq_cons h (firstFree_not_mem lo asc)]

end

/-! ## Fillings -/

section

variable {space : NumberSpace} {used : List Nat} {slots : List (String × Option UInt32)}

/-- **The free numbers go to the empty slots in order.** -/
theorem fill_assigned (asc : used.Pairwise (· < ·)) :
    (fill space used slots).assigned =
      (vacant slots).zip ((free space.first space.last used).map UInt32.ofNat) := by
  fun_induction fill space used slots with
  | case1 => rfl
  | case2 used owner value rest ih => exact ih asc
  | case3 used owner rest n hn more ih =>
    rw [free_eq_firstFree_cons asc hn, List.map_cons, vacant, List.zip_cons_cons,
      ← ih (use_ascending n asc)]
  | case4 used owner rest n hn =>
    rw [free_eq_nil_of_lt_firstFree (Nat.lt_of_not_le hn), List.map_nil, List.zip_nil_right]

/-- **A filling has no fault exactly when there are enough free numbers.** -/
theorem fill_fault?_eq_none_iff (asc : used.Pairwise (· < ·)) :
    (fill space used slots).fault? = none ↔
      (vacant slots).length ≤ (free space.first space.last used).length := by
  fun_induction fill space used slots with
  | case1 => simp [vacant]
  | case2 used owner value rest ih => exact ih asc
  | case3 used owner rest n hn more ih =>
    rw [free_eq_firstFree_cons asc hn, vacant, List.length_cons, List.length_cons,
      Nat.add_le_add_iff_right]
    exact ih (use_ascending n asc)
  | case4 used owner rest n hn =>
    rw [free_eq_nil_of_lt_firstFree (Nat.lt_of_not_le hn)]
    simp [vacant]

end

end EventSchema.Numbering
