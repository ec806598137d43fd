import EventSchema.Text.Numeral
import Mathlib.Data.List.Induction

/-!
# How numbers are written

The digits of a number in a base may have zeros in front of them, and their letters may have either
case (`IsNumeral`). Reading accepts exactly what is written so (`read?_eq_some_iff`).
-/

namespace EventSchema.Text.Numeral

/-- Characters that are the digits of a number. -/
def IsNumeral (base n : Nat) (cs : List Char) : Prop :=
  ∃ zeros, cs.map Char.toLower = List.replicate zeros '0' ++ Nat.toDigits base n

variable {base n d : Nat} {c : Char} {cs : List Char} {ds : List Nat}

theorem IsNumeral.ne_nil (h : IsNumeral base n cs) : cs ≠ [] := by
  rintro rfl
  obtain ⟨zeros, hcs⟩ := h
  exact absurd hcs.symm (List.append_ne_nil_of_right_ne_nil _ Nat.toDigits_ne_nil)

/-! ## Single digits -/

theorem toNat_toLower (c : Char) :
    c.toLower.toNat = if 0x41 ≤ c.toNat ∧ c.toNat ≤ 0x5A then c.toNat + 0x20 else c.toNat := by
  have hrange : c.val ≥ 'A'.val ∧ c.val ≤ 'Z'.val ↔ 0x41 ≤ c.toNat ∧ c.toNat ≤ 0x5A := by
    rw [ge_iff_le, UInt32.le_iff_toNat_le, UInt32.le_iff_toNat_le]
    rfl
  unfold Char.toLower
  by_cases hupper : c.val ≥ 'A'.val ∧ c.val ≤ 'Z'.val
  · obtain ⟨-, hlast⟩ := hrange.1 hupper
    rw [dif_pos hupper, if_pos (hrange.1 hupper)]
    change (c.val + 0x20).toNat = c.val.toNat + 0x20
    rw [UInt32.toNat_add]
    exact Nat.mod_eq_of_lt (Nat.lt_of_le_of_lt (Nat.add_le_add_right hlast 0x20) (by decide))
  · rw [dif_neg hupper, if_neg (hrange.not.1 hupper)]

/-- Letters count the same in either case. -/
theorem digit?_toLower (base : Nat) (c : Char) :
    digit? base c.toLower.toNat = digit? base c.toNat := by
  rw [digit?, digit?, toNat_toLower]
  refine congrArg (Option.filter _) ?_
  grind

theorem toLower_of_digit? (hbase : base ≤ 16) (h : digit? base c.toNat = some d) :
    c.toLower = Nat.digitChar d := by
  have hchar : ∀ d < 16, (Nat.digitChar d).toNat = if d < 10 then d + 0x30 else d + 0x57 := by
    decide
  have hsmall : d < 16 := Nat.lt_of_lt_of_le (digit?_lt h) hbase
  have hvalue := (Option.filter_eq_some_iff.1 h).1
  apply Char.toNat_inj.1
  rw [hchar d hsmall, toNat_toLower]
  grind

/-! ## Digits in a row -/

theorem mapM_digit?_toLower (base : Nat) (cs : List Char) :
    ((cs.map Char.toLower).map Char.toNat).mapM (digit? base) =
      (cs.map Char.toNat).mapM (digit? base) := by
  induction cs with
  | nil => rfl
  | cons c cs ih =>
    rw [List.map_cons, List.map_cons, List.mapM_cons, digit?_toLower, ih, List.map_cons,
      List.mapM_cons]

/-- One more digit behind a number in front of which there are zeros. -/
theorem exists_zeros_concat (hone : 1 < base) (zeros m : Nat) (hd : d < base) :
    ∃ zeros', List.replicate zeros '0' ++ Nat.toDigits base m ++ [Nat.digitChar d] =
      List.replicate zeros' '0' ++ Nat.toDigits base (m * base + d) := by
  rcases Nat.eq_zero_or_pos m with rfl | hm
  · refine ⟨zeros + 1, ?_⟩
    rw [Nat.toDigits_zero, Nat.zero_mul, Nat.zero_add, Nat.toDigits_of_lt_base hd,
      List.replicate_succ']
  · refine ⟨zeros, ?_⟩
    rw [List.append_assoc, Nat.mul_comm, ← Nat.toDigits_append_toDigits hone hm hd,
      Nat.toDigits_of_lt_base hd]

/-- Characters with values are the digits of their number. -/
theorem isNumeral_of_mapM (hone : 1 < base) (hbase : base ≤ 16)
    (h : (cs.map Char.toNat).mapM (digit? base) = some ds) (hne : cs ≠ []) :
    IsNumeral base (value base ds) cs := by
  induction cs using List.reverseRecOn generalizing ds with
  | nil => exact absurd rfl hne
  | append_singleton cs c ih =>
    rw [List.map_append, List.mapM_append] at h
    obtain ⟨front, hfront, h⟩ := Option.bind_eq_some_iff.1 h
    obtain ⟨last, hlast, h⟩ := Option.bind_eq_some_iff.1 h
    cases h
    rw [List.map_singleton, List.mapM_cons] at hlast
    obtain ⟨d, hd, hlast⟩ := Option.bind_eq_some_iff.1 hlast
    cases hlast
    have hlower : c.toLower = Nat.digitChar d := toLower_of_digit? hbase hd
    change IsNumeral base (value base (front ++ [d])) (cs ++ [c])
    rw [value_append_singleton]
    rcases eq_or_ne cs [] with rfl | hcs
    · cases hfront
      have hvalue : value base [] * base + d = d := by simp [value]
      refine ⟨0, ?_⟩
      rw [List.nil_append, List.map_singleton, hlower, List.replicate_zero, List.nil_append]
      exact (congrArg _ hvalue).trans (Nat.toDigits_of_lt_base (digit?_lt hd)) |>.symm
    · obtain ⟨zeros, hdigits⟩ := ih hfront hcs
      obtain ⟨zeros', hmore⟩ :=
        exists_zeros_concat hone zeros (value base front) (digit?_lt hd)
      exact ⟨zeros', by rw [List.map_append, hdigits, List.map_singleton, hlower, hmore]⟩

/-- **Numbers are read as they are written**, and nothing else is a number. -/
theorem read?_eq_some_iff (hone : 1 < base) (hbase : base ≤ 16) :
    read? base (cs.map Char.toNat) = some n ↔ IsNumeral base n cs := by
  constructor
  · intro h
    rw [read?, Option.ite_none_left_eq_some] at h
    obtain ⟨hne, h⟩ := h
    obtain ⟨ds, hds, rfl⟩ := Option.map_eq_some_iff.1 h
    exact isNumeral_of_mapM hone hbase hds (by simpa using hne)
  · intro h
    have hne : ¬ (cs.map Char.toNat).isEmpty = true := by simpa using h.ne_nil
    obtain ⟨zeros, hcs⟩ := h
    have hread := read?_toDigits hone hbase zeros n
    rw [← hcs, read?, if_neg (by simpa using hne), mapM_digit?_toLower] at hread
    rw [read?, if_neg hne, hread]

/-! ## What numerals are made of -/

theorem exists_digit?_of_mapM {ds : List Nat} (h : (cs.map Char.toNat).mapM (digit? base) = some ds)
    (hc : c ∈ cs) : ∃ d, digit? base c.toNat = some d := by
  induction cs generalizing ds with
  | nil => cases hc
  | cons a cs ih =>
    rw [List.map_cons, List.mapM_cons] at h
    obtain ⟨d, hd, h⟩ := Option.bind_eq_some_iff.1 h
    obtain ⟨rest, hrest, -⟩ := Option.bind_eq_some_iff.1 h
    rcases List.mem_cons.1 hc with rfl | hc
    · exact ⟨d, hd⟩
    · exact ih hrest hc

/-- A numeral is made of digits. -/
theorem IsNumeral.exists_digit? (h : IsNumeral base n cs) (hone : 1 < base) (hbase : base ≤ 16)
    (hc : c ∈ cs) : ∃ d, digit? base c.toNat = some d := by
  have hread := (read?_eq_some_iff hone hbase).2 h
  rw [read?, Option.ite_none_left_eq_some] at hread
  obtain ⟨ds, hds, -⟩ := Option.map_eq_some_iff.1 hread.2
  exact exists_digit?_of_mapM hds hc

theorem IsNumeral.notMem (h : IsNumeral base n cs) (hone : 1 < base) (hbase : base ≤ 16)
    (hc : digit? base c.toNat = none) : c ∉ cs := by
  intro hmem
  obtain ⟨d, hd⟩ := h.exists_digit? hone hbase hmem
  rw [hc] at hd
  cases hd

theorem IsNumeral.isDigit (h : IsNumeral 10 n cs) (hc : c ∈ cs) : c.isDigit = true := by
  obtain ⟨d, hd⟩ := h.exists_digit? (by decide) (by decide) hc
  have hsmall : d < 10 := digit?_lt hd
  have hvalue := (Option.filter_eq_some_iff.1 hd).1
  rw [Char.isDigit, Bool.and_eq_true, decide_eq_true_iff, decide_eq_true_iff]
  change 0x30 ≤ c.toNat ∧ c.toNat ≤ 0x39
  grind

end EventSchema.Text.Numeral
