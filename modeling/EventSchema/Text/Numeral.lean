/-!
Positional numerals. `read?` takes the value of a run of digits in a base up to sixteen, and
`decimal`, `hex` and `paddedHex` write numbers.

Main statements: another digit adds one place (`value_append_singleton`), a number is below the
power of the base that has as many places (`value_lt`), and a number is read from its digits
(`read?_toDigits`), be they decimal (`read?_decimal`) or hexadecimal (`read?_paddedHex`).
-/

namespace EventSchema.Text.Numeral

/-! ## Reading -/

/-- The value of a digit, given by its character code; letters count from ten in either case. -/
def digit? (base code : Nat) : Option Nat :=
  let value :=
    if 0x30 ≤ code ∧ code ≤ 0x39 then some (code - 0x30)
    else if 0x41 ≤ code ∧ code ≤ 0x46 then some (code - 0x41 + 10)
    else if 0x61 ≤ code ∧ code ≤ 0x66 then some (code - 0x61 + 10)
    else none
  value.filter (· < base)

/-- The value of a list of digits, most significant first. -/
def value (base : Nat) (digits : List Nat) : Nat := digits.foldl (fun n d => n * base + d) 0

/-- The number that a non-empty run of digits stands for. -/
def read? (base : Nat) (codes : List Nat) : Option Nat :=
  if codes.isEmpty then none else (codes.mapM (digit? base)).map (value base)

theorem digit?_lt {base code d : Nat} (h : digit? base code = some d) : d < base := by
  simpa using (Option.filter_eq_some_iff.1 h).2

theorem code_of_digit? {base code d : Nat} (h : digit? base code = some d) :
    0x30 ≤ code ∧ code ≤ 0x39 ∨ 0x41 ≤ code ∧ code ≤ 0x46 ∨ 0x61 ≤ code ∧ code ≤ 0x66 := by
  have hvalue := (Option.filter_eq_some_iff.1 h).1
  split at hvalue
  · next hd => exact .inl hd
  · split at hvalue
    · next hd => exact .inr (.inl hd)
    · split at hvalue
      · next hd => exact .inr (.inr hd)
      · cases hvalue

/-- A digit is one in every larger base. -/
theorem digit?_of_le {base base' code d : Nat} (hle : base ≤ base') (h : digit? base code = some d) :
    digit? base' code = some d := by
  have hlt : d < base' := Nat.lt_of_lt_of_le (digit?_lt h) hle
  exact Option.filter_eq_some_iff.2 ⟨(Option.filter_eq_some_iff.1 h).1, decide_eq_true hlt⟩

theorem value_append_singleton (base : Nat) (digits : List Nat) (d : Nat) :
    value base (digits ++ [d]) = value base digits * base + d := by
  simp [value]

/-- Digits below the base stand for a number with as many places. -/
theorem value_lt (base : Nat) (digits : List Nat) (h : ∀ d ∈ digits, d < base) :
    value base digits < Nat.pow base digits.length := by
  suffices ∀ n, (digits.foldl (fun n d => n * base + d) n) < (n + 1) * base ^ digits.length by
    simpa [value] using this 0
  induction digits with
  | nil => intro n; simp
  | cons d ds ih =>
    intro n
    have hd : d + 1 ≤ base := h d (by simp)
    refine Nat.lt_of_lt_of_le (ih (fun e he => h e (by simp [he])) (n * base + d)) ?_
    rw [List.length_cons, Nat.pow_succ', ← Nat.mul_assoc]
    refine Nat.mul_le_mul_right _ ?_
    rw [Nat.add_mul]
    omega

/-! ## Writing -/

/-- Decimal digits without leading zeros. -/
def decimal (n : Nat) : String := String.ofList (Nat.toDigits 10 n)

theorem isDigit_of_mem_decimal {n : Nat} {c : Char} (h : c ∈ (decimal n).toList) :
    c.isDigit = true := by
  rw [decimal, String.toList_ofList] at h
  exact Nat.isDigit_of_mem_toDigits (by decide) (by decide) h

/-- Lower-case hexadecimal digits without leading zeros. -/
def hex (n : Nat) : String := String.ofList (Nat.toDigits 16 n)

/-- Hexadecimal digits with zeros in front up to `width` of them. -/
def paddedHex (width n : Nat) : String :=
  let digits := Nat.toDigits 16 n
  String.ofList (List.replicate (width - digits.length) '0' ++ digits)

/-! ### Digits that were written -/

section

variable {base : Nat}

theorem digit?_digitChar {d : Nat} (hbase : base ≤ 16) (h : d < base) :
    digit? base (Nat.digitChar d).toNat = some d := by
  have hall : ∀ d < 16, ∀ base ≤ 16, d < base →
      digit? base (Nat.digitChar d).toNat = some d := by decide
  exact hall d (by omega) base hbase h

theorem mapM_digit?_toDigits (hone : 1 < base) (hbase : base ≤ 16) (n : Nat) :
    ∃ ds, ((Nat.toDigits base n).map Char.toNat).mapM (digit? base) = some ds ∧
      value base ds = n := by
  induction n using Nat.strongRecOn with
  | ind n ih =>
    rw [Nat.toDigits_eq_if hone]
    split
    · next hsmall =>
      refine ⟨[n], ?_, by simp [value]⟩
      simp [digit?_digitChar hbase hsmall]
    · obtain ⟨ds, hds, hvalue⟩ := ih (n / base) (Nat.div_lt_self (by omega) hone)
      refine ⟨ds ++ [n % base], ?_, ?_⟩
      · simp [hds, digit?_digitChar hbase (Nat.mod_lt n (by omega))]
      · rw [value_append_singleton, hvalue, Nat.mul_comm]
        exact Nat.div_add_mod n base

/-- Zeros in front do not matter. -/
theorem value_replicate_zero (base k : Nat) (digits : List Nat) :
    value base (List.replicate k 0 ++ digits) = value base digits := by
  induction k with
  | zero => rfl
  | succ k ih => simpa [value, List.replicate_succ] using ih

theorem mapM_digit?_replicate (hone : 1 < base) (hbase : base ≤ 16) (k : Nat) :
    ((List.replicate k '0').map Char.toNat).mapM (digit? base) = some (List.replicate k 0) := by
  induction k with
  | zero => rfl
  | succ k ih =>
    have hzero : digit? base '0'.toNat = some 0 :=
      digit?_digitChar (d := 0) hbase (Nat.lt_trans Nat.zero_lt_one hone)
    rw [List.replicate_succ, List.map_cons, List.mapM_cons, hzero, ih]
    rfl

/-- A number is read from its digits, with zeros in front or without. -/
theorem read?_toDigits (hone : 1 < base) (hbase : base ≤ 16) (zeros n : Nat) :
    read? base ((List.replicate zeros '0' ++ Nat.toDigits base n).map Char.toNat) = some n := by
  obtain ⟨ds, hds, hvalue⟩ := mapM_digit?_toDigits hone hbase n
  have hne : ¬ ((List.replicate zeros '0' ++ Nat.toDigits base n).map Char.toNat).isEmpty := by
    simp
  rw [read?, if_neg hne, List.map_append, List.mapM_append, mapM_digit?_replicate hone hbase, hds]
  simp [value_replicate_zero, hvalue]

end

/-- A number is read from its decimal digits. -/
theorem read?_decimal (n : Nat) : read? 10 ((decimal n).toList.map Char.toNat) = some n := by
  rw [decimal, String.toList_ofList]
  exact read?_toDigits (by decide) (by decide) 0 n

/-- A number is read from its hexadecimal digits, with zeros in front or without. -/
theorem read?_paddedHex (width n : Nat) :
    read? 16 ((paddedHex width n).toList.map Char.toNat) = some n := by
  rw [paddedHex, String.toList_ofList]
  exact read?_toDigits (by decide) (by decide) _ n

theorem length_paddedHex {width n : Nat} (h : (Nat.toDigits 16 n).length ≤ width) :
    (paddedHex width n).toList.length = width := by
  rw [paddedHex, String.toList_ofList, List.length_append, List.length_replicate]
  omega

end EventSchema.Text.Numeral
