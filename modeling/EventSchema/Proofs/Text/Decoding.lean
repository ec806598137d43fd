import EventSchema.Proofs.Text.Boundary

/-!
# Reading UTF-8

Bytes are read as a text exactly where they are the bytes of that text (`decode?_eq_some_iff`): what
reads as a character is the one way to write it. Bytes that are ASCII throughout are a text with
their own numbers as code points (`decode?_of_ascii`).
-/

namespace EventSchema.Text.Utf8

/-! ## Sequences -/

theorem continuation_eq_some {k point low high n : Nat} {t rest : Bytes}
    (h : continuation (k + 1) point low high t = (some n, rest)) :
    ∃ b t', t = b :: t' ∧ low ≤ b.toNat ∧ b.toNat ≤ high ∧
      continuation k (point * 64 + b.toNat % 64) 0x80 0xBF t' = (some n, rest) := by
  cases t with
  | nil => cases h
  | cons b t' =>
    rw [continuation] at h
    split at h
    · next hb => exact ⟨b, t', rfl, hb.1, hb.2, h⟩
    · cases h

theorem toNat_charOfNat {n : Nat} (h : n.isValidChar) : (Char.ofNat n).toNat = n := by
  rw [Char.ofNat, dif_pos h]
  rfl

/-- The bytes of a character with a given code point. -/
theorem encodeChar_of_toNat {c : Char} {n : Nat} (h : c.toNat = n) : String.utf8EncodeChar c =
    if n ≤ 0x7F then [UInt8.ofNat n]
    else if n ≤ 0x7FF then [UInt8.ofNat (n / 64 % 32 + 192), UInt8.ofNat (n % 64 + 128)]
    else if n ≤ 0xFFFF then
      [UInt8.ofNat (n / 4096 % 16 + 224), UInt8.ofNat (n / 64 % 64 + 128),
        UInt8.ofNat (n % 64 + 128)]
    else
      [UInt8.ofNat (n / 262144 % 8 + 240), UInt8.ofNat (n / 4096 % 64 + 128),
        UInt8.ofNat (n / 64 % 64 + 128), UInt8.ofNat (n % 64 + 128)] := by
  subst h
  rfl

private theorem eq_byte {b : UInt8} {n : Nat} (h : n = b.toNat) : UInt8.ofNat n = b := by
  rw [h, UInt8.ofNat_toNat]

/-- The second byte of a sequence is held to narrower bounds after one first byte and another. -/
theorem second_byte_bounds {b x first last low high : Nat}
    (hlow : (if b = first then low else 0x80) ≤ x) (hhigh : x ≤ if b = last then high else 0xBF)
    (h : 0x80 ≤ low ∧ high ≤ 0xBF) :
    0x80 ≤ x ∧ x ≤ 0xBF ∧ (b = first → low ≤ x) ∧ (b = last → x ≤ high) := by
  split at hlow <;> split at hhigh <;> omega

/-- **A sequence that is read is the bytes of the character that it is read as.** -/
theorem sequence_eq_some {b : UInt8} {n : Nat} {t rest : Bytes}
    (h : sequence b t = (some n, rest)) :
    String.utf8EncodeChar (Char.ofNat n) ++ rest = b :: t := by
  have hb := b.toNat_lt
  have hencode (hn : n < 0xD800 ∨ 0xDFFF < n ∧ n < 0x110000) :=
    encodeChar_of_toNat (toNat_charOfNat hn)
  simp only [sequence] at h
  -- one case for each length of a sequence, between the bytes that start none
  split at h
  · cases h
    rw [hencode (by omega), if_pos (by omega), UInt8.ofNat_toNat]
    rfl
  split at h
  · cases h
  split at h
  · obtain ⟨x, t, rfl, hlow, hhigh, h⟩ := continuation_eq_some h
    cases h
    rw [hencode (by omega), if_neg (by omega), if_pos (by omega), eq_byte (b := b) (by omega),
      eq_byte (b := x) (by omega)]
    rfl
  split at h
  · obtain ⟨x, t, rfl, hlow, hhigh, h⟩ := continuation_eq_some h
    obtain ⟨y, t, rfl, hlow', hhigh', h⟩ := continuation_eq_some h
    cases h
    obtain ⟨hx, hx', hfirst, hlast⟩ := second_byte_bounds hlow hhigh (by decide)
    clear hlow hhigh
    rw [hencode (by omega), if_neg (by omega), if_neg (by omega), if_pos (by omega),
      eq_byte (b := b) (by omega), eq_byte (b := x) (by omega), eq_byte (b := y) (by omega)]
    rfl
  split at h
  · obtain ⟨x, t, rfl, hlow, hhigh, h⟩ := continuation_eq_some h
    obtain ⟨y, t, rfl, hlow', hhigh', h⟩ := continuation_eq_some h
    obtain ⟨z, t, rfl, hlow'', hhigh'', h⟩ := continuation_eq_some h
    cases h
    obtain ⟨hx, hx', hfirst, hlast⟩ := second_byte_bounds hlow hhigh (by decide)
    clear hlow hhigh
    rw [hencode (by omega), if_neg (by omega), if_neg (by omega), if_neg (by omega),
      eq_byte (b := b) (by omega), eq_byte (b := x) (by omega), eq_byte (b := y) (by omega),
      eq_byte (b := z) (by omega)]
    rfl
  · cases h

/-! ## Texts -/

theorem encodeChars_of_points {t : Bytes} {cs : List Char}
    (h : ((points t).mapM fun p : Option Nat => p.map Char.ofNat) = some cs) :
    cs.flatMap String.utf8EncodeChar = t := by
  fun_induction points t generalizing cs with
  | case1 =>
    cases h
    rfl
  | case2 b rest ih =>
    cases hseq : sequence b rest with
    | mk p rest' =>
      rw [hseq] at h ih
      cases p with
      | none => simp at h
      | some n =>
        simp only [List.mapM_cons, Option.map_some, Option.bind_eq_bind, Option.bind_some,
          Option.bind_eq_some_iff, Option.pure_def, Option.some.injEq] at h
        obtain ⟨ds, hds, rfl⟩ := h
        rw [List.flatMap_cons, ih hds, sequence_eq_some hseq]

/-- **Bytes are read as a text exactly where they are its bytes.** -/
theorem decode?_eq_some_iff {t : Bytes} {s : String} : decode? t = some s ↔ encode s = t := by
  constructor
  · intro h
    obtain ⟨cs, hcs, rfl⟩ := Option.map_eq_some_iff.1 h
    rw [encode, String.toList_ofList, encodeChars_of_points hcs]
  · rintro rfl
    exact decode?_encode s

theorem toNat_charOfNat_byte (b : UInt8) : (Char.ofNat b.toNat).toNat = b.toNat :=
  toNat_charOfNat (.inl (Nat.lt_trans b.toNat_lt (by decide)))

/-- ASCII bytes are a text with their own numbers as code points. -/
theorem decode?_of_ascii {t : Bytes} (h : ∀ b ∈ t, IsAscii b) :
    decode? t = some (String.ofList (t.map fun b => Char.ofNat b.toNat)) := by
  rw [decode?_eq_some_iff, encode, String.toList_ofList]
  induction t with
  | nil => rfl
  | cons b t ih =>
    obtain ⟨hb, ht⟩ := List.forall_mem_cons.1 h
    have hlt : (Char.ofNat b.toNat).toNat < 0x80 := by
      rw [toNat_charOfNat_byte]
      exact hb
    rw [List.map_cons, List.flatMap_cons, encodeChar_of_lt hlt, ih ht, toNat_charOfNat_byte,
      UInt8.ofNat_toNat]
    rfl

end EventSchema.Text.Utf8
