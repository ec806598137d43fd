import EventSchema.Text.Utf8

/-!
# The order of texts

The bytes of texts are ordered as the texts are: UTF-8 keeps the order of code points
(`encode_lt_encode`). So a list that is in ascending order by name is so by the bytes of the names.
-/

namespace EventSchema.Text.Utf8

/-- A smaller byte decides; equal bytes leave the decision to what follows. -/
private theorem ofNat_cons_lt {n m : Nat} {s t : Bytes} (hm : m < 256)
    (h : n < m ∨ n = m ∧ s < t) : UInt8.ofNat n :: s < UInt8.ofNat m :: t := by
  rw [List.cons_lt_cons_iff]
  refine h.imp (fun hlt => ?_) fun ⟨heq, hst⟩ => ⟨by rw [heq], hst⟩
  rw [UInt8.lt_iff_toNat_lt, UInt8.toNat_ofNat', UInt8.toNat_ofNat']
  omega

/-- What decides between two numbers decides between their parts above six bits, with the lower bits
in front of what follows. -/
private theorem continuation_lt {n m : Nat} {s t : Bytes} (h : n < m ∨ n = m ∧ s < t) :
    n / 64 < m / 64 ∨
      n / 64 = m / 64 ∧ UInt8.ofNat (n % 64 + 128) :: s < UInt8.ofNat (m % 64 + 128) :: t := by
  by_cases hhigh : n / 64 < m / 64
  · exact .inl hhigh
  · refine .inr ⟨by omega, ofNat_cons_lt (by omega) ?_⟩
    exact h.imp (fun hlt => by omega) fun ⟨heq, hst⟩ => ⟨by rw [heq], hst⟩

/-- The bytes of a smaller character come first, whatever follows them. A character of fewer bytes
has a smaller first byte; among those of one length the first byte that differs decides. -/
theorem encodeChar_append_lt {c d : Char} (h : c < d) (x y : Bytes) :
    String.utf8EncodeChar c ++ x < String.utf8EncodeChar d ++ y := by
  have hvalid : d.toNat < 0xD800 ∨ (0xDFFF < d.toNat ∧ d.toNat < 0x110000) := d.valid
  have hlt : c.toNat < d.toNat := h
  have hc : c.val.toNat = c.toNat := rfl
  have hd : d.val.toNat = d.toNat := rfl
  have one := continuation_lt (s := x) (t := y) (.inl hlt)
  have two := continuation_lt one
  have three := continuation_lt two
  simp only [Nat.div_div_eq_div_mul] at two three
  unfold String.utf8EncodeChar
  simp only [hc, hd]
  -- each length of the first character against each of the second one
  split
  · split
    · exact ofNat_cons_lt (by omega) (.inl hlt)
    · split
      · exact ofNat_cons_lt (by omega) (.inl (by omega))
      · split <;> exact ofNat_cons_lt (by omega) (.inl (by omega))
  · split
    · split
      · omega
      · split
        · exact ofNat_cons_lt (by omega) (one.imp (by omega) (.imp (by omega) id))
        · split <;> exact ofNat_cons_lt (by omega) (.inl (by omega))
    · split
      · split
        · omega
        · split
          · omega
          · split
            · exact ofNat_cons_lt (by omega) (two.imp (by omega) (.imp (by omega) id))
            · exact ofNat_cons_lt (by omega) (.inl (by omega))
      · split
        · omega
        · split
          · omega
          · split
            · omega
            · exact ofNat_cons_lt (by omega) (three.imp (by omega) (.imp (by omega) id))

theorem encodeChars_lt {cs ds : List Char} (h : cs < ds) :
    cs.flatMap String.utf8EncodeChar < ds.flatMap String.utf8EncodeChar := by
  induction h with
  | @nil d ds =>
    obtain ⟨b, tail, hd⟩ := List.exists_cons_of_ne_nil (String.utf8EncodeChar_ne_nil (c := d))
    rw [List.flatMap_cons, hd]
    exact List.Lex.nil
  | rel hlt =>
    rw [List.flatMap_cons, List.flatMap_cons]
    exact encodeChar_append_lt hlt _ _
  | cons _ ih =>
    rw [List.flatMap_cons, List.flatMap_cons]
    exact List.append_left_lt ih

/-- **UTF-8 keeps the order of texts.** -/
theorem encode_lt_encode {s t : String} (h : s < t) : encode s < encode t :=
  encodeChars_lt h

end EventSchema.Text.Utf8
