import EventSchema.Text.Utf8

/-!
# Cutting UTF-8

Well-formed bytes may be cut before every byte that starts a character and after every ASCII byte;
both parts are well formed again (`wellFormed_of_append`).
-/

namespace EventSchema.Text.Utf8

/-! ## Characters -/

/-- Bytes that only continue a character. -/
def Continues (b : UInt8) : Prop := 0x80 ≤ b.toNat ∧ b.toNat < 0xC0

/-- Bytes that are a character by themselves. -/
def IsAscii (b : UInt8) : Prop := b.toNat < 0x80

instance (b : UInt8) : Decidable (IsAscii b) := inferInstanceAs (Decidable (b.toNat < 0x80))

theorem moreBytes_eq (b : UInt8) : moreBytes b =
    if 0xF0 ≤ b.toNat then 3 else if 0xE0 ≤ b.toNat then 2 else if 0xC0 ≤ b.toNat then 1
    else 0 := by
  simp only [moreBytes, UInt8.le_iff_toNat_le]
  rfl

theorem moreBytes_of_isAscii {b : UInt8} (h : IsAscii b) : moreBytes b = 0 := by
  rw [IsAscii] at h
  rw [moreBytes_eq, if_neg (by omega), if_neg (by omega), if_neg (by omega)]

private theorem byte_toNat {n : Nat} (h : n < 256) : (UInt8.ofNat n).toNat = n := by
  rw [UInt8.toNat_ofNat']
  omega

/-- A character is one ASCII byte, or a longer sequence whose first byte tells its length. -/
theorem encodeChar_cases (c : Char) :
    (∃ b, String.utf8EncodeChar c = [b] ∧ IsAscii b) ∨
      ∃ b tail, String.utf8EncodeChar c = b :: tail ∧ 0xC0 ≤ b.toNat ∧ tail.length = moreBytes b ∧
        ∀ x ∈ tail, Continues x := by
  have hv : c.toNat < 0xD800 ∨ (0xDFFF < c.toNat ∧ c.toNat < 0x110000) := c.valid
  have hn : c.val.toNat = c.toNat := rfl
  have continues (n : Nat) : Continues (UInt8.ofNat (n % 64 + 128)) := by
    rw [Continues, byte_toNat (by omega)]
    omega
  unfold String.utf8EncodeChar
  simp only [hn]
  split
  · refine .inl ⟨_, rfl, ?_⟩
    rw [IsAscii, byte_toNat (by omega)]
    omega
  · split
    · refine .inr ⟨_, _, rfl, ?_, ?_, ?_⟩
      · rw [byte_toNat (by omega)]
        omega
      · rw [moreBytes_eq, byte_toNat (by omega), if_neg (by omega), if_neg (by omega),
          if_pos (by omega)]
        rfl
      · exact List.forall_mem_cons.2 ⟨continues _, List.forall_mem_nil _⟩
    · split
      · refine .inr ⟨_, _, rfl, ?_, ?_, ?_⟩
        · rw [byte_toNat (by omega)]
          omega
        · rw [moreBytes_eq, byte_toNat (by omega), if_neg (by omega), if_pos (by omega)]
          rfl
        · exact List.forall_mem_cons.2 ⟨continues _, List.forall_mem_cons.2
            ⟨continues _, List.forall_mem_nil _⟩⟩
      · refine .inr ⟨_, _, rfl, ?_, ?_, ?_⟩
        · rw [byte_toNat (by omega)]
          omega
        · rw [moreBytes_eq, byte_toNat (by omega), if_pos (by omega)]
          rfl
        · exact List.forall_mem_cons.2 ⟨continues _, List.forall_mem_cons.2
            ⟨continues _, List.forall_mem_cons.2 ⟨continues _, List.forall_mem_nil _⟩⟩⟩

theorem encodeChar_of_lt {c : Char} (h : c.toNat < 0x80) :
    String.utf8EncodeChar c = [UInt8.ofNat c.toNat] := by
  have hn : c.val.toNat = c.toNat := rfl
  unfold String.utf8EncodeChar
  simp only [hn]
  exact if_pos (Nat.le_of_lt_succ h)

/-! ## Well-formed bytes -/

/-- The bytes of some text. -/
def WellFormed (t : Bytes) : Prop := ∃ cs : List Char, cs.flatMap String.utf8EncodeChar = t

theorem wellFormed_encode (s : String) : WellFormed (encode s) := ⟨s.toList, rfl⟩

theorem wellFormed_nil : WellFormed [] := ⟨[], rfl⟩

theorem WellFormed.append {a r : Bytes} (ha : WellFormed a) (hr : WellFormed r) :
    WellFormed (a ++ r) := by
  obtain ⟨cs, rfl⟩ := ha
  obtain ⟨ds, rfl⟩ := hr
  exact ⟨cs ++ ds, List.flatMap_append⟩

/-- Well-formed bytes are the bytes of the text that they are read as. -/
theorem encode_decodeLossy {t : Bytes} (h : WellFormed t) : encode (decodeLossy t) = t := by
  obtain ⟨cs, rfl⟩ := h
  have hs : cs.flatMap String.utf8EncodeChar = encode (String.ofList cs) := by
    rw [encode, String.toList_ofList]
  rw [hs, decodeLossy_encode]

/-- Different texts have different bytes. -/
theorem encode_injective {s t : String} (h : encode s = encode t) : s = t := by
  rw [← decodeLossy_encode s, h, decodeLossy_encode]

/-- Where a text may be cut: before its end or a byte that starts a character, or after an ASCII
byte. -/
def Boundary (a r : Bytes) : Prop :=
  (∀ b, r.head? = some b → ¬ Continues b) ∨ ∃ b, a.getLast? = some b ∧ IsAscii b

theorem boundary_nil (a : Bytes) : Boundary a [] := .inl fun _ h => by cases h

theorem boundary_cons {a r : Bytes} (b : UInt8) (h : Boundary a r) : Boundary (b :: a) r := by
  refine h.imp_right ?_
  rintro ⟨x, hx, hascii⟩
  exact ⟨x, by rw [List.getLast?_cons, hx]; rfl, hascii⟩

theorem boundary_of_head? {a r : Bytes} {b : UInt8} (h : r.head? = some b) (hascii : IsAscii b) :
    Boundary a r := by
  refine .inl fun x hx hcontinues => ?_
  obtain rfl : b = x := Option.some.inj (h.symm.trans hx)
  exact Nat.not_lt.2 hcontinues.1 hascii

/-- **Both parts of a well-formed text that is cut at a boundary are well formed.** -/
theorem wellFormed_of_append {a r : Bytes} (h : WellFormed (a ++ r)) (hb : Boundary a r) :
    WellFormed a ∧ WellFormed r := by
  obtain ⟨cs, hcs⟩ := h
  induction cs generalizing a with
  | nil =>
    obtain ⟨rfl, rfl⟩ := List.append_eq_nil_iff.1 hcs.symm
    exact ⟨wellFormed_nil, wellFormed_nil⟩
  | cons c cs ih =>
    rw [List.flatMap_cons] at hcs
    rcases List.append_eq_append_iff.1 hcs with ⟨a', rfl, htail⟩ | ⟨x, hc, rfl⟩
    · -- the cut is after the first character
      cases a' with
      | nil => exact ⟨⟨[c], by simp⟩, ⟨cs, htail⟩⟩
      | cons b a' =>
        have hb' : Boundary (b :: a') r := by
          refine hb.imp_right ?_
          rintro ⟨y, hy, hascii⟩
          rw [List.getLast?_append, List.getLast?_cons, Option.some_or] at hy
          exact ⟨y, by rw [List.getLast?_cons, hy], hascii⟩
        obtain ⟨⟨ds, hds⟩, hr⟩ := ih hb' htail
        exact ⟨⟨c :: ds, by rw [List.flatMap_cons, hds]⟩, hr⟩
    · cases a with
      | nil =>
        refine ⟨wellFormed_nil, c :: cs, ?_⟩
        rw [List.flatMap_cons, hc, List.nil_append]
      | cons b a =>
        cases x with
        | nil => exact ⟨⟨[c], by simpa using hc⟩, ⟨cs, rfl⟩⟩
        | cons y x =>
          -- inside of a character there is no boundary
          exfalso
          rcases encodeChar_cases c with ⟨b', hb', -⟩ | ⟨b', tail, hb', hlead, -, htail⟩
          · rw [hb'] at hc
            simp at hc
          · rw [hb', List.cons_append, List.cons.injEq] at hc
            obtain ⟨rfl, rfl⟩ := hc
            rcases hb with hhead | ⟨z, hz, hascii⟩
            · exact hhead y rfl (htail y (by simp))
            · have hmem : z ∈ b' :: a := List.mem_of_getLast? hz
              rw [IsAscii] at hascii
              rcases List.mem_cons.1 hmem with rfl | hmem
              · omega
              · have := (htail z (List.mem_append_left _ hmem)).1
                omega

/-- No character starts the bytes of another one. -/
theorem encodeChar_append_inj {c d : Char} {x y : Bytes}
    (h : String.utf8EncodeChar c ++ x = String.utf8EncodeChar d ++ y) : c = d ∧ x = y := by
  have hpoints := congrArg points h
  rw [points_encodeChar_append, points_encodeChar_append, List.cons.injEq, Option.some.injEq]
    at hpoints
  obtain rfl : c = d := Char.toNat_inj.1 hpoints.1
  exact ⟨rfl, List.append_cancel_left h⟩

/-- A byte of a character that is an ASCII byte is the whole character. -/
theorem eq_of_ascii_mem_encodeChar {c d : Char} {b : UInt8} (hd : String.utf8EncodeChar d = [b])
    (hb : IsAscii b) (h : b ∈ String.utf8EncodeChar c) : c = d := by
  rcases encodeChar_cases c with ⟨x, hx, -⟩ | ⟨x, tail, hx, hlead, -, htail⟩
  · rw [hx, List.mem_singleton] at h
    subst h
    exact (encodeChar_append_inj (x := []) (y := []) (by rw [hx, hd])).1
  · rw [IsAscii] at hb
    rw [hx] at h
    rcases List.mem_cons.1 h with rfl | h
    · omega
    · have := (htail b h).1
      omega

/-- What follows a text in a longer one is well formed. -/
theorem wellFormed_of_append_left {a r : Bytes} (ha : WellFormed a) (h : WellFormed (a ++ r)) :
    WellFormed r := by
  obtain ⟨cs, rfl⟩ := ha
  obtain ⟨ds, hds⟩ := h
  induction cs generalizing ds with
  | nil => exact ⟨ds, hds⟩
  | cons c cs ih =>
    rw [List.flatMap_cons, List.append_assoc] at hds
    cases ds with
    | nil => exact absurd (List.append_eq_nil_iff.1 hds.symm).1 String.utf8EncodeChar_ne_nil
    | cons d ds =>
      rw [List.flatMap_cons] at hds
      exact ih ds (encodeChar_append_inj hds).2

/-- A well-formed text starts with an ASCII byte or with a whole longer character. -/
theorem wellFormed_cons {b : UInt8} {rest : Bytes} (h : WellFormed (b :: rest)) :
    IsAscii b ∧ WellFormed rest ∨
      0xC0 ≤ b.toNat ∧ WellFormed (rest.drop (moreBytes b)) ∧
        (rest.take (moreBytes b)).length = moreBytes b ∧
        ∀ x ∈ rest.take (moreBytes b), Continues x := by
  obtain ⟨cs, hcs⟩ := h
  cases cs with
  | nil => cases hcs
  | cons c cs =>
    rw [List.flatMap_cons] at hcs
    rcases encodeChar_cases c with ⟨b', hb', hascii⟩ | ⟨b', tail, hb', hlead, hlength, htail⟩
    · rw [hb', List.singleton_append, List.cons.injEq] at hcs
      obtain ⟨rfl, rfl⟩ := hcs
      exact .inl ⟨hascii, cs, rfl⟩
    · rw [hb', List.cons_append, List.cons.injEq] at hcs
      obtain ⟨rfl, rfl⟩ := hcs
      rw [List.drop_left' hlength, List.take_left' hlength]
      exact .inr ⟨hlead, ⟨cs, rfl⟩, hlength, htail⟩

theorem wellFormed_of_ascii_cons {b : UInt8} {rest : Bytes} (hascii : IsAscii b)
    (h : WellFormed (b :: rest)) : WellFormed rest := by
  rcases wellFormed_cons h with ⟨-, hrest⟩ | ⟨hlead, -⟩
  · exact hrest
  · rw [IsAscii] at hascii
    omega

/-- No text starts with a byte that only continues a character. -/
theorem not_continues_of_wellFormed {b : UInt8} {rest : Bytes} (h : WellFormed (b :: rest)) :
    ¬ Continues b := by
  rintro ⟨hlo, hhi⟩
  rcases wellFormed_cons h with ⟨hascii, -⟩ | ⟨hlead, -⟩
  · rw [IsAscii] at hascii
    omega
  · omega

/-- The first character of a text is well formed, and so is what follows it. -/
theorem wellFormed_take_drop {b : UInt8} {rest : Bytes} (h : WellFormed (b :: rest)) :
    WellFormed (b :: rest.take (moreBytes b)) ∧ WellFormed (rest.drop (moreBytes b)) := by
  have hsplit : b :: rest.take (moreBytes b) ++ rest.drop (moreBytes b) = b :: rest := by
    rw [List.cons_append, List.take_append_drop]
  refine wellFormed_of_append (hsplit ▸ h) ?_
  rcases wellFormed_cons h with ⟨hascii, -⟩ | ⟨-, hdrop, -, -⟩
  · rw [moreBytes_of_isAscii hascii, List.take_zero]
    exact .inr ⟨b, rfl, hascii⟩
  · refine .inl fun x hx => ?_
    obtain ⟨tail, htail⟩ := List.head?_eq_some_iff.1 hx
    exact not_continues_of_wellFormed (htail ▸ hdrop)

end EventSchema.Text.Utf8
