import EventSchema.Proofs.Source.Concatenation
import EventSchema.Proofs.Source.LiteralForm

/-!
# How far literals go

A literal that decodes is one literal for the scanner as well: from its opening quote on, the
scanner goes through all of it and stops at the closing quote (`EndsAtQuote`). What the scanner goes
through so can be refused for its escapes and for what they stand for, but never for its quotes
(`decode_extent`). The scanner takes two bytes for an escape and the decoder up to ten. They stay in
step because all that follows the first two are digits, which are plain bytes for the scanner
(`Escape.skippedBody_iff`).

What an escape stands for is no longer than what follows its backslash (`Escape.length_le`). So
each backslash makes a literal longer than its text, and quotes alone are undone by decoding exactly
where there is nothing to escape (`decode_quote_iff`).
-/

namespace EventSchema.Source.Literal

open Text.Utf8

variable {wide : Bool} {b : UInt8} {t u body bytes rest spelling meaning : Bytes}
  {mark w s : String} {fault : Fault}

/-! ## What the scanner goes through -/

/-- The scanner goes through a text from its first byte to its last one, which closes the literal
that the first one opens. -/
def EndsAtQuote (t : Bytes) : Prop := skip? t = some ⟨.literal, t, []⟩ ∧ ¬ Unended t

/-- What goes on behind its end is closed by a quote. -/
theorem skippedBody_of_quoteTail (h : QuoteTail t u) (hu : u ≠ []) :
    ∃ body, t = body ++ [doubleQuote] ∧ SkippedBody body := by
  induction h with
  | closing => exact ⟨[], rfl, .nil⟩
  | escaped b _ ih =>
    obtain ⟨body, rfl, hbody⟩ := ih hu
    exact ⟨backslash :: b :: body, rfl, .escaped b hbody⟩
  | @plain b _ _ hquote hslash _ ih =>
    obtain ⟨body, rfl, hbody⟩ := ih hu
    exact ⟨b :: body, rfl, .plain ⟨hquote, hslash⟩ hbody⟩
  | unclosed => exact absurd rfl hu
  | cut => exact absurd rfl hu

theorem openQuote_backslash_iff : OpenQuote (backslash :: b :: t) ↔ OpenQuote t := by
  refine ⟨fun h => ?_, .escaped b⟩
  cases h with
  | escaped _ h => exact h
  | plain _ hslash => exact absurd rfl hslash

theorem openQuote_plain_iff (hb : Plain b) : OpenQuote (b :: t) ↔ OpenQuote t := by
  refine ⟨fun h => ?_, .plain hb.1 hb.2⟩
  cases h with
  | cut => exact absurd rfl hb.2
  | escaped => exact absurd rfl hb.2
  | plain _ _ h => exact h

theorem SkippedBody.not_openQuote (h : SkippedBody body) : ¬ OpenQuote (body ++ [doubleQuote]) := by
  induction h with
  | nil =>
    intro hopen
    cases hopen with
    | plain hquote => exact hquote rfl
  | escaped b _ ih => exact mt openQuote_backslash_iff.1 ih
  | plain hb _ ih => exact mt (openQuote_plain_iff hb).1 ih

theorem endsAtQuote_iff :
    EndsAtQuote t ↔ ∃ body, t = doubleQuote :: (body ++ [doubleQuote]) ∧ SkippedBody body := by
  constructor
  · rintro ⟨hskip, hended⟩
    cases contextAt_of_skip hskip with
    | literal htail =>
      rcases htail.openQuote_or with hopen | hclosed
      · exact absurd (.literal hopen) hended
      · obtain ⟨body, rfl, hbody⟩ :=
          skippedBody_of_quoteTail (hclosed [space]) (List.cons_ne_nil _ _)
        exact ⟨body, rfl, hbody⟩
  · rintro ⟨body, rfl, hbody⟩
    constructor
    · have hskip := skip?_of_contextAt (.literal (hbody.quoteTail []))
      rwa [List.append_nil] at hskip
    · intro hunended
      cases hunended with
      | literal hopen => exact hbody.not_openQuote hopen

/-! ## Scanning and decoding -/

/-- What the scanner goes through is refused for an escape or not at all. -/
theorem ofEscape_of_skippedBody (hskipped : SkippedBody body)
    (h : decodeBody wide body = .error fault) : fault.OfEscape := by
  induction body using body_induction wide with
  | nil =>
    rw [decodeBody] at h
    cases h
  | plain b t hb ih =>
    rw [decodeBody_cons hb] at h
    exact ih ((skippedBody_plain_iff hb).1 hskipped) (map_eq_error h)
  | escape spelling meaning rest hescape ih =>
    rw [decodeBody_backslash (readEscape_of_escape hescape)] at h
    exact ih (hescape.skippedBody_iff.1 hskipped) (map_eq_error h)
  | quote t =>
    cases hskipped with
    | plain hb => exact absurd rfl hb.1
  | cut =>
    cases hskipped with
    | plain hb => exact absurd rfl hb.2
  | refused b t fault' hrefused hfault =>
    rw [decodeBody_refused hrefused] at h
    cases h
    exact hfault

/-- **What decodes goes up to its closing quote.** -/
theorem endsAtQuote_of_decode (hmark : Mark mark wide) (hw : (encode w).head? = some doubleQuote)
    (h : decode (mark ++ w) = .ok s) : EndsAtQuote (encode w) := by
  rw [decode_eq_ok, decodeBytes, splitWidth_mark hmark hw] at h
  cases hbody : body? (encode w) with
  | none =>
    simp only [hbody] at h
    cases h
  | some body =>
    simp only [hbody] at h
    exact endsAtQuote_iff.2 ⟨body, body?_eq_some.1 hbody,
      skippedBody_of_form (decodeBody_eq_ok_iff.1 h)⟩

/-- **What goes up to its closing quote can only be refused for what its escapes are** and for what
they stand for. -/
theorem decode_refused_of_endsAtQuote (hmark : Mark mark wide) (hw : EndsAtQuote (encode w))
    (h : decode (mark ++ w) = .error fault) : fault = .notUtf8 ∨ fault.OfEscape := by
  obtain ⟨bytes, heq, hskipped⟩ := endsAtQuote_iff.1 hw
  obtain ⟨body, hquote⟩ := eq_encode_quote (wellFormed_encode w) (body?_eq_some.2 heq)
  obtain rfl := encode_injective hquote
  obtain rfl : bytes = encode body := by
    rw [encode_quote, List.cons.injEq, List.append_cancel_right_eq] at heq
    exact heq.2.symm
  rcases decodeBytes_of_refused h with hrefused | hutf8
  · rw [decodeBytes_quote hmark] at hrefused
    exact .inr (ofEscape_of_skippedBody hskipped hrefused)
  · exact .inl hutf8

/-- **The scanner and the decoder agree on what one literal is.** Where a text that starts with a
quote decodes, with a mark or without, the scanner goes through all of it and stops at its closing
quote. Where the scanner does so, no quote of the text is at fault, and no escape is cut off. -/
theorem decode_extent (w : String) (hw : w.toList.head? = some '"') :
    (∀ mark wide s, Mark mark wide → decode (mark ++ w) = .ok s → EndsAtQuote (encode w)) ∧
      (EndsAtQuote (encode w) → ∀ mark wide fault, Mark mark wide →
        decode (mark ++ w) = .error fault →
          fault ≠ .notQuoted ∧ fault ≠ .innerQuote ∧ fault ≠ .unfinishedEscape) := by
  have hhead : (encode w).head? = some doubleQuote := by
    obtain ⟨cs, hcs⟩ := List.head?_eq_some_iff.1 hw
    rw [encode, hcs]
    rfl
  refine ⟨fun mark wide s hmark => endsAtQuote_of_decode hmark hhead, ?_⟩
  intro hends mark wide fault hmark h
  have hrefused := decode_refused_of_endsAtQuote hmark hends h
  refine ⟨?_, ?_, ?_⟩
  all_goals
    rintro rfl
    rcases hrefused with hfault | hfault <;> cases hfault

theorem bodyForm_byte (wide : Bool) :
    BodyForm wide (encode "\\xE9") (numericBytes wide 0xE9 ++ []) := by
  have hspelled : encode "\\xE9" = [0x5C, 0x78, 0x45, 0x39] := by decide
  rw [hspelled]
  exact .escape (@Escape.hex wide [0x45, 0x39] [] 0xE9 ⟨by decide, .inl rfl⟩) .nil

theorem decode_wideByte : decode ("u" ++ quote "\\xE9") = .ok "é" := by
  rw [decode_eq_ok, decodeBytes_quote .unicode, decodeBody_of_form (bodyForm_byte true)]
  decide

/-- One byte that is a character in a wide literal and no text in a narrow one. -/
theorem decode_extent_byte :
    EndsAtQuote (encode (quote "\\xE9")) ∧ decode ("u" ++ quote "\\xE9") = .ok "é" ∧
      decode ("" ++ quote "\\xE9") = .error .notUtf8 ∧ Fault.notUtf8 ≠ .innerQuote := by
  have hnarrow : decode ("" ++ quote "\\xE9") = .error .notUtf8 := by
    rw [decode, decodeBytes_quote .narrow, decodeBody_of_form (bodyForm_byte false)]
    decide +kernel
  have hextent := decode_extent (quote "\\xE9") (by decide)
  have hends := hextent.1 "u" true "é" .unicode decode_wideByte
  exact ⟨hends, decode_wideByte, hnarrow, (hextent.2 hends "" false .notUtf8 .narrow hnarrow).2.1⟩

/-! ## Lengths -/

theorem length_encode (s : String) : (encode s).length = s.utf8ByteSize := by
  rw [← String.size_toByteArray, ← String.ofList_toList (s := s), String.toByteArray_ofList, encode,
    String.toList_ofList]
  exact List.size_toByteArray.symm

theorem length_numericBytes_of_lt (wide : Bool) {n : Nat} (h : n < 0x80) :
    (numericBytes wide n).length = 1 := by
  cases wide with
  | false => rfl
  | true =>
    have hn : (Char.ofNat n).toNat = n := toNat_charOfNat (.inl (Nat.lt_trans h (by decide)))
    rw [numericBytes, if_pos rfl, encodeChar_of_lt (hn.symm ▸ h), List.length_singleton]

/-- The characters below 256 have at most two bytes. -/
theorem length_numericBytes_le (wide : Bool) {n : Nat} (h : n < 256) :
    (numericBytes wide n).length ≤ 2 := by
  cases wide with
  | false => exact Nat.le_succ 1
  | true =>
    have hn : (Char.ofNat n).toNat = n := toNat_charOfNat (.inl (Nat.lt_trans h (by decide)))
    have htwo : n ≤ 0x7FF := Nat.le_trans (Nat.le_of_lt h) (by decide)
    rw [numericBytes, if_pos rfl, encodeChar_of_toNat hn, if_pos htwo]
    split
    · exact Nat.le_succ 1
    · exact le_rfl

/-- **What an escape stands for is no longer than what follows its backslash.** -/
theorem Escape.length_le (h : Escape wide spelling meaning rest) :
    meaning.length ≤ spelling.length := by
  cases h with
  | simple h =>
    obtain ⟨b, x, hb, hx, -⟩ := simpleEscape?_of_mem h
    rw [hb, hx]
    exact le_rfl
  | @hex ds _ n h =>
    have hdigit := List.length_pos_iff.2 (digits_of_number? h.number).1
    have hbytes := length_numericBytes_le wide (byte_of_number? h.number (by decide) h.length_le)
    have hx : String.utf8EncodeChar 'x' = [0x78] := by decide
    rw [hx, List.length_append, List.length_singleton]
    omega
  | @octal _ _ n h =>
    have hdigit := List.length_pos_iff.2 (digits_of_number? h.number).1
    have hsmall : n < 0x80 :=
      calc n < 8 ^ spelling.length := (digits_of_number? h.number).2.2
        _ ≤ 8 ^ 2 := Nat.pow_le_pow_right (by decide) h.length_le
        _ ≤ 0x80 := by decide
    rw [length_numericBytes_of_lt wide hsmall]
    exact hdigit
  | short four =>
    rw [String.length_utf8EncodeChar, List.length_append, four]
    exact Nat.le_trans (Char.utf8Size_le_four _) (Nat.le_add_left 4 _)
  | long eight =>
    rw [String.length_utf8EncodeChar, List.length_append, eight]
    exact Nat.le_trans (Char.utf8Size_le_four _) (Nat.le_trans (by decide) (Nat.le_add_left 8 _))

/-- Each backslash makes a body longer than what it stands for. -/
theorem BodyForm.length_le (h : BodyForm wide body bytes) :
    bytes.length ≤ body.length ∧ (bytes.length = body.length ↔ backslash ∉ body) := by
  induction h with
  | nil => exact ⟨le_rfl, by simp⟩
  | plain hb _ ih =>
    rw [List.length_cons, List.length_cons, Nat.add_left_inj, List.mem_cons, not_or, ih.2]
    exact ⟨Nat.succ_le_succ ih.1, fun h => ⟨Ne.symm hb.2, h⟩, fun h => h.2⟩
  | escape first _ ih =>
    have hescape := first.length_le
    have hrest := ih.1
    rw [List.length_cons, List.length_append, List.length_append]
    refine ⟨by omega, fun heq => ?_, fun h => absurd List.mem_cons_self h⟩
    omega

/-! ## Quotes alone -/

theorem mem_encode_iff {c : Char} (hc : String.utf8EncodeChar c = [b]) (hb : IsAscii b) :
    b ∈ encode s ↔ c ∈ s.toList := by
  rw [encode, List.mem_flatMap]
  constructor
  · rintro ⟨d, hd, hmem⟩
    exact eq_of_ascii_mem_encodeChar hc hb hmem ▸ hd
  · intro h
    exact ⟨c, h, hc ▸ List.mem_singleton_self b⟩

theorem backslash_mem_encode : backslash ∈ encode s ↔ '\\' ∈ s.toList :=
  mem_encode_iff (by decide) (by decide)

theorem doubleQuote_mem_encode : doubleQuote ∈ encode s ↔ '"' ∈ s.toList :=
  mem_encode_iff (by decide) (by decide)

theorem SkippedBody.doubleQuote_not_mem (h : SkippedBody body) (hslash : backslash ∉ body) :
    doubleQuote ∉ body := by
  induction h with
  | nil => exact List.not_mem_nil
  | escaped => exact absurd List.mem_cons_self hslash
  | plain hb _ ih =>
    rw [List.mem_cons, not_or] at hslash ⊢
    exact ⟨Ne.symm hb.1, ih hslash.2⟩

/-- **Quotes alone are undone exactly where there is nothing to escape**, and a literal is never
shorter than its text: between its quotes it has as many bytes as the text where it has no
backslash, and more of them otherwise. -/
theorem decode_quote_iff :
    (∀ s, decode (quote s) = .ok s ↔ '"' ∉ s.toList ∧ '\\' ∉ s.toList) ∧
      ∀ w s, decode w = .ok s → ∃ mark wide body, Mark mark wide ∧ w = mark ++ quote body ∧
        s.utf8ByteSize ≤ body.utf8ByteSize ∧
          (s.utf8ByteSize = body.utf8ByteSize ↔ '\\' ∉ body.toList) := by
  constructor
  · intro s
    rw [← String.empty_append (s := quote s), decode_eq_ok, decodeBytes_quote .narrow,
      decodeBody_eq_ok_iff, ← backslash_mem_encode, ← doubleQuote_mem_encode]
    constructor
    · intro h
      have hslash := h.length_le.2.1 rfl
      exact ⟨(skippedBody_of_form h).doubleQuote_not_mem hslash, hslash⟩
    · rintro ⟨hquote, hslash⟩
      have hplain : ∀ b ∈ encode s, Plain b := fun b hb =>
        ⟨fun heq => hquote (heq ▸ hb), fun heq => hslash (heq ▸ hb)⟩
      simpa using bodyForm_plain_append hplain .nil
  · intro w s h
    rw [decode_eq_ok] at h
    rcases exists_quote w with ⟨mark, wide, body, hmark, rfl⟩ | hunquoted
    · rw [decodeBytes_quote hmark, decodeBody_eq_ok_iff] at h
      refine ⟨mark, wide, body, hmark, rfl, ?_⟩
      rw [← length_encode, ← length_encode, ← backslash_mem_encode]
      exact h.length_le
    · rw [hunquoted] at h
      cases h

/-- A quote that quotes alone do not escape, and a wide literal with four bytes for two. -/
theorem decode_quote_iff_byte :
    decode (quote "\"") ≠ .ok "\"" ∧ decode ("u" ++ quote "\\xE9") = .ok "é" ∧
      ∃ mark wide body, Mark mark wide ∧ "u" ++ quote "\\xE9" = mark ++ quote body ∧
        "é".utf8ByteSize ≤ body.utf8ByteSize ∧
          ("é".utf8ByteSize = body.utf8ByteSize ↔ '\\' ∉ body.toList) := by
  refine ⟨fun h => ?_, decode_wideByte, decode_quote_iff.2 _ _ decode_wideByte⟩
  exact ((decode_quote_iff.1 "\"").1 h).1 (by decide)

end EventSchema.Source.Literal
