import EventSchema.Error
import EventSchema.Proofs.Source.ContextForm
import EventSchema.Proofs.Source.Escape

/-!
# How literals are written

A literal is an optional mark, and a body between double quotes. A body is a row of plain bytes and
escapes, and it stands for what these stand for, one after the other (`BodyForm`). A text decodes to
a string exactly where it is a literal that stands for the bytes of the string, and all else is
refused as invalid content (`decode_eq_ok_iff_form`). Whether the bytes are a text is asked only of
all of them: what one escape stands for may be part of a character.

Both the decoder and the scanner go through a body plain byte by plain byte and escape by escape
(`body_induction`, `Escape.skippedBody_iff`). So a literal is skipped up to its closing quote
(`skip?_of_form`).
-/

namespace EventSchema.Source.Literal

open Text.Utf8

variable {wide : Bool} {b : UInt8} {t u ds rest body bytes spelling meaning : Bytes}
  {mark w s : String} {fault : Fault}

/-! ## Forms -/

/-- What stands between the quotes of a literal, and the bytes that it stands for. -/
inductive BodyForm (wide : Bool) : Bytes → Bytes → Prop
  | nil : BodyForm wide [] []
  | plain {b : UInt8} {body bytes : Bytes} (h : Plain b) (rest : BodyForm wide body bytes) :
      BodyForm wide (b :: body) (b :: bytes)
  | escape {spelling meaning body bytes : Bytes} (first : Escape wide spelling meaning body)
      (rest : BodyForm wide body bytes) :
      BodyForm wide (backslash :: (spelling ++ body)) (meaning ++ bytes)

/-- The marks that a literal may start with, and whether it is a wide one then. -/
inductive Mark : String → Bool → Prop
  | narrow : Mark "" false
  | long : Mark "L" true
  | unicode : Mark "u" true

/-- Whether a text is a literal for a string. -/
def LiteralForm (w s : String) : Prop :=
  ∃ mark wide body, Mark mark wide ∧ w = mark ++ quote body ∧ BodyForm wide (encode body) (encode s)

/-! ## Bodies -/

theorem bodyForm_plain_append (h : ∀ d ∈ ds, Plain d) (rest : BodyForm wide body bytes) :
    BodyForm wide (ds ++ body) (ds ++ bytes) := by
  induction ds with
  | nil => exact rest
  | cons d ds ih =>
    obtain ⟨hd, hds⟩ := List.forall_mem_cons.1 h
    exact .plain hd (ih hds)

theorem decodeBody_cons {b : UInt8} (h : Plain b) (t : Bytes) :
    decodeBody wide (b :: t) = (decodeBody wide t).map (b :: ·) := by
  rw [decodeBody, if_neg h.1, if_neg h.2]

theorem decodeBody_doubleQuote (wide : Bool) (t : Bytes) :
    decodeBody wide (doubleQuote :: t) = .error .innerQuote := by
  rw [decodeBody, if_pos rfl]

theorem decodeBody_backslash (h : readEscape wide t = .ok (meaning, rest)) :
    decodeBody wide (backslash :: t) = (decodeBody wide rest).map (meaning ++ ·) := by
  rw [decodeBody, if_neg (by decide), if_pos rfl]
  split
  · next hfault =>
    rw [h] at hfault
    cases hfault
  · next hok =>
    rw [h] at hok
    cases hok
    rfl

theorem decodeBody_refused (h : readEscape wide t = .error fault) :
    decodeBody wide (backslash :: t) = .error fault := by
  rw [decodeBody, if_neg (by decide), if_pos rfl]
  split
  · next hfault =>
    rw [h] at hfault
    cases hfault
    rfl
  · next hok =>
    rw [h] at hok
    cases hok

/-- A body is read as what it stands for. -/
theorem decodeBody_of_form (h : BodyForm wide body bytes) : decodeBody wide body = .ok bytes := by
  induction h with
  | nil => rw [decodeBody]
  | plain h _ ih => rw [decodeBody_cons h, ih]; rfl
  | escape first _ ih => rw [decodeBody_backslash (readEscape_of_escape first), ih]; rfl

/-- What a body can be refused for. -/
def Fault.OfBody (fault : Fault) : Prop :=
  fault = .innerQuote ∨ fault = .unfinishedEscape ∨ fault.OfEscape

/-- Bodies by what they start with: nothing, a plain byte or an escape, before a shorter body, or
else what they are refused for. -/
theorem body_induction (wide : Bool) {motive : Bytes → Prop} (nil : motive [])
    (plain : ∀ b t, Plain b → motive t → motive (b :: t))
    (escape : ∀ spelling meaning rest, Escape wide spelling meaning rest → motive rest →
      motive (backslash :: (spelling ++ rest)))
    (quote : ∀ t, motive (doubleQuote :: t)) (cut : motive [backslash])
    (refused : ∀ b t fault, readEscape wide (b :: t) = .error fault → fault.OfEscape →
      motive (backslash :: b :: t)) (body : Bytes) : motive body := by
  induction hlength : body.length using Nat.strongRecOn generalizing body with
  | ind k ih =>
    cases body with
    | nil => exact nil
    | cons b body =>
      by_cases hquote : b = doubleQuote
      · exact hquote ▸ quote body
      by_cases hslash : b = backslash
      · subst hslash
        cases body with
        | nil => exact cut
        | cons c body =>
          rcases escape_or_refused wide c body with
            ⟨spelling, meaning, rest, heq, hescape⟩ | ⟨fault, hrefused, hfault⟩
          · rw [heq] at hlength ⊢
            refine escape spelling meaning rest hescape (ih rest.length ?_ rest rfl)
            rw [← hlength, List.length_cons, List.length_append]
            omega
          · exact refused c body fault hrefused hfault
      · exact plain b body ⟨hquote, hslash⟩ (ih _ (hlength ▸ body.length.lt_succ_self) body rfl)

theorem form_or_refused (wide : Bool) (body : Bytes) :
    (∃ bytes, BodyForm wide body bytes) ∨
      ∃ fault, decodeBody wide body = .error fault ∧ fault.OfBody := by
  induction body using body_induction wide with
  | nil => exact .inl ⟨[], .nil⟩
  | plain b t hb ih =>
    rcases ih with ⟨bytes, hrest⟩ | ⟨fault, hrest, hfault⟩
    · exact .inl ⟨_, .plain hb hrest⟩
    · exact .inr ⟨fault, by rw [decodeBody_cons hb, hrest]; rfl, hfault⟩
  | escape spelling meaning rest hescape ih =>
    rcases ih with ⟨bytes, hrest⟩ | ⟨fault, hrest, hfault⟩
    · exact .inl ⟨_, .escape hescape hrest⟩
    · refine .inr ⟨fault, ?_, hfault⟩
      rw [decodeBody_backslash (readEscape_of_escape hescape), hrest]
      rfl
  | quote t => exact .inr ⟨.innerQuote, decodeBody_doubleQuote wide t, .inl rfl⟩
  | cut => exact .inr ⟨.unfinishedEscape, decodeBody_refused rfl, .inr (.inl rfl)⟩
  | refused b t fault hrefused hfault =>
    exact .inr ⟨fault, decodeBody_refused hrefused, .inr (.inr hfault)⟩

/-- **A body is read exactly as it is written.** -/
theorem decodeBody_eq_ok_iff : decodeBody wide body = .ok bytes ↔ BodyForm wide body bytes := by
  refine ⟨fun h => ?_, decodeBody_of_form⟩
  rcases form_or_refused wide body with ⟨bytes', hform⟩ | ⟨fault, hrefused, -⟩
  · have heq := (decodeBody_of_form hform).symm.trans h
    cases heq
    exact hform
  · rw [h] at hrefused
    cases hrefused

theorem decodeBody_eq_error (h : decodeBody wide body = .error fault) : fault.OfBody := by
  rcases form_or_refused wide body with ⟨bytes, hform⟩ | ⟨fault', hrefused, hfault⟩
  · rw [decodeBody_of_form hform] at h
    cases h
  · rw [h] at hrefused
    cases hrefused
    exact hfault

/-! ## What the scanner goes through -/

/-- Between the quotes of a literal, a backslash takes the next byte along, and no other byte is a
quote. -/
inductive SkippedBody : Bytes → Prop
  | nil : SkippedBody []
  | escaped (b : UInt8) {body : Bytes} (h : SkippedBody body) : SkippedBody (backslash :: b :: body)
  | plain {b : UInt8} {body : Bytes} (hb : Plain b) (h : SkippedBody body) : SkippedBody (b :: body)

theorem SkippedBody.quoteTail (h : SkippedBody body) (u : Bytes) :
    QuoteTail (body ++ [doubleQuote]) u := by
  induction h with
  | nil => exact .closing u
  | escaped b _ ih => exact .escaped b ih
  | plain hb _ ih => exact .plain hb.1 hb.2 ih

theorem skippedBody_backslash_iff : SkippedBody (backslash :: b :: body) ↔ SkippedBody body := by
  refine ⟨fun h => ?_, .escaped b⟩
  cases h with
  | escaped _ h => exact h
  | plain hb => exact absurd rfl hb.2

theorem skippedBody_plain_iff (hb : Plain b) : SkippedBody (b :: body) ↔ SkippedBody body := by
  refine ⟨fun h => ?_, .plain hb⟩
  cases h with
  | escaped => exact absurd rfl hb.2
  | plain _ h => exact h

theorem skippedBody_append (h : ∀ d ∈ ds, Plain d) :
    SkippedBody (ds ++ rest) ↔ SkippedBody rest := by
  induction ds with
  | nil => exact Iff.rfl
  | cons d ds ih =>
    obtain ⟨hd, hds⟩ := List.forall_mem_cons.1 h
    rw [List.cons_append, skippedBody_plain_iff hd, ih hds]

/-- All that follows the first byte of an escape are digits. -/
theorem Escape.exists_cons (h : Escape wide spelling meaning rest) :
    ∃ b ds, spelling = b :: ds ∧ ∀ d ∈ ds, Plain d := by
  cases h with
  | simple h =>
    obtain ⟨b, -, hb, -⟩ := simpleEscape?_of_mem h
    exact ⟨b, [], hb, List.forall_mem_nil _⟩
  | hex h => exact ⟨0x78, _, rfl, plain_of_number? h.number⟩
  | octal h =>
    obtain ⟨b, ds, rfl⟩ := List.exists_cons_of_ne_nil (digits_of_number? h.number).1
    exact ⟨b, ds, rfl, (List.forall_mem_cons.1 (plain_of_number? h.number)).2⟩
  | short _ hn => exact ⟨0x75, _, rfl, plain_of_number? hn⟩
  | long _ hn => exact ⟨0x55, _, rfl, plain_of_number? hn⟩

/-- What follows a backslash is gone through as the byte that it takes along and the digits. -/
theorem Escape.skippedBody_iff (h : Escape wide spelling meaning rest) :
    SkippedBody (backslash :: (spelling ++ rest)) ↔ SkippedBody rest := by
  obtain ⟨b, ds, rfl, hds⟩ := h.exists_cons
  rw [List.cons_append, skippedBody_backslash_iff, skippedBody_append hds]

theorem skippedBody_of_form (h : BodyForm wide body bytes) : SkippedBody body := by
  induction h with
  | nil => exact .nil
  | plain hb _ ih => exact .plain hb ih
  | escape first _ ih => exact first.skippedBody_iff.2 ih

theorem encode_quote (body : String) :
    encode (quote body) = doubleQuote :: (encode body ++ [doubleQuote]) := by
  have hquote : encode "\"" = [doubleQuote] := by decide
  rw [quote, encode_append, encode_append, hquote, List.append_assoc, List.singleton_append]

/-- **A literal is skipped as a whole**, whatever follows it. -/
theorem skip?_of_form {body : String} (h : BodyForm wide (encode body) bytes) (rest : Bytes) :
    skip? (encode (quote body) ++ rest) = some ⟨.literal, encode (quote body), rest⟩ := by
  rw [encode_quote]
  exact skip?_of_contextAt (.literal ((skippedBody_of_form h).quoteTail rest))

/-! ## Literals -/

theorem body?_eq_some : body? t = some body ↔ t = doubleQuote :: (body ++ [doubleQuote]) := by
  constructor
  · intro h
    cases t with
    | nil => cases h
    | cons b t =>
      rw [body?] at h
      split at h
      · next hb =>
        cases h
        obtain ⟨init, hinit⟩ := List.getLast?_eq_some_iff.1 hb.2
        rw [hb.1, hinit, List.dropLast_concat]
      · cases h
  · rintro rfl
    rw [body?, if_pos ⟨rfl, List.getLast?_concat⟩, List.dropLast_concat]

theorem splitWidth_mark (h : Mark mark wide) (hw : (encode w).head? = some doubleQuote) :
    splitWidth (encode (mark ++ w)) = (wide, encode w) := by
  have hlong : encode "L" = [0x4C] := by decide
  have hunicode : encode "u" = [0x75] := by decide
  rw [encode_append]
  cases h with
  | narrow =>
    obtain ⟨rest, hrest⟩ := List.head?_eq_some_iff.1 hw
    rw [hrest]
    rfl
  | long => rw [hlong, List.singleton_append, splitWidth, if_pos (.inl rfl)]
  | unicode => rw [hunicode, List.singleton_append, splitWidth, if_pos (.inr rfl)]

/-- A mark tells how the body is read. -/
theorem decodeBytes_quote (h : Mark mark wide) (body : String) :
    decodeBytes (encode (mark ++ quote body)) = decodeBody wide (encode body) := by
  have hhead : (encode (quote body)).head? = some doubleQuote := by rw [encode_quote]; rfl
  have hbody : body? (encode (quote body)) = some (encode body) :=
    body?_eq_some.2 (encode_quote body)
  rw [decodeBytes, splitWidth_mark h hhead]
  simp only [hbody]

/-- What stands between the quotes in a text is a text. -/
theorem eq_encode_quote (ht : WellFormed t) (h : body? t = some bytes) :
    ∃ body, t = encode (quote body) := by
  obtain rfl := body?_eq_some.1 h
  have hascii : IsAscii doubleQuote := by decide
  have hrest := wellFormed_of_ascii_cons hascii ht
  have hbody := (wellFormed_of_append hrest (boundary_of_head? rfl hascii)).1
  exact ⟨decodeLossy bytes, by rw [encode_quote, encode_decodeLossy hbody]⟩

/-- A text is a mark and a body between quotes, or else it is refused for not being quoted. -/
theorem exists_quote (w : String) :
    (∃ mark wide body, Mark mark wide ∧ w = mark ++ quote body) ∨
      decodeBytes (encode w) = .error .notQuoted := by
  have hform := wellFormed_encode w
  have hlong : encode "L" = [0x4C] := by decide
  have hunicode : encode "u" = [0x75] := by decide
  cases hw : encode w with
  | nil => exact .inr rfl
  | cons b rest =>
    rw [hw] at hform
    by_cases hmark : b = 0x4C ∨ b = 0x75
    · cases hbody : body? rest with
      | none =>
        right
        rw [decodeBytes, splitWidth, if_pos hmark]
        simp only [hbody]
      | some bytes =>
        have hascii : IsAscii b := by rcases hmark with rfl | rfl <;> decide
        obtain ⟨body, rfl⟩ := eq_encode_quote (wellFormed_of_ascii_cons hascii hform) hbody
        rcases hmark with rfl | rfl
        · refine .inl ⟨"L", true, body, .long, encode_injective ?_⟩
          rw [hw, encode_append, hlong, List.singleton_append]
        · refine .inl ⟨"u", true, body, .unicode, encode_injective ?_⟩
          rw [hw, encode_append, hunicode, List.singleton_append]
    · cases hbody : body? (b :: rest) with
      | none =>
        right
        rw [decodeBytes, splitWidth, if_neg hmark]
        simp only [hbody]
      | some bytes =>
        obtain ⟨body, heq⟩ := eq_encode_quote hform hbody
        refine .inl ⟨"", false, body, .narrow, encode_injective ?_⟩
        rw [hw, heq, String.empty_append]

/-- A literal decodes to the text with the bytes that its body stands for. -/
theorem decode_eq_ok : decode w = .ok s ↔ decodeBytes (encode w) = .ok (encode s) := by
  rw [decode]
  cases hbytes : decodeBytes (encode w) with
  | error fault => simp [bind, Except.bind]
  | ok bytes =>
    rw [Except.ok.injEq, eq_comm (a := bytes), ← decode?_eq_some_iff]
    simp only [bind, Except.bind]
    cases decode? bytes with
    | none => simp [throw, throwThe, MonadExceptOf.throw]
    | some s' => simp [pure, Except.pure]

theorem decodeBytes_of_refused (h : decode w = .error fault) :
    decodeBytes (encode w) = .error fault ∨ fault = .notUtf8 := by
  rw [decode] at h
  cases hbytes : decodeBytes (encode w) with
  | error fault' =>
    rw [hbytes] at h
    exact .inl (congrArg _ (Except.error.inj h))
  | ok bytes =>
    rw [hbytes] at h
    simp only [bind, Except.bind] at h
    split at h
    · cases h
    · cases h
      exact .inr rfl

/-- What a text can be refused for. -/
theorem decode_refused (h : decode w = .error fault) :
    fault = .notQuoted ∨ fault = .notUtf8 ∨ fault.OfBody := by
  rcases decodeBytes_of_refused h with hbytes | hutf8
  · rcases exists_quote w with ⟨mark, wide, body, hmark, rfl⟩ | hunquoted
    · rw [decodeBytes_quote hmark] at hbytes
      exact .inr (.inr (decodeBody_eq_error hbytes))
    · rw [hunquoted] at hbytes
      cases hbytes
      exact .inl rfl
  · exact .inr (.inl hutf8)

theorem kind_literal (h : fault ≠ .digitsNotText) :
    (Error.literal w fault).kind = .invalidContent := by
  cases fault with
  | digitsNotText => exact absurd rfl h
  | _ => rfl

/-- **Literals decode by their form.** A text decodes to a string exactly where it is a literal for
that string. All else is invalid content: the digits of an escape are always a text, and their
number always fits. -/
theorem decode_eq_ok_iff_form (w : String) :
    (∀ s, decode w = .ok s ↔ LiteralForm w s) ∧
      ∀ fault, decode w = .error fault →
        (Error.literal w fault).kind = .invalidContent ∧
          fault ≠ .digitsNotText ∧ fault ≠ .escapeOverflow ∧ ∀ v, fault ≠ .byteOverflow v := by
  constructor
  · intro s
    rw [decode_eq_ok]
    constructor
    · intro h
      rcases exists_quote w with ⟨mark, wide, body, hmark, rfl⟩ | hunquoted
      · rw [decodeBytes_quote hmark, decodeBody_eq_ok_iff] at h
        exact ⟨mark, wide, body, hmark, rfl, h⟩
      · rw [hunquoted] at h
        cases h
    · rintro ⟨mark, wide, body, hmark, rfl, hbody⟩
      rw [decodeBytes_quote hmark]
      exact decodeBody_of_form hbody
  · intro fault h
    have hrefused := decode_refused h
    have hdigits : fault ≠ .digitsNotText := by
      rintro rfl
      rcases hrefused with h | h | h | h | h <;> cases h
    refine ⟨kind_literal hdigits, hdigits, ?_, fun v => ?_⟩
    all_goals
      rintro rfl
      rcases hrefused with h | h | h | h | h <;> cases h

/-- Two escapes that are one character together, and an escape that there is not. -/
theorem decode_eq_ok_iff_form_joined :
    decode "\"\\xC3\\xA9\"" = .ok "é" ∧
      decode "\"\\q\"" = .error (.unknownEscape 0x71) ∧
        (Error.literal "\"\\q\"" (.unknownEscape 0x71)).kind = .invalidContent := by
  have first : Escape false [0x78, 0x43, 0x33] [0xC3] [0x5C, 0x78, 0x41, 0x39] :=
    @Escape.hex false [0x43, 0x33] _ 0xC3 ⟨by decide, .inl rfl⟩
  have second : Escape false [0x78, 0x41, 0x39] [0xA9] [] :=
    @Escape.hex false [0x41, 0x39] _ 0xA9 ⟨by decide, .inl rfl⟩
  have hspelled : encode "\\xC3\\xA9" = [0x5C, 0x78, 0x43, 0x33, 0x5C, 0x78, 0x41, 0x39] := by
    decide
  have hmeant : encode "é" = [0xC3, 0xA9] := by decide
  have hbody : BodyForm false (encode "\\xC3\\xA9") (encode "é") := by
    rw [hspelled, hmeant]
    exact .escape first (.escape second .nil)
  have hrefused : decode "\"\\q\"" = .error (.unknownEscape 0x71) := by
    have hbytes : decodeBytes (encode "\"\\q\"") = .error (.unknownEscape 0x71) :=
      (decodeBytes_quote .narrow "\\q").trans (decodeBody_refused rfl)
    rw [decode, hbytes]
    rfl
  exact ⟨((decode_eq_ok_iff_form _).1 "é").2 ⟨"", false, "\\xC3\\xA9", .narrow, rfl, hbody⟩,
    hrefused, ((decode_eq_ok_iff_form _).2 _ hrefused).1⟩

end EventSchema.Source.Literal
