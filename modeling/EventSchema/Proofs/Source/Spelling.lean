import EventSchema.Proofs.Source.LiteralForm

/-!
# The spellings of a text as a literal

Between quotes, a character may be written as itself, unless it is a quote or a backslash, or as one
of several escapes. Whichever is chosen for each character of a text (`Spells`), the body stands for
the text (`bodyForm_of_spells`). So the literal ends at its closing quote (`skip?_of_spells`) and
decodes to the text (`decode_of_spells`).
-/

namespace EventSchema.Source.Literal

open Text (Numeral.digit? Numeral.read? Numeral.value)
open Text.Utf8

/-! ## Spellings -/

/-- What a character may be written as between the quotes of a narrow literal. -/
inductive CharSpelling (c : Char) : List Char → Prop
  | plain (hslash : c ≠ '\\') (hquote : c ≠ '"') : CharSpelling c [c]
  | simple {letter : Char} (h : (letter, c) ∈ simpleEscapes) : CharSpelling c ['\\', letter]
  | hex {ds : List Char} (ascii : c.toNat < 0x80) (two : ds.length = 2)
      (value : Numeral.read? 16 (ds.map Char.toNat) = some c.toNat) :
      CharSpelling c ('\\' :: 'x' :: ds)
  | octal {ds : List Char} (two : ds.length = 2)
      (value : Numeral.read? 8 (ds.map Char.toNat) = some c.toNat) : CharSpelling c ('\\' :: ds)
  | short {ds : List Char} (four : ds.length = 4)
      (value : Numeral.read? 16 (ds.map Char.toNat) = some c.toNat) :
      CharSpelling c ('\\' :: 'u' :: ds)
  | long {ds : List Char} (eight : ds.length = 8)
      (value : Numeral.read? 16 (ds.map Char.toNat) = some c.toNat) :
      CharSpelling c ('\\' :: 'U' :: ds)

/-- What some characters may be written as between the quotes of a narrow literal. -/
inductive BodySpelling : List Char → List Char → Prop
  | nil : BodySpelling [] []
  | cons {c : Char} {w cs body : List Char} (first : CharSpelling c w)
      (rest : BodySpelling cs body) : BodySpelling (c :: cs) (w ++ body)

/-- Whether a narrow literal spells a text. -/
def Spells (s literal : String) : Prop :=
  ∃ body, BodySpelling s.toList body ∧ literal = quote (String.ofList body)

theorem spells_spelling (s : String) : Spells s (spelling s) := by
  refine ⟨_, ?_, rfl⟩
  induction s.toList with
  | nil => exact .nil
  | cons c cs ih =>
    rw [List.flatMap_cons]
    refine .cons ?_ ih
    by_cases h : c = '\\' ∨ c = '"'
    · rw [if_pos h]
      rcases h with rfl | rfl
      · exact .simple (by decide)
      · exact .simple (by decide)
    · rw [if_neg h]
      exact .plain (not_or.1 h).1 (not_or.1 h).2

/-! ## Plain bytes -/

theorem plain_of_mem_encodeChar {c : Char} (hquote : c ≠ '"') (hslash : c ≠ '\\') :
    ∀ b ∈ String.utf8EncodeChar c, Plain b := by
  intro b hb
  constructor
  · rintro rfl
    exact hquote (eq_of_ascii_mem_encodeChar (by decide) (by decide) hb)
  · rintro rfl
    exact hslash (eq_of_ascii_mem_encodeChar (by decide) (by decide) hb)

/-! ## One character -/

/-- The digits of a numeral have one byte each. -/
theorem map_toNat_encode {base : Nat} {ds : List Char} {vs : List Nat}
    (h : (ds.map Char.toNat).mapM (Numeral.digit? base) = some vs) :
    (ds.flatMap String.utf8EncodeChar).map UInt8.toNat = ds.map Char.toNat := by
  induction ds generalizing vs with
  | nil => rfl
  | cons d ds ih =>
    rw [List.map_cons, List.mapM_cons, Option.bind_eq_bind, Option.bind_eq_some_iff] at h
    obtain ⟨v, hv, h⟩ := h
    obtain ⟨vs, hvs, rfl⟩ := Option.map_eq_some_iff.1 ((Option.map_eq_bind).trans h)
    have hcode := Text.Numeral.code_of_digit? hv
    have hbyte : (UInt8.ofNat d.toNat).toNat = d.toNat := by
      rw [UInt8.toNat_ofNat']
      omega
    rw [List.flatMap_cons, encodeChar_of_lt (by omega), List.map_append, ih hvs, List.map_cons,
      List.map_nil, List.map_cons, hbyte, List.singleton_append]

/-- A numeral is the number of its bytes. -/
theorem number?_encode {base n : Nat} {ds : List Char}
    (h : Numeral.read? base (ds.map Char.toNat) = some n) :
    number? base (ds.flatMap String.utf8EncodeChar) = some n ∧
      (ds.flatMap String.utf8EncodeChar).length = ds.length := by
  have hcodes : (ds.flatMap String.utf8EncodeChar).map UInt8.toNat = ds.map Char.toNat := by
    have hread := h
    rw [Numeral.read?] at hread
    split at hread
    · cases hread
    · obtain ⟨vs, hvs, -⟩ := Option.map_eq_some_iff.1 hread
      exact map_toNat_encode hvs
  refine ⟨by rw [number?, hcodes, h], ?_⟩
  rw [← List.length_map UInt8.toNat, hcodes, List.length_map]

theorem numericBytes_of_lt {c : Char} (h : c.toNat < 0x80) :
    numericBytes false c.toNat = String.utf8EncodeChar c :=
  (encodeChar_of_lt h).symm

/-- **What a character is written as stands for the character.** -/
theorem bodyForm_of_charSpelling {c : Char} {w : List Char} {body bytes : Bytes}
    (h : CharSpelling c w) (rest : BodyForm false body bytes) :
    BodyForm false (w.flatMap String.utf8EncodeChar ++ body)
      (String.utf8EncodeChar c ++ bytes) := by
  have hslash : String.utf8EncodeChar '\\' = [backslash] := by decide
  have hescaped (letters : List Char) :
      ('\\' :: letters).flatMap String.utf8EncodeChar ++ body =
        backslash :: (letters.flatMap String.utf8EncodeChar ++ body) := by
    rw [List.flatMap_cons, hslash]
    rfl
  cases h with
  | plain hslash hquote =>
    rw [List.flatMap_singleton]
    exact bodyForm_plain_append (plain_of_mem_encodeChar hquote hslash) rest
  | simple h =>
    rw [hescaped, List.flatMap_singleton]
    exact .escape (.simple h body) rest
  | @hex ds ascii two value =>
    obtain ⟨hnumber, hlength⟩ := number?_encode value
    rw [hescaped, List.flatMap_cons, ← numericBytes_of_lt ascii]
    exact .escape (.hex ⟨hnumber, .inl (hlength.trans two)⟩) rest
  | @octal ds two value =>
    obtain ⟨hnumber, hlength⟩ := number?_encode value
    have ascii : c.toNat < 0x80 := by
      have hlt := (digits_of_number? hnumber).2.2
      rw [hlength, two] at hlt
      exact Nat.lt_trans hlt (by decide)
    rw [hescaped, ← numericBytes_of_lt ascii]
    exact .escape (.octal ⟨hnumber, .inl (hlength.trans two)⟩) rest
  | @short ds four value =>
    obtain ⟨hnumber, hlength⟩ := number?_encode value
    have hescape : Escape false _ _ body := .short (hlength.trans four) hnumber c.valid body
    rw [Char.ofNat_toNat] at hescape
    rw [hescaped, List.flatMap_cons]
    exact .escape hescape rest
  | @long ds eight value =>
    obtain ⟨hnumber, hlength⟩ := number?_encode value
    have hescape : Escape false _ _ body := .long (hlength.trans eight) hnumber c.valid body
    rw [Char.ofNat_toNat] at hescape
    rw [hescaped, List.flatMap_cons]
    exact .escape hescape rest

/-! ## Literals -/

theorem bodyForm_of_bodySpelling {cs body : List Char} (h : BodySpelling cs body) :
    BodyForm false (body.flatMap String.utf8EncodeChar) (cs.flatMap String.utf8EncodeChar) := by
  induction h with
  | nil => exact .nil
  | cons first _ ih =>
    rw [List.flatMap_append, List.flatMap_cons]
    exact bodyForm_of_charSpelling first ih

/-- What spells a text is the body of a narrow literal for it. -/
theorem bodyForm_of_spells {s literal : String} (h : Spells s literal) :
    ∃ body, literal = quote body ∧ BodyForm false (encode body) (encode s) := by
  obtain ⟨body, hbody, rfl⟩ := h
  refine ⟨String.ofList body, rfl, ?_⟩
  rw [encode, encode, String.toList_ofList]
  exact bodyForm_of_bodySpelling hbody

/-- **A literal is skipped as a whole,** whatever follows it. -/
theorem skip?_of_spells {s literal : String} (h : Spells s literal) (t : Bytes) :
    skip? (encode literal ++ t) = some ⟨.literal, encode literal, t⟩ := by
  obtain ⟨body, rfl, hbody⟩ := bodyForm_of_spells h
  exact skip?_of_form hbody t

/-- **A literal decodes to the text that it spells.** -/
theorem decode_of_spells {s literal : String} (h : Spells s literal) : decode literal = .ok s := by
  obtain ⟨body, rfl, hbody⟩ := bodyForm_of_spells h
  rw [← String.empty_append (s := quote _), decode_eq_ok, decodeBytes_quote .narrow]
  exact decodeBody_of_form hbody

/-- A text that needs no escapes stands for itself between quotes, in a wide literal too. -/
theorem decode_quote_of_plain {mark s : String} {wide : Bool} (hmark : Mark mark wide)
    (plain : ∀ c ∈ s.toList, c ≠ '"' ∧ c ≠ '\\') : decode (mark ++ quote s) = .ok s := by
  have hplain : ∀ b ∈ encode s, Plain b := by
    intro b hb
    obtain ⟨c, hc, hb⟩ := List.mem_flatMap.1 hb
    exact plain_of_mem_encodeChar (plain c hc).1 (plain c hc).2 b hb
  have hform : BodyForm wide (encode s ++ []) (encode s ++ []) := bodyForm_plain_append hplain .nil
  rw [List.append_nil] at hform
  rw [decode_eq_ok, decodeBytes_quote hmark]
  exact decodeBody_of_form hform

theorem decodeOrBare_of_spells {s literal : String} (h : Spells s literal) :
    decodeOrBare literal = .ok s := by
  have hliteral : isLiteral literal = true := by
    obtain ⟨body, rfl, -⟩ := bodyForm_of_spells h
    rw [isLiteral, encode_quote, splitWidth, if_neg (by decide)]
    rfl
  rw [decodeOrBare, if_pos hliteral, decode_of_spells h]

theorem skip?_spelling (s : String) (t : Bytes) :
    skip? (encode (spelling s) ++ t) = some ⟨.literal, encode (spelling s), t⟩ :=
  skip?_of_spells (spells_spelling s) t

theorem decode_spelling_eq (s : String) : decode (spelling s) = .ok s :=
  decode_of_spells (spells_spelling s)

end EventSchema.Source.Literal
