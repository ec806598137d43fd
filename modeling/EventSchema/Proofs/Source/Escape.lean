import EventSchema.Proofs.Text.Decoding
import EventSchema.Source.Literal

/-!
# How escapes are written

What may follow a backslash in a literal, and what it stands for (`Escape`). An escape that is
written so is read so (`readEscape_of_escape`), and what is written otherwise is refused
(`escape_or_refused`). Reading takes as many digits as there are, up to the most that an escape may
have (`exists_run`). At most eight digits are always in range, so no escape is refused for the
size of its number.
-/

namespace EventSchema.Source.Literal

open Text (Numeral.digit? Numeral.read? Numeral.value)
open Text.Utf8

variable {wide : Bool} {base count n : Nat} {b : UInt8} {t ds rest bytes : Bytes} {fault : Fault}

/-! ## Plain bytes -/

/-- Bytes that neither end a literal nor escape anything in it. -/
def Plain (b : UInt8) : Prop := b ≠ doubleQuote ∧ b ≠ backslash

/-! ## Digits -/

/-- The bytes that are digits in a base. -/
def IsDigit (base : Nat) (b : UInt8) : Prop := (Numeral.digit? base b.toNat).isSome = true

instance : Decidable (IsDigit base b) := inferInstanceAs (Decidable (_ = true))

theorem IsDigit.code (h : IsDigit base b) :
    0x30 ≤ b.toNat ∧ b.toNat ≤ 0x39 ∨ 0x41 ≤ b.toNat ∧ b.toNat ≤ 0x46 ∨
      0x61 ≤ b.toNat ∧ b.toNat ≤ 0x66 := by
  obtain ⟨v, hv⟩ := Option.isSome_iff_exists.1 h
  exact Text.Numeral.code_of_digit? hv

theorem IsDigit.isAscii (h : IsDigit base b) : IsAscii b := by
  have := h.code
  rw [IsAscii]
  omega

theorem IsDigit.plain (h : IsDigit base b) : Plain b := by
  have hcode := h.code
  constructor
  · rintro rfl
    have : doubleQuote.toNat = 0x22 := rfl
    omega
  · rintro rfl
    have : backslash.toNat = 0x5C := rfl
    omega

theorem digits_nil (base count : Nat) : digits base count [] = [] := by
  rw [digits, List.take_nil, List.takeWhile_nil]

theorem digits_cons_of_isDigit (h : IsDigit base b) (count : Nat) (t : Bytes) :
    digits base (count + 1) (b :: t) = b :: digits base count t := by
  rw [IsDigit] at h
  rw [digits, List.take_succ_cons, List.takeWhile_cons, if_pos h, digits]

theorem digits_cons_of_not (h : ¬ IsDigit base b) (count : Nat) (t : Bytes) :
    digits base count (b :: t) = [] := by
  cases count with
  | zero => rfl
  | succ count =>
    rw [IsDigit] at h
    rw [digits, List.take_succ_cons, List.takeWhile_cons, if_neg h]

/-- Some digits in front of a text, as many as there are up to a count. -/
structure Run (base count : Nat) (ds rest : Bytes) : Prop where
  isDigit : ∀ b ∈ ds, IsDigit base b
  length : ds.length = count ∨ ds.length < count ∧ ∀ b, rest.head? = some b → ¬ IsDigit base b

/-- **Digits are read up to the count or to the first byte that is none.** -/
theorem digits_append (h : Run base count ds rest) : digits base count (ds ++ rest) = ds := by
  obtain ⟨hdigits, hlength⟩ := h
  induction ds generalizing count with
  | nil =>
    cases rest with
    | nil => exact digits_nil base count
    | cons b rest =>
      rcases hlength with rfl | ⟨-, hend⟩
      · rfl
      · exact digits_cons_of_not (hend b rfl) count rest
  | cons d ds ih =>
    obtain ⟨hd, hds⟩ := List.forall_mem_cons.1 hdigits
    cases count with
    | zero => exact absurd hlength (by simp)
    | succ count =>
      rw [List.cons_append, digits_cons_of_isDigit hd, ih hds (by simpa using hlength)]

theorem exists_run (base count : Nat) (t : Bytes) :
    ∃ ds rest, t = ds ++ rest ∧ Run base count ds rest := by
  induction count generalizing t with
  | zero => exact ⟨[], t, rfl, List.forall_mem_nil _, .inl rfl⟩
  | succ count ih =>
    cases t with
    | nil => exact ⟨[], [], rfl, List.forall_mem_nil _, .inr ⟨count.succ_pos, nofun⟩⟩
    | cons b t =>
      by_cases hb : IsDigit base b
      · obtain ⟨ds, rest, rfl, hrun⟩ := ih t
        refine ⟨b :: ds, rest, rfl, List.forall_mem_cons.2 ⟨hb, hrun.isDigit⟩, ?_⟩
        simpa using hrun.length
      · refine ⟨[], b :: t, rfl, List.forall_mem_nil _, .inr ⟨count.succ_pos, ?_⟩⟩
        rintro _ ⟨⟩
        exact hb

/-! ## Numbers -/

/-- The number that some bytes are the digits of, if there is one. -/
def number? (base : Nat) (ds : Bytes) : Option Nat := Numeral.read? base (ds.map UInt8.toNat)

theorem mapM_digit?_bytes (h : ∀ b ∈ ds, IsDigit base b) :
    ∃ vs, (ds.map UInt8.toNat).mapM (Numeral.digit? base) = some vs := by
  induction ds with
  | nil => exact ⟨[], rfl⟩
  | cons d ds ih =>
    obtain ⟨hd, hds⟩ := List.forall_mem_cons.1 h
    obtain ⟨v, hv⟩ := Option.isSome_iff_exists.1 hd
    obtain ⟨vs, hvs⟩ := ih hds
    refine ⟨v :: vs, ?_⟩
    rw [List.map_cons, List.mapM_cons, hv, hvs]
    rfl

theorem digits_of_mapM {vs : List Nat}
    (h : (ds.map UInt8.toNat).mapM (Numeral.digit? base) = some vs) :
    (∀ b ∈ ds, IsDigit base b) ∧ vs.length = ds.length ∧ ∀ v ∈ vs, v < base := by
  induction ds generalizing vs with
  | nil =>
    cases h
    exact ⟨List.forall_mem_nil _, rfl, List.forall_mem_nil _⟩
  | cons d ds ih =>
    rw [List.map_cons, List.mapM_cons, Option.bind_eq_bind, Option.bind_eq_some_iff] at h
    obtain ⟨v, hv, h⟩ := h
    obtain ⟨vs, hvs, rfl⟩ := Option.map_eq_some_iff.1 ((Option.map_eq_bind).trans h)
    obtain ⟨hdigits, hlength, hvalues⟩ := ih hvs
    refine ⟨List.forall_mem_cons.2 ⟨?_, hdigits⟩, ?_, List.forall_mem_cons.2 ⟨?_, hvalues⟩⟩
    · exact Option.isSome_iff_exists.2 ⟨v, hv⟩
    · rw [List.length_cons, List.length_cons, hlength]
    · exact Text.Numeral.digit?_lt hv

/-- Digits are a number if there are any. -/
theorem exists_number? (hne : ds ≠ []) (h : ∀ b ∈ ds, IsDigit base b) :
    ∃ n, number? base ds = some n := by
  obtain ⟨vs, hvs⟩ := mapM_digit?_bytes h
  refine ⟨Numeral.value base vs, ?_⟩
  rw [number?, Numeral.read?, if_neg (by simpa using hne), hvs]
  rfl

/-- What is a number has digits, and is below the power of the base that has as many places. -/
theorem digits_of_number? (h : number? base ds = some n) :
    ds ≠ [] ∧ (∀ b ∈ ds, IsDigit base b) ∧ n < Nat.pow base ds.length := by
  rw [number?, Numeral.read?] at h
  split at h
  · cases h
  · next hne =>
    obtain ⟨vs, hvs, rfl⟩ := Option.map_eq_some_iff.1 h
    obtain ⟨hdigits, hlength, hvalues⟩ := digits_of_mapM hvs
    exact ⟨by simpa using hne, hdigits, hlength ▸ Text.Numeral.value_lt base vs hvalues⟩

theorem plain_of_number? (h : number? base ds = some n) : ∀ b ∈ ds, Plain b :=
  fun b hb => ((digits_of_number? h).2.1 b hb).plain

/-- **Digits are a text, and what they stand for is read from it** if it fits into 32 bits. -/
theorem escapeValue_of_number? (h : number? base ds = some n) (hn : n < UInt32.size) :
    escapeValue base ds = .ok n := by
  have htext := decode?_of_ascii fun b hb => ((digits_of_number? h).2.1 b hb).isAscii
  have hcodes : (ds.map fun b => Char.ofNat b.toNat).map Char.toNat = ds.map UInt8.toNat := by
    rw [List.map_map]
    exact List.map_congr_left fun b _ => toNat_charOfNat_byte b
  rw [number?] at h
  rw [escapeValue, htext]
  simp only [String.toList_ofList, hcodes, h, Option.filter_some, decide_eq_true hn, if_true]

/-- Eight hexadecimal digits fit into 32 bits. -/
theorem fits_of_number? (h : number? 16 ds = some n) (hlength : ds.length ≤ 8) : n < UInt32.size :=
  calc n < 16 ^ ds.length := (digits_of_number? h).2.2
    _ ≤ 16 ^ 8 := Nat.pow_le_pow_right (by decide) hlength

/-- Two digits fit into a byte. -/
theorem byte_of_number? (h : number? base ds = some n) (hbase : base ≤ 16)
    (hlength : ds.length ≤ 2) : n < 256 :=
  calc n < base ^ ds.length := (digits_of_number? h).2.2
    _ ≤ 16 ^ ds.length := Nat.pow_le_pow_left hbase _
    _ ≤ 16 ^ 2 := Nat.pow_le_pow_right (by decide) hlength

/-! ## Forms -/

/-- The letters of simple escapes, each with the character it stands for. -/
def simpleEscapes : List (Char × Char) :=
  [('\\', '\\'), ('\x27', '\x27'), ('"', '"'), ('?', '?'), ('a', '\x07'), ('b', '\x08'),
    ('f', '\x0C'), ('n', '\n'), ('r', '\r'), ('t', '\t'), ('v', '\x0B')]

/-- One or two digits in front of a text, two if the second byte is a digit as well. -/
structure ShortNumber (base : Nat) (ds rest : Bytes) (n : Nat) : Prop where
  number : number? base ds = some n
  length : ds.length = 2 ∨ ds.length = 1 ∧ ∀ b, rest.head? = some b → ¬ IsDigit base b

/-- What the number of a numeric escape stands for: a byte, or the character with that number. -/
def numericBytes (wide : Bool) (n : Nat) : Bytes :=
  if wide then String.utf8EncodeChar (Char.ofNat n) else [UInt8.ofNat n]

/-- What follows a backslash, what it stands for, and what comes after it. -/
inductive Escape (wide : Bool) : Bytes → Bytes → Bytes → Prop
  | simple {letter c : Char} (h : (letter, c) ∈ simpleEscapes) (rest : Bytes) :
      Escape wide (String.utf8EncodeChar letter) (String.utf8EncodeChar c) rest
  | hex {ds rest : Bytes} {n : Nat} (h : ShortNumber 16 ds rest n) :
      Escape wide (String.utf8EncodeChar 'x' ++ ds) (numericBytes wide n) rest
  | octal {ds rest : Bytes} {n : Nat} (h : ShortNumber 8 ds rest n) :
      Escape wide ds (numericBytes wide n) rest
  | short {ds : Bytes} {n : Nat} (four : ds.length = 4) (number : number? 16 ds = some n)
      (scalar : n.isValidChar) (rest : Bytes) :
      Escape wide (String.utf8EncodeChar 'u' ++ ds) (String.utf8EncodeChar (Char.ofNat n)) rest
  | long {ds : Bytes} {n : Nat} (eight : ds.length = 8) (number : number? 16 ds = some n)
      (scalar : n.isValidChar) (rest : Bytes) :
      Escape wide (String.utf8EncodeChar 'U' ++ ds) (String.utf8EncodeChar (Char.ofNat n)) rest

/-- Why something that follows a backslash is no escape. -/
def Fault.OfEscape : Fault → Prop
  | .noHexDigits | .hexDigitsNeeded _ | .notCodePoint _ | .unknownEscape _ => True
  | _ => False

/-! ## Reading what is written -/

theorem ShortNumber.run (h : ShortNumber base ds rest n) : Run base 2 ds rest where
  isDigit := (digits_of_number? h.number).2.1
  length := h.length.imp_right fun hone => ⟨by omega, hone.2⟩

theorem ShortNumber.length_le (h : ShortNumber base ds rest n) : ds.length ≤ 2 := by
  rcases h.length with hlength | ⟨hlength, -⟩ <;> omega

theorem exists_shortNumber (hne : ds ≠ []) (h : Run base 2 ds rest) :
    ∃ n, ShortNumber base ds rest n := by
  obtain ⟨n, hn⟩ := exists_number? hne h.isDigit
  refine ⟨n, hn, h.length.imp_right fun hshort => ⟨?_, hshort.2⟩⟩
  have := List.length_pos_iff.2 hne
  omega

/-- A numeric escape of one or two digits is in range. -/
theorem numericEscape_of_shortNumber (h : ShortNumber base ds rest n) (hbase : base ≤ 16) :
    numericEscape wide base ds = .ok (numericBytes wide n) := by
  have hbyte : n < 256 := byte_of_number? h.number hbase h.length_le
  have hvalue := escapeValue_of_number? h.number (Nat.lt_trans hbyte (by decide))
  simp only [numericEscape, hvalue, bind, Except.bind, numericBytes]
  cases wide with
  | false => simp [hbyte]
  | true =>
    have hscalar : n.isValidChar := .inl (Nat.lt_trans hbyte (by decide))
    simp [codePoint, hscalar]

theorem codePointEscape_append (hcount : ds.length = count) (hfit : count ≤ 8)
    (h : number? 16 ds = some n) (rest : Bytes) :
    codePointEscape count (ds ++ rest) = (codePoint n).map fun bytes => (bytes, rest) := by
  have hrun : Run 16 count ds rest := ⟨(digits_of_number? h).2.1, .inl hcount⟩
  have hvalue := escapeValue_of_number? h (fits_of_number? h (hcount ▸ hfit))
  rw [codePointEscape, digits_append hrun, if_neg (not_not_intro hcount), hvalue, ← hcount,
    List.drop_left]
  simp only [bind, Except.bind, pure, Except.pure]
  cases codePoint n <;> rfl

/-! ### Each kind of escape -/

theorem simpleEscape?_of_mem {letter c : Char} (h : (letter, c) ∈ simpleEscapes) :
    ∃ b x, String.utf8EncodeChar letter = [b] ∧ String.utf8EncodeChar c = [x] ∧
      simpleEscape? b = some x := by
  have hall : ∀ e ∈ simpleEscapes, e.1.toNat < 0x80 ∧ e.2.toNat < 0x80 ∧
      simpleEscape? (UInt8.ofNat e.1.toNat) = some (UInt8.ofNat e.2.toNat) := by decide
  obtain ⟨hletter, hc, hsimple⟩ := hall (letter, c) h
  exact ⟨_, _, encodeChar_of_lt hletter, encodeChar_of_lt hc, hsimple⟩

theorem mem_of_simpleEscape? {x : UInt8} (h : simpleEscape? b = some x) :
    ∃ e ∈ simpleEscapes, String.utf8EncodeChar e.1 = [b] ∧ String.utf8EncodeChar e.2 = [x] := by
  have hall : ∀ n < 256, ∀ x ∈ simpleEscape? (UInt8.ofNat n), ∃ e ∈ simpleEscapes,
      String.utf8EncodeChar e.1 = [UInt8.ofNat n] ∧ String.utf8EncodeChar e.2 = [x] := by
    decide +kernel
  have hb := hall b.toNat b.toNat_lt x
  rw [UInt8.ofNat_toNat] at hb
  exact hb h

theorem readEscape_simple {c : UInt8} (h : simpleEscape? b = some c) (t : Bytes) :
    readEscape wide (b :: t) = .ok ([c], t) := by
  rw [readEscape, h]

theorem readEscape_hex (wide : Bool) (t : Bytes) : readEscape wide (0x78 :: t) =
    if (digits 16 2 t).isEmpty then .error .noHexDigits
    else (numericEscape wide 16 (digits 16 2 t)).map
      fun bytes => (bytes, t.drop (digits 16 2 t).length) := rfl

theorem readEscape_short (wide : Bool) (t : Bytes) :
    readEscape wide (0x75 :: t) = codePointEscape 4 t := rfl

theorem readEscape_long (wide : Bool) (t : Bytes) :
    readEscape wide (0x55 :: t) = codePointEscape 8 t := rfl

/-- No octal digit is the letter of another escape. -/
theorem readEscape_octal (h : IsDigit 8 b) (t : Bytes) :
    readEscape wide (b :: t) = (numericEscape wide 8 (digits 8 2 (b :: t))).map
      fun bytes => (bytes, (b :: t).drop (digits 8 2 (b :: t)).length) := by
  have hall : ∀ n < 256, IsDigit 8 (UInt8.ofNat n) →
      simpleEscape? (UInt8.ofNat n) = none ∧ UInt8.ofNat n ≠ 0x78 ∧ UInt8.ofNat n ≠ 0x75 ∧
        UInt8.ofNat n ≠ 0x55 := by decide +kernel
  have hb := hall b.toNat b.toNat_lt
  rw [UInt8.ofNat_toNat] at hb
  obtain ⟨hsimple, hhex, hshort, hlong⟩ := hb h
  rw [IsDigit] at h
  simp only [readEscape, hsimple, if_neg hhex, if_neg hshort, if_neg hlong, h, if_true]

theorem readEscape_unknown (hsimple : simpleEscape? b = none) (hhex : b ≠ 0x78) (hshort : b ≠ 0x75)
    (hlong : b ≠ 0x55) (hoctal : ¬ IsDigit 8 b) (t : Bytes) :
    readEscape wide (b :: t) = .error (.unknownEscape b) := by
  rw [IsDigit] at hoctal
  simp only [readEscape, hsimple, if_neg hhex, if_neg hshort, if_neg hlong, if_neg hoctal]

/-- **An escape is read as it is written.** -/
theorem readEscape_of_escape {spelling meaning : Bytes}
    (h : Escape wide spelling meaning rest) :
    readEscape wide (spelling ++ rest) = .ok (meaning, rest) := by
  cases h with
  | simple h rest =>
    obtain ⟨b, x, hb, hx, hsimple⟩ := simpleEscape?_of_mem h
    rw [hb, hx]
    exact readEscape_simple hsimple rest
  | @hex ds rest n h =>
    have hx : String.utf8EncodeChar 'x' = [0x78] := by decide
    have hne : ¬ ds.isEmpty = true := by simpa using (digits_of_number? h.number).1
    rw [hx, List.append_assoc, List.singleton_append, readEscape_hex, digits_append h.run,
      if_neg hne, numericEscape_of_shortNumber h (by decide), List.drop_left]
    rfl
  | @octal ds rest n h =>
    obtain ⟨hne, hdigits, -⟩ := digits_of_number? h.number
    have hrun := digits_append h.run
    obtain ⟨d, ds', rfl⟩ := List.exists_cons_of_ne_nil hne
    rw [List.cons_append] at hrun ⊢
    rw [readEscape_octal (hdigits d List.mem_cons_self), hrun,
      numericEscape_of_shortNumber h (by decide), ← List.cons_append, List.drop_left]
    rfl
  | @short ds n four number scalar rest =>
    have hu : String.utf8EncodeChar 'u' = [0x75] := by decide
    rw [hu, List.append_assoc, List.singleton_append, readEscape_short,
      codePointEscape_append four (by decide) number, codePoint, if_pos scalar]
    rfl
  | @long ds n eight number scalar rest =>
    have hu : String.utf8EncodeChar 'U' = [0x55] := by decide
    rw [hu, List.append_assoc, List.singleton_append, readEscape_long,
      codePointEscape_append eight (by decide) number, codePoint, if_pos scalar]
    rfl

/-! ## What is refused -/

/-- A code point escape has all of its digits, with a character for their number, or is refused. -/
theorem codePoint_or_refused (count : Nat) (hpos : 0 < count) (hfit : count ≤ 8) (t : Bytes) :
    (∃ ds rest n, t = ds ++ rest ∧ ds.length = count ∧ number? 16 ds = some n ∧ n.isValidChar) ∨
      ∃ fault, codePointEscape count t = .error fault ∧ fault.OfEscape := by
  obtain ⟨ds, rest, rfl, hrun⟩ := exists_run 16 count t
  by_cases hcount : ds.length = count
  · have hne : ds ≠ [] := List.length_pos_iff.1 (hcount ▸ hpos)
    obtain ⟨n, hn⟩ := exists_number? hne hrun.isDigit
    by_cases hscalar : n.isValidChar
    · exact .inl ⟨ds, rest, n, rfl, hcount, hn, hscalar⟩
    · refine .inr ⟨.notCodePoint n, ?_, trivial⟩
      rw [codePointEscape_append hcount hfit hn, codePoint, if_neg hscalar]
      rfl
  · refine .inr ⟨.hexDigitsNeeded count, ?_, trivial⟩
    rw [codePointEscape, digits_append hrun]
    exact if_pos hcount

/-- **What follows a backslash is an escape, or it is refused.** -/
theorem escape_or_refused (wide : Bool) (b : UInt8) (t : Bytes) :
    (∃ spelling meaning rest, b :: t = spelling ++ rest ∧ Escape wide spelling meaning rest) ∨
      ∃ fault, readEscape wide (b :: t) = .error fault ∧ fault.OfEscape := by
  -- one case for each branch of the reader, which decides by the first byte
  cases hsimple : simpleEscape? b with
  | some x =>
    obtain ⟨e, he, hb, -⟩ := mem_of_simpleEscape? hsimple
    exact .inl ⟨_, _, t, by rw [hb]; rfl, .simple he t⟩
  | none =>
    by_cases hhex : b = 0x78
    · subst hhex
      obtain ⟨ds, rest, rfl, hrun⟩ := exists_run 16 2 t
      by_cases hne : ds = []
      · refine .inr ⟨.noHexDigits, ?_, trivial⟩
        rw [readEscape_hex, digits_append hrun, hne]
        rfl
      · obtain ⟨n, hn⟩ := exists_shortNumber hne hrun
        exact .inl ⟨_, _, rest, rfl, .hex hn⟩
    by_cases hshort : b = 0x75
    · subst hshort
      rcases codePoint_or_refused 4 (by decide) (by decide) t with
        ⟨ds, rest, n, rfl, hcount, hn, hscalar⟩ | hrefused
      · exact .inl ⟨_, _, rest, rfl, .short hcount hn hscalar rest⟩
      · exact .inr hrefused
    by_cases hlong : b = 0x55
    · subst hlong
      rcases codePoint_or_refused 8 (by decide) (by decide) t with
        ⟨ds, rest, n, rfl, hcount, hn, hscalar⟩ | hrefused
      · exact .inl ⟨_, _, rest, rfl, .long hcount hn hscalar rest⟩
      · exact .inr hrefused
    by_cases hoctal : IsDigit 8 b
    · obtain ⟨ds, rest, ht, hrun⟩ := exists_run 8 2 (b :: t)
      have hne : ds ≠ [] := by
        rintro rfl
        rcases hrun.length with hzero | ⟨-, hend⟩
        · cases hzero
        · exact hend b (congrArg List.head? ht).symm hoctal
      obtain ⟨n, hn⟩ := exists_shortNumber hne hrun
      exact .inl ⟨ds, _, rest, ht, .octal hn⟩
    · exact .inr ⟨_, readEscape_unknown hsimple hhex hshort hlong hoctal t, trivial⟩

end EventSchema.Source.Literal
