import EventSchema.Source.Context
import EventSchema.Text.Numeral

/-!
String literals. A narrow literal is written between double quotes; a wide one has `L` or `u` before
them. Numeric escapes are bytes in a narrow literal and code points in a wide one, and the decoded
bytes have to be UTF-8.

Main statement: reading an item of a literal leaves less to read (`readEscape_length_le`), so
decoding ends.
-/

namespace EventSchema.Source.Literal

open Text (Numeral.digit? Numeral.read?)

/-- Why a text is not the spelling of a string. -/
inductive Fault
  | notQuoted
  | innerQuote
  | unfinishedEscape
  /-- `\x` is not followed by a hexadecimal digit. -/
  | noHexDigits
  /-- `\u` or `\U` has fewer hexadecimal digits than it needs. -/
  | hexDigitsNeeded (count : Nat)
  /-- The digits of a numeric escape are no text. -/
  | digitsNotText
  /-- A numeric escape does not fit into 32 bits. -/
  | escapeOverflow
  /-- A numeric escape of a narrow literal does not fit into a byte. -/
  | byteOverflow (value : Nat)
  | notCodePoint (value : Nat)
  | unknownEscape (b : UInt8)
  | notUtf8
  deriving DecidableEq, Repr

/-! ## Escapes -/

/-- The byte that a simple escape stands for. -/
def simpleEscape? (b : UInt8) : Option UInt8 :=
  [(0x5C, 0x5C), (0x27, 0x27), (0x22, 0x22), (0x3F, 0x3F), (0x61, 0x07), (0x62, 0x08), (0x66, 0x0C),
    (0x6E, 0x0A), (0x72, 0x0D), (0x74, 0x09), (0x76, 0x0B)].lookup b

/-- The digits in front of a text, at most `count` of them. -/
def digits (base count : Nat) (t : Bytes) : Bytes :=
  (t.take count).takeWhile fun b => (Numeral.digit? base b.toNat).isSome

/-- The number that digits stand for. They have to be a text, and the number has to fit into
32 bits. -/
def escapeValue (base : Nat) (ds : Bytes) : Except Fault Nat :=
  match Text.Utf8.decode? ds with
  | none => .error .digitsNotText
  | some s =>
    match (Numeral.read? base (s.toList.map Char.toNat)).filter (· < UInt32.size) with
    | some n => .ok n
    | none => .error .escapeOverflow

/-- The UTF-8 bytes of a code point. -/
def codePoint (n : Nat) : Except Fault Bytes :=
  if n.isValidChar then .ok (String.utf8EncodeChar (Char.ofNat n))
  else .error (.notCodePoint n)

/-- What a numeric escape adds to a literal: a byte to a narrow one, a code point to a wide one. -/
def numericEscape (wide : Bool) (base : Nat) (ds : Bytes) : Except Fault Bytes := do
  let n ← escapeValue base ds
  if wide then codePoint n
  else if n < 256 then .ok [UInt8.ofNat n]
  else .error (.byteOverflow n)

/-- A code point escape has exactly `count` hexadecimal digits. -/
def codePointEscape (count : Nat) (t : Bytes) : Except Fault (Bytes × Bytes) := do
  let ds := digits 16 count t
  if ds.length ≠ count then .error (.hexDigitsNeeded count)
  else
    let n ← escapeValue 16 ds
    return (← codePoint n, t.drop count)

/-- Reads what follows a backslash: the bytes it stands for and the rest of the text. -/
def readEscape (wide : Bool) : Bytes → Except Fault (Bytes × Bytes)
  | [] => .error .unfinishedEscape
  | b :: rest =>
    match simpleEscape? b with
    | some c => .ok ([c], rest)
    | none =>
      if b = 0x78 then
        let ds := digits 16 2 rest
        if ds.isEmpty then .error .noHexDigits
        else (numericEscape wide 16 ds).map fun bytes => (bytes, rest.drop ds.length)
      else if b = 0x75 then codePointEscape 4 rest
      else if b = 0x55 then codePointEscape 8 rest
      else if (Numeral.digit? 8 b.toNat).isSome then
        let ds := digits 8 2 (b :: rest)
        (numericEscape wide 8 ds).map fun bytes => (bytes, (b :: rest).drop ds.length)
      else .error (.unknownEscape b)

theorem codePointEscape_length_le {count : Nat} {t : Bytes} {r : Bytes × Bytes}
    (h : codePointEscape count t = .ok r) : r.2.length ≤ t.length := by
  simp only [codePointEscape] at h
  split at h
  · cases h
  · cases hv : escapeValue 16 (digits 16 count t) with
    | error e => simp [hv, bind, Except.bind] at h
    | ok n =>
      cases hp : codePoint n with
      | error e => simp [hv, hp, bind, Except.bind] at h
      | ok bytes =>
        simp only [hv, hp, bind, Except.bind, pure, Except.pure, Except.ok.injEq] at h
        rw [← h, List.length_drop]
        omega

/-- An escape leaves no more than follows its backslash. -/
theorem readEscape_length_le {wide : Bool} {t : Bytes} {r : Bytes × Bytes}
    (h : readEscape wide t = .ok r) : r.2.length ≤ t.length := by
  cases t with
  | nil => simp [readEscape] at h
  | cons b rest =>
    simp only [readEscape] at h
    split at h
    · cases h
      simp
    · split at h
      · split at h
        · cases h
        · obtain ⟨bytes, -, rfl⟩ := map_eq_ok h
          simp only [List.length_drop, List.length_cons]
          omega
      · split at h
        · exact Nat.le_succ_of_le (codePointEscape_length_le h)
        · split at h
          · exact Nat.le_succ_of_le (codePointEscape_length_le h)
          · split at h
            · obtain ⟨bytes, -, rfl⟩ := map_eq_ok h
              rw [List.length_drop]
              omega
            · cases h

/-! ## Literals -/

/-- The bytes that the body of a literal stands for. -/
def decodeBody (wide : Bool) : Bytes → Except Fault Bytes
  | [] => .ok []
  | b :: rest =>
    if b = doubleQuote then .error .innerQuote
    else if b = backslash then
      match _h : readEscape wide rest with
      | .error fault => .error fault
      | .ok (bytes, rest') => (decodeBody wide rest').map (bytes ++ ·)
    else (decodeBody wide rest).map (b :: ·)
termination_by t => t.length
decreasing_by
  · exact Nat.lt_succ_of_le (readEscape_length_le _h)
  · simp

/-- Whether a literal is wide, and its text from the opening quote on. -/
def splitWidth : Bytes → Bool × Bytes
  | [] => (false, [])
  | b :: rest => if b = 0x4C ∨ b = 0x75 then (true, rest) else (false, b :: rest)

/-- What stands between the first and the last double quote, if a text starts and ends with one. -/
def body? : Bytes → Option Bytes
  | [] => none
  | b :: rest =>
    if b = doubleQuote ∧ rest.getLast? = some doubleQuote then some rest.dropLast else none

/-- The bytes that a literal stands for. -/
def decodeBytes (t : Bytes) : Except Fault Bytes :=
  let (wide, quoted) := splitWidth t
  match body? quoted with
  | none => .error .notQuoted
  | some body => decodeBody wide body

/-- The text that a literal stands for. -/
def decode (literal : String) : Except Fault String := do
  let bytes ← decodeBytes (Text.Utf8.encode literal)
  match Text.Utf8.decode? bytes with
  | some s => return s
  | none => throw .notUtf8

/-- Whether an argument is spelled as a literal, of either width. -/
def isLiteral (arg : String) : Bool :=
  (splitWidth (Text.Utf8.encode arg)).2.head? == some doubleQuote

/-- The text of a literal; an identifier stands for itself. -/
def decodeOrBare (arg : String) : Except Fault String :=
  if isLiteral arg then decode arg else .ok arg

/-- A text between double quotes. It decodes to itself if it needs no escapes. -/
def quote (s : String) : String := "\"" ++ s ++ "\""

/-- A narrow literal that decodes to a text: a backslash precedes every backslash and every double
quote. -/
def spelling (s : String) : String :=
  quote (String.ofList (s.toList.flatMap fun c => if c = '\\' ∨ c = '"' then ['\\', c] else [c]))

end EventSchema.Source.Literal
