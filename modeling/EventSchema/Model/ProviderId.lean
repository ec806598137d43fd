import EventSchema.Error

/-!
Provider identifiers. An identifier is a number of any size; it may be written in hexadecimal after
`0x`, in hexadecimal with dashes, in decimal, or in hexadecimal with at least one letter, and may
stand in braces and in a string literal.
-/

namespace EventSchema.ProviderId

open Text (trim trimChars dropEndWhile)

/-- The number that digits stand for. One plus sign may precede them, and underscores after the
first digit are passed over. -/
def number? (base : Nat) (cs : List Char) : Option Nat :=
  let digits :=
    match cs with
    | '+' :: '+' :: _ => cs
    | '+' :: rest => rest
    | _ => cs
  if digits.head? = some '_' then none
  else Text.Numeral.read? base ((digits.filter (· ≠ '_')).map Char.toNat)

/-- The number of an identifier without quotes and braces. -/
def bare? (cs : List Char) : Option Nat :=
  match cs with
  | '0' :: 'x' :: digits => number? 16 digits
  | '0' :: 'X' :: digits => number? 16 digits
  | _ =>
    if cs.contains '-' then number? 16 (cs.filter (· ≠ '-'))
    else if cs.all Char.isDigit then number? 10 cs
    else number? 16 cs

/-- A text without the opening braces in front of it and the closing ones behind it. -/
def withoutBraces (cs : List Char) : List Char :=
  dropEndWhile (· == '}') (cs.dropWhile (· == '{'))

/-- Whether a text starts like a narrow literal or one with the prefix `L`. -/
def startsQuoted (cs : List Char) : Bool :=
  match cs with
  | '"' :: _ => true
  | 'L' :: '"' :: _ => true
  | _ => false

/-- Reads a provider identifier. -/
def parse (text : String) : Except Error Nat := do
  let trimmed := trim text
  let unquoted ←
    if startsQuoted trimmed.toList then
      (Source.Literal.decode trimmed).mapError (Error.literal trimmed)
    else .ok trimmed
  match bare? (withoutBraces (trimChars unquoted.toList)) with
  | some n => return n
  | none => throw (.providerId text)

end EventSchema.ProviderId
