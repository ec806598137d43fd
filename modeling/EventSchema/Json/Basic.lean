import EventSchema.Text.Numeral

/-!
JSON values and their tokens. A value is the sequence of its tokens, so a text is read through
tokens (`EventSchema.Json.Reader`) and written from them.
-/

namespace EventSchema

/-- A JSON value. Objects keep the order and the repetitions of their keys. -/
inductive Json
  | null
  | bool (b : Bool)
  /-- A number written as a natural number, without sign, fraction and exponent. -/
  | number (n : Nat)
  | string (s : String)
  /-- A well-formed value with no counterpart here: any other number, a string with an unpaired
  surrogate, or an object with such a key. -/
  | foreign
  | array (items : List Json)
  | object (members : List (String × Json))

namespace Json

instance : Inhabited Json := ⟨.null⟩

/-! ## Values of other types -/

/-- A text that may be missing. -/
def ofText? (s : Option String) : Json :=
  match s with
  | some s => .string s
  | none => .null

/-- A number that may be missing. -/
def ofValue? (v : Option UInt32) : Json :=
  match v with
  | some v => .number v.toNat
  | none => .null

/-- A list, item by item. -/
def ofList {α : Type} (item : α → Json) (l : List α) : Json := .array (l.map item)

/-! ## Tokens -/

/-- A token of JSON text. -/
inductive Token
  | openBrace
  | closeBrace
  | openBracket
  | closeBracket
  | colon
  | comma
  | null
  | bool (b : Bool)
  /-- A number; `none` if it is not a natural number as written. -/
  | number (n : Option Nat)
  /-- A string; `none` if it has an unpaired surrogate. -/
  | string (s : Option String)
  deriving DecidableEq, Repr

/-! ## Text of tokens -/

/-- A character as it is written inside a string. -/
def escaped (c : Char) : List Char :=
  match c with
  | '"' => ['\\', '"']
  | '\\' => ['\\', '\\']
  | '\x08' => ['\\', 'b']
  | '\x0c' => ['\\', 'f']
  | '\n' => ['\\', 'n']
  | '\r' => ['\\', 'r']
  | '\t' => ['\\', 't']
  | c =>
    if c.toNat < 0x20 then '\\' :: 'u' :: (Text.Numeral.paddedHex 4 c.toNat).toList else [c]

/-- A string between quotes. -/
def quoted (s : String) : List Char := '"' :: s.toList.flatMap escaped ++ ['"']

/-- The characters of a token. What has no counterpart is written as `null`. -/
def Token.text : Token → List Char
  | .openBrace => ['\x7b']
  | .closeBrace => ['\x7d']
  | .openBracket => ['[']
  | .closeBracket => [']']
  | .colon => [':']
  | .comma => [',']
  | .bool true => ['t', 'r', 'u', 'e']
  | .bool false => ['f', 'a', 'l', 's', 'e']
  | .number (some n) => Nat.toDigits 10 n
  | .string (some s) => quoted s
  | .null | .number none | .string none => ['n', 'u', 'l', 'l']

/-! ## Tokens of values -/

mutual

/-- The tokens of a value. -/
def tokens : Json → List Token
  | .null => [.null]
  | .bool b => [.bool b]
  | .number n => [.number (some n)]
  | .string s => [.string (some s)]
  | .foreign => [.null]
  | .array items => .openBracket :: itemTokens items ++ [.closeBracket]
  | .object members => .openBrace :: memberTokens members ++ [.closeBrace]

/-- The tokens between the brackets of an array. -/
def itemTokens : List Json → List Token
  | [] => []
  | [v] => tokens v
  | v :: w :: rest => tokens v ++ .comma :: itemTokens (w :: rest)

/-- The tokens of a member of an object. -/
def memberToken : String × Json → List Token
  | (key, v) => .string (some key) :: .colon :: tokens v

/-- The tokens between the braces of an object. -/
def memberTokens : List (String × Json) → List Token
  | [] => []
  | [m] => memberToken m
  | m :: n :: rest => memberToken m ++ .comma :: memberTokens (n :: rest)

end

/-- The shortest text of a value. -/
def compact (v : Json) : String := String.ofList (v.tokens.flatMap Token.text)

/-! ## Indented text -/

/-- The start of a line, `depth` levels deep. -/
def lineStart (depth : Nat) : List Char := '\n' :: List.replicate (2 * depth) ' '

/-- Lays tokens out with one item or member to a line; an empty array or object stays closed up. -/
def layOut : Nat → List Token → List Char
  | _, [] => []
  | depth, .openBracket :: .closeBracket :: rest => '[' :: ']' :: layOut depth rest
  | depth, .openBrace :: .closeBrace :: rest => '\x7b' :: '\x7d' :: layOut depth rest
  | depth, t :: rest =>
    match t with
    | .openBracket | .openBrace => t.text ++ lineStart (depth + 1) ++ layOut (depth + 1) rest
    | .closeBracket | .closeBrace => lineStart (depth - 1) ++ t.text ++ layOut (depth - 1) rest
    | .comma => ',' :: lineStart depth ++ layOut depth rest
    | .colon => ':' :: ' ' :: layOut depth rest
    | _ => t.text ++ layOut depth rest

/-- The text of a value with two spaces of indentation for each level. -/
def pretty (v : Json) : String := String.ofList (layOut 0 v.tokens)

end Json

end EventSchema
