import EventSchema.Json.Basic

/-!
Reading JSON text. The text is split into tokens, and the tokens are put together into a value with
an explicit stack of the arrays and objects that are still open, so nesting is limited by nothing.

Main statements: a token takes at least one character (`token?_length_lt`), and one step of the
assembly takes exactly one token (by the definition of `assemble`), so reading ends.
-/

namespace EventSchema.Json

open Text (Numeral.digit? Numeral.value)

/-! ## Strings -/

/-- The code unit of an escape, which follows a backslash, and the rest of the text. -/
def escape? : List Char → Option (Nat × List Char)
  | 'u' :: a :: b :: c :: d :: rest =>
    (Text.Numeral.read? 16 [a.toNat, b.toNat, c.toNat, d.toNat]).map (·, rest)
  | e :: rest =>
    ([('"', 0x22), ('\\', 0x5C), ('/', 0x2F), ('b', 0x08), ('f', 0x0C), ('n', 0x0A), ('r', 0x0D),
      ('t', 0x09)].lookup e).map (·, rest)
  | [] => none

theorem escape?_length_le {t : List Char} {r : Nat × List Char} (h : escape? t = some r) :
    r.2.length ≤ t.length := by
  rw [escape?.eq_def] at h
  split at h
  · obtain ⟨n, -, rfl⟩ := Option.map_eq_some_iff.1 h
    simp only [List.length_cons]
    omega
  · obtain ⟨n, -, rfl⟩ := Option.map_eq_some_iff.1 h
    simp
  · cases h

/-- Reads a string after its opening quote: its code units, where a character that is not escaped is
one unit, and the rest of the text. -/
def units? : List Char → Option (List Nat × List Char)
  | [] => none
  | c :: rest =>
    if c = '"' then some ([], rest)
    else if c = '\\' then
      match _h : escape? rest with
      | none => none
      | some (n, rest') => (units? rest').map fun r => (n :: r.1, r.2)
    else if c.toNat < 0x20 then none
    else (units? rest).map fun r => (c.toNat :: r.1, r.2)
termination_by t => t.length
decreasing_by
  · exact Nat.lt_succ_of_le (escape?_length_le _h)
  · simp

theorem units?_length_le {t : List Char} {r : List Nat × List Char} (h : units? t = some r) :
    r.2.length ≤ t.length := by
  fun_induction units? t generalizing r with
  | case1 => simp at h
  | case2 rest =>
    cases h
    simp
  | case3 => simp at h
  | case4 rest n rest' he _ ih =>
    obtain ⟨q, hq, rfl⟩ := Option.map_eq_some_iff.1 h
    have := ih hq
    have : rest'.length ≤ rest.length := escape?_length_le he
    simp only [List.length_cons]
    omega
  | case5 => simp at h
  | case6 c rest _ _ _ ih =>
    obtain ⟨q, hq, rfl⟩ := Option.map_eq_some_iff.1 h
    have := ih hq
    exact Nat.le_succ_of_le this

/-- Whether a code unit is the first half of a surrogate pair. -/
def isHigh (n : Nat) : Bool := decide (0xD800 ≤ n ∧ n ≤ 0xDBFF)

/-- Whether a code unit is the second half of a surrogate pair. -/
def isLow (n : Nat) : Bool := decide (0xDC00 ≤ n ∧ n ≤ 0xDFFF)

/-- The characters of code units; a half of a surrogate pair without the other has none. -/
def chars? : List Nat → Option (List Char)
  | [] => some []
  | [n] => if isHigh n ∨ isLow n then none else some [Char.ofNat n]
  | n :: m :: rest =>
    if isHigh n then
      if isLow m then
        (chars? rest).map (Char.ofNat (0x10000 + (n - 0xD800) * 0x400 + (m - 0xDC00)) :: ·)
      else none
    else if isLow n then none
    else (chars? (m :: rest)).map (Char.ofNat n :: ·)

/-! ## Numbers -/

/-- Splits a text after its leading decimal digits. -/
def digits (t : List Char) : List Char × List Char :=
  (t.takeWhile Char.isDigit, t.dropWhile Char.isDigit)

/-- What follows a fraction, if the text starts with one. A point needs digits after it. -/
def afterFraction? (t : List Char) : Option (List Char) :=
  match t with
  | '.' :: rest => if (digits rest).1.isEmpty then none else some (digits rest).2
  | _ => some t

/-- A text without a sign in front of it. -/
def afterSign (t : List Char) : List Char :=
  match t with
  | '+' :: rest => rest
  | '-' :: rest => rest
  | _ => t

/-- What follows an exponent, if the text starts with one. It needs digits. -/
def afterExponent? (t : List Char) : Option (List Char) :=
  match t with
  | [] => some []
  | c :: rest =>
    if c = 'e' ∨ c = 'E' then
      let exponent := digits (afterSign rest)
      if exponent.1.isEmpty then none else some exponent.2
    else some (c :: rest)

/-- Splits a text after the whole part of a number. A leading zero stands alone. -/
def wholePart (t : List Char) : List Char × List Char :=
  match t with
  | '0' :: rest => (['0'], rest)
  | _ => digits t

/-- Reads a number without sign: its value, if it has neither fraction nor exponent, and the rest of
the text. -/
def unsigned? (t : List Char) : Option (Option Nat × List Char) :=
  let whole := (wholePart t).1
  let rest := (wholePart t).2
  if whole.isEmpty then none
  else
    ((afterFraction? rest).bind afterExponent?).map fun rest' =>
      (if rest'.length = rest.length then Text.Numeral.read? 10 (whole.map Char.toNat) else none,
        rest')

/-! ## Tokens -/

/-- The characters that may stand between tokens. -/
def isBlank (c : Char) : Bool := c == ' ' || c == '\n' || c == '\t' || c == '\r'

/-- Reads the token that starts a text. -/
def token? : List Char → Option (Token × List Char)
  | '\x7b' :: rest => some (.openBrace, rest)
  | '\x7d' :: rest => some (.closeBrace, rest)
  | '[' :: rest => some (.openBracket, rest)
  | ']' :: rest => some (.closeBracket, rest)
  | ':' :: rest => some (.colon, rest)
  | ',' :: rest => some (.comma, rest)
  | 'n' :: 'u' :: 'l' :: 'l' :: rest => some (.null, rest)
  | 't' :: 'r' :: 'u' :: 'e' :: rest => some (.bool true, rest)
  | 'f' :: 'a' :: 'l' :: 's' :: 'e' :: rest => some (.bool false, rest)
  | '"' :: rest => (units? rest).map fun r => (.string ((chars? r.1).map String.ofList), r.2)
  | '-' :: rest => (unsigned? rest).map fun r => (.number none, r.2)
  | t => (unsigned? t).map fun r => (.number r.1, r.2)

theorem digits_length (t : List Char) : (digits t).1.length + (digits t).2.length = t.length := by
  rw [digits, ← List.length_append, List.takeWhile_append_dropWhile]

theorem afterFraction?_length_le {t rest : List Char} (h : afterFraction? t = some rest) :
    rest.length ≤ t.length := by
  rw [afterFraction?.eq_def] at h
  split at h
  · next tail =>
    simp only [Option.ite_none_left_eq_some, Option.some.injEq] at h
    have := digits_length tail
    rw [← h.2, List.length_cons]
    omega
  · cases h
    exact Nat.le_refl _

theorem afterSign_length_le (t : List Char) : (afterSign t).length ≤ t.length := by
  rw [afterSign.eq_def]
  split <;> simp

theorem afterExponent?_length_le {t rest : List Char} (h : afterExponent? t = some rest) :
    rest.length ≤ t.length := by
  rw [afterExponent?.eq_def] at h
  split at h
  · cases h
    exact Nat.le_refl _
  · next c tail =>
    split at h
    · simp only [Option.ite_none_left_eq_some, Option.some.injEq] at h
      have h1 := digits_length (afterSign tail)
      have h2 := afterSign_length_le tail
      rw [← h.2, List.length_cons]
      omega
    · cases h
      exact Nat.le_refl _

theorem wholePart_length (t : List Char) :
    (wholePart t).1.length + (wholePart t).2.length = t.length := by
  rw [wholePart.eq_def]
  split
  · simp only [List.length_cons, List.length_nil]
    omega
  · exact digits_length t

theorem unsigned?_length_lt {t : List Char} {r : Option Nat × List Char}
    (h : unsigned? t = some r) :
    r.2.length < t.length := by
  simp only [unsigned?, Option.ite_none_left_eq_some, Option.map_eq_some_iff,
    Option.bind_eq_some_iff] at h
  obtain ⟨hne, v, ⟨u, hu, hv⟩, rfl⟩ := h
  have h1 := afterExponent?_length_le hv
  have h2 := afterFraction?_length_le hu
  have h3 := wholePart_length t
  have h4 : 0 < (wholePart t).1.length := List.length_pos_iff.2 (by simpa using hne)
  dsimp only
  omega

/-- A token takes at least one character. -/
theorem token?_length_lt {t : List Char} {r : Token × List Char} (h : token? t = some r) :
    r.2.length < t.length := by
  rw [token?.eq_def] at h
  split at h
  case h_10 =>
    obtain ⟨q, hq, rfl⟩ := Option.map_eq_some_iff.1 h
    exact Nat.lt_succ_of_le (units?_length_le hq)
  case h_11 =>
    obtain ⟨q, hq, rfl⟩ := Option.map_eq_some_iff.1 h
    exact Nat.lt_succ_of_lt (unsigned?_length_lt hq)
  case h_12 =>
    obtain ⟨q, hq, rfl⟩ := Option.map_eq_some_iff.1 h
    exact unsigned?_length_lt hq
  all_goals
    cases h
    simp only [List.length_cons]
    omega

/-- The tokens of a text. -/
def tokens? : List Char → Option (List Token)
  | [] => some []
  | c :: rest =>
    if isBlank c then tokens? rest
    else
      match _h : token? (c :: rest) with
      | none => none
      | some (t, rest') => (tokens? rest').map (t :: ·)
termination_by t => t.length
decreasing_by
  · simp
  · exact token?_length_lt _h

/-! ## Assembly -/

/-- An array or an object that is still open around the value being read. The last item or member
read comes first. -/
inductive Frame
  | items (before : List Json)
  | members (before : List (Option String × Json)) (key : Option String)

/-- What may come next. -/
inductive Expected
  | value
  /-- The first item of an array, or its end. -/
  | firstItem
  /-- The first key of an object, or its end. -/
  | firstKey
  | key (before : List (Option String × Json))
  | colon (before : List (Option String × Json)) (key : Option String)
  /-- Whatever may follow a value. -/
  | after (v : Json)

/-- An object from its members; one with a key that has no counterpart has none itself. -/
def ofMembers (members : List (Option String × Json)) : Json :=
  match members.mapM fun m => m.1.map (·, m.2) with
  | some members => .object members
  | none => .foreign

/-- Takes the first token of a value. -/
def startValue (frames : List Frame) : Token → Option (Expected × List Frame)
  | .null => some (.after .null, frames)
  | .bool b => some (.after (.bool b), frames)
  | .number (some n) => some (.after (.number n), frames)
  | .string (some s) => some (.after (.string s), frames)
  | .number none | .string none => some (.after .foreign, frames)
  | .openBracket => some (.firstItem, frames)
  | .openBrace => some (.firstKey, frames)
  | _ => none

/-- Takes one token. -/
def take (expected : Expected) (frames : List Frame) (t : Token) : Option (Expected × List Frame) :=
  match expected, frames, t with
  | .value, _, _ => startValue frames t
  | .firstItem, _, .closeBracket => some (.after (.array []), frames)
  | .firstItem, _, _ => startValue (.items [] :: frames) t
  | .firstKey, _, .closeBrace => some (.after (.object []), frames)
  | .firstKey, _, .string key => some (.colon [] key, frames)
  | .key before, _, .string key => some (.colon before key, frames)
  | .colon before key, _, .colon => some (.value, .members before key :: frames)
  | .after v, .items before :: outer, .comma => some (.value, .items (v :: before) :: outer)
  | .after v, .items before :: outer, .closeBracket =>
    some (.after (.array (v :: before).reverse), outer)
  | .after v, .members before key :: outer, .comma => some (.key ((key, v) :: before), outer)
  | .after v, .members before key :: outer, .closeBrace =>
    some (.after (ofMembers ((key, v) :: before).reverse), outer)
  | _, _, _ => none

/-- Takes all tokens; they have to end with the value. -/
def assemble (expected : Expected) (frames : List Frame) : List Token → Option Json
  | [] =>
    match expected, frames with
    | .after v, [] => some v
    | _, _ => none
  | t :: rest =>
    match take expected frames t with
    | none => none
    | some (expected', frames') => assemble expected' frames' rest

/-- Reads a text that is one value, with blanks around it or not. -/
def parse? (text : String) : Option Json := do
  assemble .value [] (← tokens? text.toList)

end EventSchema.Json
