/-!
UTF-8 between text and bytes. `encode` writes a text, `decode?` reads only well-formed bytes, and
`decodeLossy` reads any bytes, with one replacement character for each maximal ill-formed part.

Main statements: reading back what was written gives the text again (`decode?_encode`,
`decodeLossy_encode`).
-/

namespace EventSchema

/-- Raw contents of a file or of a part of it. -/
abbrev Bytes := List UInt8

namespace Text.Utf8

/-! ## Writing -/

/-- The UTF-8 bytes of a text. -/
def encode (s : String) : Bytes := s.toList.flatMap String.utf8EncodeChar

/-- The number of bytes of a character after its first byte. -/
def moreBytes (b : UInt8) : Nat :=
  if 0xF0 ≤ b then 3 else if 0xE0 ≤ b then 2 else if 0xC0 ≤ b then 1 else 0

/-! ## Reading -/

/-- Reads `n` continuation bytes onto the code point read so far. Only the first of them is held to
`low` and `high`, which rule out overlong forms, surrogates and numbers past the last code point.
A byte that does not continue the sequence is left unread. -/
def continuation : Nat → Nat → Nat → Nat → Bytes → Option Nat × Bytes
  | 0, point, _, _, rest => (some point, rest)
  | _ + 1, _, _, _, [] => (none, [])
  | n + 1, point, low, high, b :: rest =>
    if low ≤ b.toNat ∧ b.toNat ≤ high then
      continuation n (point * 64 + b.toNat % 64) 0x80 0xBF rest
    else (none, b :: rest)

/-- Reads the sequence that starts with byte `b`: its code point, or `none` for a maximal
ill-formed part, and what follows it. -/
def sequence (b : UInt8) (rest : Bytes) : Option Nat × Bytes :=
  let n := b.toNat
  if n < 0x80 then (some n, rest)
  else if n < 0xC2 then (none, rest)
  else if n < 0xE0 then continuation 1 (n % 32) 0x80 0xBF rest
  else if n < 0xF0 then
    continuation 2 (n % 16) (if n = 0xE0 then 0xA0 else 0x80) (if n = 0xED then 0x9F else 0xBF) rest
  else if n < 0xF5 then
    continuation 3 (n % 8) (if n = 0xF0 then 0x90 else 0x80) (if n = 0xF4 then 0x8F else 0xBF) rest
  else (none, rest)

theorem continuation_length_le (n point low high : Nat) (t : Bytes) :
    (continuation n point low high t).2.length ≤ t.length := by
  induction t generalizing n point low high with
  | nil => cases n <;> simp [continuation]
  | cons b rest ih =>
    cases n with
    | zero => simp [continuation]
    | succ n =>
      simp only [continuation]
      split
      · exact Nat.le_succ_of_le (ih ..)
      · simp

theorem sequence_length_le (b : UInt8) (rest : Bytes) :
    (sequence b rest).2.length ≤ rest.length := by
  simp only [sequence]
  repeat' split
  all_goals first | exact Nat.le_refl _ | exact continuation_length_le ..

/-- The code points of a byte string, with `none` in place of each maximal ill-formed part. -/
def points : Bytes → List (Option Nat)
  | [] => []
  | b :: rest => (sequence b rest).1 :: points (sequence b rest).2
termination_by t => t.length
decreasing_by exact Nat.lt_succ_of_le (sequence_length_le b rest)

/-- The text of well-formed UTF-8. -/
def decode? (t : Bytes) : Option String :=
  ((points t).mapM fun p : Option Nat => p.map Char.ofNat).map String.ofList

/-- The text of any bytes; what is not UTF-8 reads as U+FFFD. -/
def decodeLossy (t : Bytes) : String :=
  String.ofList ((points t).map fun p : Option Nat => (p.map Char.ofNat).getD '\uFFFD')

/-! ## Reading back what was written -/

private theorem toNat_ofNat_byte {n : Nat} (h : n < 256) : (UInt8.ofNat n).toNat = n := by
  rw [UInt8.toNat_ofNat']
  omega

/-- The bytes of one character are read as its code point, whatever follows them. -/
theorem points_encodeChar_append (c : Char) (rest : Bytes) :
    points (String.utf8EncodeChar c ++ rest) = some c.toNat :: points rest := by
  have hv : c.toNat < 0xD800 ∨ (0xDFFF < c.toNat ∧ c.toNat < 0x110000) := c.valid
  have step : ∀ (b : UInt8) (t : Bytes), sequence b (t ++ rest) = (some c.toNat, rest) →
      points (b :: t ++ rest) = some c.toNat :: points rest := by
    intro b t h
    rw [List.cons_append, points, h]
  have hn : c.val.toNat = c.toNat := rfl
  unfold String.utf8EncodeChar
  simp only [hn]
  split
  · refine step _ [] ?_
    simp only [sequence, toNat_ofNat_byte (show c.toNat < 256 by omega), List.nil_append]
    rw [if_pos (by omega)]
  · split
    · refine step _ [_] ?_
      simp only [sequence, List.cons_append, List.nil_append, continuation,
        toNat_ofNat_byte (show c.toNat / 64 % 32 + 192 < 256 by omega),
        toNat_ofNat_byte (show c.toNat % 64 + 128 < 256 by omega)]
      rw [if_neg (by omega), if_neg (by omega), if_pos (by omega), if_pos (by omega)]
      refine congrArg (fun p => (some p, rest)) ?_
      omega
    · split
      · refine step _ [_, _] ?_
        simp only [sequence, List.cons_append, List.nil_append, continuation,
          toNat_ofNat_byte (show c.toNat / 4096 % 16 + 224 < 256 by omega),
          toNat_ofNat_byte (show c.toNat / 64 % 64 + 128 < 256 by omega),
          toNat_ofNat_byte (show c.toNat % 64 + 128 < 256 by omega)]
        rw [if_neg (by omega), if_neg (by omega), if_neg (by omega), if_pos (by omega),
          if_pos (by split <;> split <;> omega), if_pos (by omega)]
        refine congrArg (fun p => (some p, rest)) ?_
        omega
      · refine step _ [_, _, _] ?_
        simp only [sequence, List.cons_append, List.nil_append, continuation,
          toNat_ofNat_byte (show c.toNat / 262144 % 8 + 240 < 256 by omega),
          toNat_ofNat_byte (show c.toNat / 4096 % 64 + 128 < 256 by omega),
          toNat_ofNat_byte (show c.toNat / 64 % 64 + 128 < 256 by omega),
          toNat_ofNat_byte (show c.toNat % 64 + 128 < 256 by omega)]
        rw [if_neg (by omega), if_neg (by omega), if_neg (by omega), if_neg (by omega),
          if_pos (by omega), if_pos (by split <;> split <;> omega), if_pos (by omega),
          if_pos (by omega)]
        refine congrArg (fun p => (some p, rest)) ?_
        omega

theorem points_encodeChars (cs : List Char) :
    points (cs.flatMap String.utf8EncodeChar) = cs.map fun c => some c.toNat := by
  induction cs with
  | nil => simp [points]
  | cons c cs ih => rw [List.flatMap_cons, points_encodeChar_append, ih, List.map_cons]

private theorem mapM_some_chars (cs : List Char) :
    ((cs.map fun c => some c.toNat).mapM fun p : Option Nat => p.map Char.ofNat) = some cs := by
  induction cs with
  | nil => rfl
  | cons c cs ih => simp [List.mapM_cons, ih]

/-- Bytes that were written from a text are read as that text. -/
@[simp] theorem decode?_encode (s : String) : decode? (encode s) = some s := by
  rw [decode?, encode, points_encodeChars, mapM_some_chars, Option.map_some, String.ofList_toList]

@[simp] theorem decodeLossy_encode (s : String) : decodeLossy (encode s) = s := by
  simp [decodeLossy, encode, points_encodeChars, Function.comp_def]

@[simp] theorem encode_append (s t : String) : encode (s ++ t) = encode s ++ encode t := by
  simp [encode]

end Text.Utf8

end EventSchema
