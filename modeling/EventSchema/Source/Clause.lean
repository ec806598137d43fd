import EventSchema.Source.Context
import EventSchema.Text.Blank

/-!
Clauses as method and arguments. The argument list of a clause is first read as pieces, then split
at its top-level commas; comments, directives and blanks of an argument become one space between
its words and none at its ends, and empty arguments are dropped.

Main statement: the pieces of an argument that are not blank keep their bytes and their order
(`joined_filter`).
-/

namespace EventSchema.Source

open Text (isBlankByte)
open Text.Utf8 (moreBytes)

/-- Why a text is not a clause. -/
inductive ClauseFault
  /-- A literal stands between the method and its `(`. -/
  | literalBeforeGroup
  /-- Another byte stands between the method and its `(`. -/
  | byteBeforeGroup (b : UInt8)
  /-- There is no `(` after the method. -/
  | noArguments
  /-- The argument list does not end. -/
  | unclosedArguments
  deriving DecidableEq, Repr

/-- A clause as written: the arguments are not yet decoded. -/
structure Clause where
  method : String
  args : List String
  deriving DecidableEq, Repr

/-- The text of a clause, its arguments as they are written. -/
def Clause.text (c : Clause) : String := c.method ++ "(" ++ ", ".intercalate c.args ++ ")"

/-! ## Before the argument list -/

/-- A text without the comments, directives and blanks it starts with. -/
def afterTrivia (t : Bytes) : Bytes :=
  match _h : skip? t with
  | some s => if s.context = .literal then t else afterTrivia s.rest
  | none =>
    match t with
    | [] => []
    | b :: rest => if isBlankByte b then afterTrivia rest else b :: rest
termination_by t.length
decreasing_by
  · exact skip?_length_lt _h
  · simp

/-- Letters, digits and the underscore make up method names. -/
def isWordByte (b : UInt8) : Bool :=
  (0x30 ≤ b && b ≤ 0x39) || (0x41 ≤ b && b ≤ 0x5A) || (0x61 ≤ b && b ≤ 0x7A) || b == 0x5F

/-- What follows the `(` that opens the argument list; only trivia may precede it. -/
def openArguments (t : Bytes) : Except ClauseFault Bytes :=
  match afterTrivia t with
  | [] => .error .noArguments
  | b :: rest =>
    if b = leftParen then .ok rest
    else if b = doubleQuote then .error .literalBeforeGroup
    else .error (.byteBeforeGroup b)

/-! ## The argument list in pieces -/

/-- A piece of an argument list. -/
inductive Piece
  /-- A comment, a directive or a blank. -/
  | gap
  | opening
  | closing
  | separator
  /-- A literal, or one character of anything else. -/
  | word (text : Bytes)
  deriving DecidableEq, Repr

namespace Piece

/-- The piece that one byte outside comments, directives and literals makes, if it is not part of a
word. -/
def ofByte? (b : UInt8) : Option Piece :=
  if b = leftParen then some .opening
  else if b = rightParen then some .closing
  else if b = comma then some .separator
  else if isBlankByte b then some .gap
  else none

/-- What a piece contributes to the text of an argument. -/
def text : Piece → Bytes
  | .gap => []
  | .opening => [leftParen]
  | .closing => [rightParen]
  | .separator => [comma]
  | .word t => t

end Piece

/-- The pieces of a text. A character that is not of one byte is taken as a whole. -/
def pieces (t : Bytes) : List Piece :=
  match _h : skip? t with
  | some s =>
    (if s.context = .literal then Piece.word s.text else Piece.gap) :: pieces s.rest
  | none =>
    match t with
    | [] => []
    | b :: rest =>
      match Piece.ofByte? b with
      | some p => p :: pieces rest
      | none => .word (b :: rest.take (moreBytes b)) :: pieces (rest.drop (moreBytes b))
termination_by t.length
decreasing_by
  · exact skip?_length_lt _h
  · simp
  · simp only [List.length_drop, List.length_cons]
    omega

/-! ## Arguments -/

/-- Puts a piece in front of the first of some arguments. -/
def extendFirst (p : Piece) : List (List Piece) → List (List Piece)
  | [] => [[p]]
  | first :: others => (p :: first) :: others

/-- The arguments up to the `)` that closes the list, when `depth` groups are open inside it, and the
pieces after it. -/
def arguments : Nat → List Piece → Option (List (List Piece) × List Piece)
  | _, [] => none
  | depth, .opening :: rest => (arguments (depth + 1) rest).map (Prod.map (extendFirst .opening) id)
  | 0, .closing :: rest => some ([[]], rest)
  | depth + 1, .closing :: rest => (arguments depth rest).map (Prod.map (extendFirst .closing) id)
  | 0, .separator :: rest => (arguments 0 rest).map (Prod.map ([] :: ·) id)
  | depth, p :: rest => (arguments depth rest).map (Prod.map (extendFirst p) id)

/-- Joins pieces with one space in place of each run of gaps between two of them; `owed` tells
whether a gap came right before. -/
def joined (owed : Bool) : List Piece → Bytes
  | [] => []
  | .gap :: rest => joined true rest
  | p :: rest => (if owed then [space] else []) ++ p.text ++ joined false rest

/-- The text of an argument. -/
def argumentText (ps : List Piece) : Bytes := joined false (ps.dropWhile (· == .gap))

theorem joined_filter (owed : Bool) (ps : List Piece) (h : ∀ p ∈ ps, p ≠ .gap) :
    joined owed ps = (if owed ∧ ps ≠ [] then [space] else []) ++ ps.flatMap Piece.text := by
  induction ps generalizing owed with
  | nil => simp [joined]
  | cons p rest ih =>
    have hp : p ≠ .gap := h p (by simp)
    have hrest := ih false fun q hq => h q (List.mem_cons_of_mem _ hq)
    cases p <;> simp_all [joined]

/-- A clause in bytes, as far as it was read. -/
structure SplitClause where
  method : Bytes
  args : List Bytes
  /-- What follows the `)` that closes the argument list. -/
  unread : List Piece
  deriving DecidableEq, Repr

/-- Splits a clause into its method and its arguments, without those that are empty. -/
def splitClause (t : Bytes) : Except ClauseFault SplitClause :=
  let start := afterTrivia t
  match openArguments (start.dropWhile isWordByte) with
  | .error fault => .error fault
  | .ok body =>
    match arguments 0 (pieces body) with
    | none => .error .unclosedArguments
    | some (args, unread) => .ok {
        method := start.takeWhile isWordByte
        args := (args.map argumentText).filter (· ≠ [])
        unread }

/-- The texts of a clause that was split. -/
def SplitClause.clause (c : SplitClause) : Clause :=
  ⟨Text.Utf8.decodeLossy c.method, c.args.map Text.Utf8.decodeLossy⟩

/-- Reads a clause as it stands between its marker and the end of its group. -/
def Clause.parse (text : String) : Except ClauseFault Clause :=
  (splitClause (Text.Utf8.encode text)).map SplitClause.clause

end EventSchema.Source
