import EventSchema.Text.Utf8

/-!
The contexts of a source text in which nothing is read as schema text: comments, directive lines
and quoted literals. `skip?` reads the context that starts a byte string, and every reader of source
text goes through it, so they agree on where a context ends.

Main statements: what is skipped and what is left make up the text (`skip?_append`), and something
is always skipped (`skip?_length_lt`), so every loop that skips contexts ends.
-/

namespace EventSchema.Source

/-! ## The bytes that matter -/

abbrev newline : UInt8 := 0x0A
abbrev space : UInt8 := 0x20
abbrev doubleQuote : UInt8 := 0x22
abbrev hash : UInt8 := 0x23
abbrev leftParen : UInt8 := 0x28
abbrev rightParen : UInt8 := 0x29
abbrev star : UInt8 := 0x2A
abbrev comma : UInt8 := 0x2C
abbrev slash : UInt8 := 0x2F
abbrev backslash : UInt8 := 0x5C

/-! ## Ends of contexts -/

/-- Splits a text after its first `*/`; without one all of it is taken. -/
def throughCommentEnd : Bytes → Bytes × Bytes
  | [] => ([], [])
  | b :: rest =>
    if b = star ∧ rest.head? = some slash then ([b, slash], rest.tail)
    else ((b :: (throughCommentEnd rest).1), (throughCommentEnd rest).2)

/-- Splits a text before its first newline. -/
def throughLine : Bytes → Bytes × Bytes
  | [] => ([], [])
  | b :: rest =>
    if b = newline then ([], b :: rest)
    else (b :: (throughLine rest).1, (throughLine rest).2)

/-- Splits a text where a directive line ends: before its first newline or, if a block comment opens
earlier, after that comment. -/
def throughDirective : Bytes → Bytes × Bytes
  | [] => ([], [])
  | b :: rest =>
    if b = newline then ([], b :: rest)
    else if b = slash ∧ rest.head? = some star then
      (b :: star :: (throughCommentEnd rest.tail).1, (throughCommentEnd rest.tail).2)
    else (b :: (throughDirective rest).1, (throughDirective rest).2)

/-- Splits a text after its first double quote; a backslash takes the byte after it along. -/
def throughQuote : Bytes → Bytes × Bytes
  | [] => ([], [])
  | [b] => ([b], [])
  | b :: c :: rest =>
    if b = doubleQuote then ([b], c :: rest)
    else if b = backslash then (b :: c :: (throughQuote rest).1, (throughQuote rest).2)
    else (b :: (throughQuote (c :: rest)).1, (throughQuote (c :: rest)).2)

theorem throughCommentEnd_append (t : Bytes) :
    (throughCommentEnd t).1 ++ (throughCommentEnd t).2 = t := by
  induction t with
  | nil => rfl
  | cons b rest ih =>
    rw [throughCommentEnd]
    split
    · next h =>
      cases rest with
      | nil => simp at h
      | cons c rest => simpa using h.2.symm
    · simp [ih]

theorem throughLine_append (t : Bytes) : (throughLine t).1 ++ (throughLine t).2 = t := by
  induction t with
  | nil => rfl
  | cons b rest ih =>
    rw [throughLine]
    split
    · rfl
    · simp [ih]

theorem throughDirective_append (t : Bytes) :
    (throughDirective t).1 ++ (throughDirective t).2 = t := by
  induction t with
  | nil => rfl
  | cons b rest ih =>
    rw [throughDirective]
    split
    · rfl
    · split
      · next h =>
        cases rest with
        | nil => simp at h
        | cons c rest => simpa [throughCommentEnd_append] using h.2.symm
      · simp [ih]

theorem throughQuote_append (t : Bytes) : (throughQuote t).1 ++ (throughQuote t).2 = t := by
  fun_induction throughQuote t <;> simp_all

/-! ## Contexts -/

/-- What hides schema text from its readers. -/
inductive Context
  | comment
  | directive
  | literal
  deriving DecidableEq, Repr

/-- A context at the start of a text: its kind, its text and what follows. -/
structure Skip where
  context : Context
  text : Bytes
  rest : Bytes
  deriving DecidableEq, Repr

/-- Reads the context that starts a text, if one does. A slash starts a comment only together with
a star or another slash. -/
def skip? : Bytes → Option Skip
  | [] => none
  | b :: rest =>
    if b = slash then
      if rest.head? = some star then
        some ⟨.comment, b :: star :: (throughCommentEnd rest.tail).1,
          (throughCommentEnd rest.tail).2⟩
      else if rest.head? = some slash then
        some ⟨.comment, b :: (throughLine rest).1, (throughLine rest).2⟩
      else none
    else if b = hash then
      some ⟨.directive, b :: (throughDirective rest).1, (throughDirective rest).2⟩
    else if b = doubleQuote then
      some ⟨.literal, b :: (throughQuote rest).1, (throughQuote rest).2⟩
    else none

/-- What is skipped and what is left make up the text. -/
theorem skip?_append {t : Bytes} {s : Skip} (h : skip? t = some s) : s.text ++ s.rest = t := by
  cases t with
  | nil => simp [skip?] at h
  | cons b rest =>
    rw [skip?] at h
    split at h
    · split at h
      · next hs =>
        cases rest with
        | nil => simp at hs
        | cons c rest =>
          cases h
          simpa [throughCommentEnd_append] using hs.symm
      · split at h
        · cases h
          simp [throughLine_append]
        · cases h
    · split at h
      · cases h
        simp [throughDirective_append]
      · split at h
        · cases h
          simp [throughQuote_append]
        · cases h

theorem skip?_text_ne_nil {t : Bytes} {s : Skip} (h : skip? t = some s) : s.text ≠ [] := by
  cases t with
  | nil => simp [skip?] at h
  | cons b rest =>
    rw [skip?] at h
    repeat' split at h
    all_goals cases h
    all_goals exact List.cons_ne_nil _ _

/-- A context has at least one byte. -/
theorem skip?_length_lt {t : Bytes} {s : Skip} (h : skip? t = some s) :
    s.rest.length < t.length := by
  have := List.length_pos_iff.2 (skip?_text_ne_nil h)
  rw [← skip?_append h, List.length_append]
  omega

/-! ## Readers that fail -/

/-- A result that was made into another one was a success before. -/
theorem map_eq_ok {ε α β : Type} {x : Except ε α} {f : α → β} {b : β} (h : x.map f = .ok b) :
    ∃ a, x = .ok a ∧ f a = b := by
  cases x with
  | error e => cases h
  | ok a => exact ⟨a, rfl, Except.ok.inj h⟩

end EventSchema.Source
