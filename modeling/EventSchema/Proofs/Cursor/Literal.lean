import EventSchema.Proofs.Cursor.Basic
import EventSchema.Proofs.Source.LiteralForm

/-!
# Decoding literals by position

A literal decoded with a cursor: its mark and its quotes are taken off, and its body is gone through
by a loop, with escapes of as many digits as there are. No byte is asked for that is not there, and
the mark is taken off as a whole character (`decodeLiteral_eq`).
-/

namespace EventSchema.Source.Cursor

open Literal
open Text (Numeral.digit?)
open Text.Utf8 hiding decode?

variable {wide : Bool} {t u r body : Bytes} {b : UInt8} {i : Nat}

/-! ## Escapes -/

/-- The number of digits at a position, at most `count`. -/
def digitRun (base count : Nat) (body : Bytes) (i : Nat) : Checked Nat := do
  let rest ← part body i body.length
  return (digits base count rest).length

/-- A code point escape whose digits are at a position, and the position behind it. -/
def codePointAt (count : Nat) (body : Bytes) (i : Nat) : Checked (Except Fault (Bytes × Nat)) := do
  if (← digitRun 16 count body i) ≠ count then return .error (.hexDigitsNeeded count)
  else
    let ds ← part body i (i + count)
    return ((escapeValue 16 ds).bind codePoint).map fun bytes => (bytes, i + count)

/-- The escape with the letter `b`, which is right before a position. -/
def escapeLetter (wide : Bool) (body : Bytes) (i : Nat) (b : UInt8) :
    Checked (Except Fault (Bytes × Nat)) :=
  match simpleEscape? b with
  | some c => return .ok ([c], i)
  | none =>
    if b = 0x78 then do
      let count ← digitRun 16 2 body i
      if count = 0 then return .error .noHexDigits
      else
        let ds ← part body i (i + count)
        return (numericEscape wide 16 ds).map fun bytes => (bytes, i + count)
    else if b = 0x75 then codePointAt 4 body i
    else if b = 0x55 then codePointAt 8 body i
    else if (Numeral.digit? 8 b.toNat).isSome then do
      -- the letter is the first digit
      let more ← digitRun 8 1 body i
      let ds ← part body (← decrease i) (i + more)
      return (numericEscape wide 8 ds).map fun bytes => (bytes, i + more)
    else return .error (.unknownEscape b)

/-- The escape at a position, and the position behind it. -/
def escapeAt (wide : Bool) (body : Bytes) (i : Nat) : Checked (Except Fault (Bytes × Nat)) :=
  match body[i]? with
  | none => return .error .unfinishedEscape
  | some b => escapeLetter wide body (i + 1) b

/-- What is read of a text, and the position behind it in place of what is left. -/
def readTo (t : Bytes) (r : Bytes × Bytes) : Bytes × Nat := (r.1, t.length - r.2.length)

theorem Ahead.position (h : Ahead t i u) : t.length - u.length = i := by
  have hlength := h.length
  omega

/-- The position behind what is read is where the cursor stands before what is left. -/
theorem Ahead.map_readTo (h : Ahead t i u) (x : Except Fault Bytes) :
    (x.map fun bytes => (bytes, u)).map (readTo t) = x.map fun bytes => (bytes, i) := by
  cases x with
  | error fault => rfl
  | ok bytes =>
    change Except.ok (bytes, t.length - u.length) = .ok (bytes, i)
    rw [h.position]

theorem digitRun_eq {base count : Nat} {ds rest : Bytes} (h : Ahead body i (ds ++ rest))
    (hrun : Run base count ds rest) : digitRun base count body i = .ok ds.length := by
  rw [digitRun, h.part_all, ok_bind, digits_append hrun]
  rfl

theorem codePointAt_eq (count : Nat) (h : Ahead body i u) : codePointAt count body i =
    .ok ((codePointEscape count u).map (readTo body)) := by
  obtain ⟨ds, rest, rfl, hrun⟩ := exists_run 16 count u
  rw [codePointAt, digitRun_eq h hrun, ok_bind, codePointEscape, digits_append hrun]
  by_cases hcount : ds.length = count
  · subst hcount
    have hpoint : (do
          let n ← escapeValue 16 ds
          return (← codePoint n, rest) : Except Fault (Bytes × Bytes)) =
        ((escapeValue 16 ds).bind codePoint).map fun bytes => (bytes, rest) := by
      cases escapeValue 16 ds <;> rfl
    rw [if_neg (not_not_intro rfl), if_neg (not_not_intro rfl), h.part, ok_bind, List.drop_left,
      hpoint, h.append.map_readTo]
    rfl
  · rw [if_pos hcount, if_pos hcount]
    rfl

/-- **An escape ends at the position where its text ends.** -/
theorem escapeLetter_eq (h : Ahead body i (b :: u)) : escapeLetter wide body (i + 1) b =
    .ok ((readEscape wide (b :: u)).map (readTo body)) := by
  have hletter := h.cons
  rw [escapeLetter, readEscape]
  cases simpleEscape? b with
  | some c =>
    change Except.ok (Except.ok ([c], i + 1)) = .ok (.ok ([c], body.length - u.length))
    rw [hletter.position]
  | none =>
    dsimp only
    by_cases hhex : b = 0x78
    · obtain ⟨ds, rest, rfl, hrun⟩ := exists_run 16 2 u
      rw [if_pos hhex, if_pos hhex, digitRun_eq hletter hrun, ok_bind, digits_append hrun]
      cases ds with
      | nil => rfl
      | cons d ds =>
        rw [if_neg (by simp), if_neg (by simp), hletter.part, ok_bind, List.drop_left,
          hletter.append.map_readTo]
        rfl
    rw [if_neg hhex, if_neg hhex]
    by_cases hshort : b = 0x75
    · rw [if_pos hshort, if_pos hshort, codePointAt_eq 4 hletter]
    rw [if_neg hshort, if_neg hshort]
    by_cases hlong : b = 0x55
    · rw [if_pos hlong, if_pos hlong, codePointAt_eq 8 hletter]
    rw [if_neg hlong, if_neg hlong]
    by_cases hoctal : (Numeral.digit? 8 b.toNat).isSome = true
    · obtain ⟨ds, rest, rfl, hrun⟩ := exists_run 8 1 u
      have hdigits : Ahead body i ((b :: ds) ++ rest) := h
      have hlength : i + 1 + ds.length = i + (b :: ds).length := by
        rw [List.length_cons]
        omega
      rw [if_pos hoctal, if_pos hoctal, digitRun_eq hletter hrun, ok_bind, hlength,
        digits_cons_of_isDigit hoctal, digits_append hrun, decrease, ok_bind, hdigits.part, ok_bind,
        ← List.cons_append, List.drop_left, hdigits.append.map_readTo]
      rfl
    · rw [if_neg hoctal, if_neg hoctal]
      rfl

theorem escapeAt_eq (h : Ahead body i u) : escapeAt wide body i =
    .ok ((readEscape wide u).map (readTo body)) := by
  rw [escapeAt, h.head?]
  cases u with
  | nil => rfl
  | cons b u => exact escapeLetter_eq h

/-! ## Bodies -/

structure BodyState where
  position : Nat
  out : Bytes

/-- An escape adds what it stands for. -/
def bodyEscape (out : Bytes) : Except Fault (Bytes × Nat) → Turn BodyState (Except Fault Bytes)
  | .error fault => .done (.error fault)
  | .ok (bytes, e) => .again ⟨e, out ++ bytes⟩

/-- Goes through the body of a literal. -/
def bodyLoop (wide : Bool) (body : Bytes) : Loop BodyState (Except Fault Bytes) where
  bound := body.length
  position := BodyState.position
  turn s := do
    if s.position < body.length then
      let b ← byteAt body s.position
      if b = doubleQuote then return .done (.error .innerQuote)
      else if b = backslash then
        return bodyEscape s.out (← escapeAt wide body (s.position + 1))
      else return .again ⟨s.position + 1, s.out ++ [b]⟩
    else return .done (.ok s.out)

variable {out : Bytes}

theorem bodyLoop_end (h : ¬ i < body.length) :
    (bodyLoop wide body).turn ⟨i, out⟩ = .ok (.done (.ok out)) := by
  simp only [bodyLoop, if_neg h, pure_eq_ok]

theorem bodyLoop_byte (h : Ahead body i (b :: u)) (wide : Bool) (out : Bytes) :
    (bodyLoop wide body).turn ⟨i, out⟩ = .ok (if b = doubleQuote then .done (.error .innerQuote)
      else if b = backslash then bodyEscape out ((readEscape wide u).map (readTo body))
      else .again ⟨i + 1, out ++ [b]⟩) := by
  simp only [bodyLoop, if_pos h.lt, h.byteAt, escapeAt_eq h.cons, ok_bind, pure_eq_ok]
  split
  · rfl
  · split <;> rfl

theorem bodyLoop_advances (wide : Bool) (body : Bytes) : (bodyLoop wide body).Advances := by
  refine Loop.advances_of_ahead rfl (fun s hs => ⟨_, bodyLoop_end hs⟩) ?_
  rintro ⟨i, out⟩ s' b u (h : Ahead body i (b :: u)) hturn
  rw [bodyLoop_byte h] at hturn
  split at hturn
  · cases hturn
  · split at hturn
    · cases hread : readEscape wide u with
      | error fault =>
        rw [hread] at hturn
        cases hturn
      | ok r =>
        rw [hread] at hturn
        cases hturn
        have hlength := h.cons.length
        have hle := readEscape_length_le hread
        change i < body.length - r.2.length
        omega
    · cases hturn
      exact Nat.lt_succ_self i

/-- **A body stands for what it is decoded to.** -/
theorem run_bodyLoop (h : Ahead body i u) : (bodyLoop wide body).run ⟨i, out⟩ =
    .ok ((decodeBody wide u).map (out ++ ·)) := by
  have again {s s' : BodyState} (h : (bodyLoop wide body).turn s = .ok (.again s')) :=
    (bodyLoop_advances wide body).run_again h
  induction u using body_induction wide generalizing i out with
  | nil =>
    rw [Loop.run_done (bodyLoop_end h.not_lt), decodeBody]
    simp [Except.map]
  | plain b u hb ih =>
    have hturn := bodyLoop_byte h wide out
    rw [if_neg hb.1, if_neg hb.2] at hturn
    rw [again hturn, ih h.cons, decodeBody_cons hb]
    cases decodeBody wide u <;> simp [Except.map]
  | escape spelling meaning rest hescape ih =>
    have hturn := bodyLoop_byte h wide out
    have hread := readEscape_of_escape hescape
    rw [if_neg (by decide), if_pos rfl, hread] at hturn
    have hbehind := h.cons.append
    rw [← hbehind.position] at hbehind
    rw [again hturn, ih hbehind, decodeBody_backslash hread]
    cases decodeBody wide rest <;> simp [Except.map]
  | quote u =>
    have hturn := bodyLoop_byte h wide out
    rw [Loop.run_done hturn, decodeBody_doubleQuote]
    rfl
  | cut =>
    have hturn := bodyLoop_byte h wide out
    rw [Loop.run_done hturn, decodeBody_refused rfl]
    rfl
  | refused b u fault hrefused hfault =>
    have hturn := bodyLoop_byte h wide out
    rw [if_neg (by decide), if_pos rfl, hrefused] at hturn
    rw [Loop.run_done hturn, decodeBody_refused hrefused]
    rfl

/-! ## Literals -/

/-- Whether a literal is wide, and its text without the mark. -/
def withoutMark (t : Bytes) : Checked (Bool × Bytes) :=
  match t[0]? with
  | none => return (false, t)
  | some b =>
    if b = 0x4C ∨ b = 0x75 then return (true, ← textPart t 1 t.length) else return (false, t)

/-- What stands between the quotes, if a text starts and ends with one. -/
def betweenQuotes (t : Bytes) : Checked (Option Bytes) := do
  if t.length < 2 then return none
  else if (← byteAt t 0) ≠ doubleQuote then return none
  else
    let last ← decrease t.length
    if (← byteAt t last) ≠ doubleQuote then return none
    else return some (← part t 1 last)

def decodeBytesAt (t : Bytes) : Checked (Except Fault Bytes) := do
  let (wide, quoted) ← withoutMark t
  match ← betweenQuotes quoted with
  | none => return .error .notQuoted
  | some body => (bodyLoop wide body).run ⟨0, []⟩

/-- Decodes a literal. -/
def decodeLiteral (literal : String) : Checked (Except Fault String) := do
  match ← decodeBytesAt (encode literal) with
  | .error fault => return .error fault
  | .ok bytes =>
    match Text.Utf8.decode? bytes with
    | some s => return .ok s
    | none => return .error .notUtf8

/-- The mark of a literal is a character by itself. -/
theorem withoutMark_eq (ht : WellFormed t) : withoutMark t = .ok (splitWidth t) := by
  cases t with
  | nil => rfl
  | cons b u =>
    have h := (ahead_zero (b :: u)).cons
    rw [withoutMark, List.getElem?_cons_zero, splitWidth]
    dsimp only
    by_cases hmark : b = 0x4C ∨ b = 0x75
    · have hascii : IsAscii b := by rcases hmark with rfl | rfl <;> decide
      have hu : WellFormed u := wellFormed_of_ascii_cons hascii ht
      have hpart := Ahead.textPart (a := u) (r := []) (by rwa [List.append_nil])
        (by rwa [List.append_nil]) wellFormed_nil
      rw [h.length] at hpart
      rw [if_pos hmark, if_pos hmark, hpart]
      rfl
    · rw [if_neg hmark, if_neg hmark]
      rfl

theorem betweenQuotes_eq (t : Bytes) : betweenQuotes t = .ok (body? t) := by
  cases t with
  | nil => rfl
  | cons b u =>
    rcases List.eq_nil_or_concat u with rfl | ⟨init, c, rfl⟩
    · rw [body?, if_neg (by simp)]
      rfl
    · rw [List.concat_eq_append]
      have hinit := (ahead_zero (b :: (init ++ [c]))).cons
      have hlength : (b :: (init ++ [c])).length = 0 + 1 + init.length + 1 :=
        hinit.append.length.symm
      rw [betweenQuotes, (ahead_zero _).byteAt, hlength, if_neg (by omega), decrease, ok_bind,
        ok_bind, hinit.append.byteAt, ok_bind, hinit.part, body?, List.getLast?_concat,
        List.dropLast_concat]
      by_cases hfirst : b = doubleQuote
      · by_cases hlast : c = doubleQuote
        · rw [if_neg (not_not_intro hfirst), if_neg (not_not_intro hlast),
            if_pos ⟨hfirst, congrArg some hlast⟩]
          rfl
        · rw [if_neg (not_not_intro hfirst), if_pos hlast,
            if_neg fun h => hlast (Option.some.inj h.2)]
          rfl
      · rw [if_pos hfirst, if_neg fun h => hfirst h.1]
        rfl

theorem decodeBytesAt_eq (ht : WellFormed t) : decodeBytesAt t = .ok (decodeBytes t) := by
  rw [decodeBytesAt, withoutMark_eq ht, ok_bind, decodeBytes]
  dsimp only
  rw [betweenQuotes_eq, ok_bind]
  cases body? (splitWidth t).2 with
  | none => rfl
  | some body =>
    dsimp only
    rw [run_bodyLoop (ahead_zero body)]
    cases decodeBody (splitWidth t).1 body <;> rfl

/-- **Decoding by position never panics**, and gives what the literal stands for. -/
theorem decodeLiteral_eq (literal : String) :
    decodeLiteral literal = .ok (Literal.decode literal) := by
  rw [decodeLiteral, decodeBytesAt_eq (wellFormed_encode literal), ok_bind, Literal.decode]
  cases decodeBytes (encode literal) with
  | error fault => rfl
  | ok bytes =>
    simp only [bind, Except.bind]
    cases Text.Utf8.decode? bytes <;> rfl

end EventSchema.Source.Cursor
