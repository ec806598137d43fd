import EventSchema.Proofs.Source.ClauseEnd

/-!
# Written clauses

A clause whose arguments are literals and identifiers, written with a comma and a space between each
two of them, is read as it was written (`splitClause_writtenArguments`). It closes a group
(`closes_writtenArguments`), so a scan of several, each behind its marker and on a line of its own,
finds all of them and nothing else (`clausesFrom_lines`). All that matters of an argument is that it
has no parenthesis outside of a literal, and that it is read without a gap (`WholeArgument`).
-/

namespace EventSchema.Source

open Text (isBlankByte)
open Text.Utf8

/-! ## Arguments -/

/-- Bytes that are read as one argument. -/
structure WholeArgument (l : Bytes) : Prop where
  ne_nil : l ≠ []
  closes : ∀ {d : Nat} {t : Bytes}, Closes d t → Closes d (l ++ t)
  words : ∃ ws : List Bytes, ws.flatten = l ∧
    ∀ t, pieces (l ++ t) = ws.map .word ++ pieces t

/-- Bytes that are skipped as one literal, whatever follows them. -/
def WholeLiteral (l : Bytes) : Prop := ∀ t, skip? (l ++ t) = some ⟨.literal, l, t⟩

theorem WholeLiteral.wholeArgument {l : Bytes} (h : WholeLiteral l) : WholeArgument l where
  ne_nil := by
    rintro rfl
    cases h []
  closes := Closes.skip (h _)
  words := by
    refine ⟨[l], by simp, fun t => ?_⟩
    rw [pieces_of_skip (h t)]
    rfl

theorem closes_word {l : Bytes} (h : ∀ b ∈ l, isWordByte b = true) {d : Nat} {t : Bytes}
    (ht : Closes d t) : Closes d (l ++ t) := by
  induction l with
  | nil => exact ht
  | cons b l ih =>
    obtain ⟨hb, hl⟩ := List.forall_mem_cons.1 h
    refine .other (skip?_of_isWordByte hb _) ?_ ?_ (ih hl)
    all_goals
      rintro rfl
      exact absurd hb (by decide)

theorem not_isBlankByte_of_isWordByte {b : UInt8} (hword : isWordByte b = true) :
    ¬ isBlankByte b = true := by
  intro hblank
  simp only [isBlankByte, Bool.or_eq_true, beq_iff_eq] at hblank
  rcases hblank with (((rfl | rfl) | rfl) | rfl) | rfl
  all_goals exact absurd hword (by decide)

theorem ofByte?_of_isWordByte {b : UInt8} (h : isWordByte b = true) : Piece.ofByte? b = none := by
  have hne {c : UInt8} (hc : isWordByte c = false) : b ≠ c := by
    rintro rfl
    exact absurd h (by rw [hc]; exact Bool.false_ne_true)
  rw [Piece.ofByte?, if_neg (hne (by decide)), if_neg (hne (by decide)), if_neg (hne (by decide)),
    if_neg (not_isBlankByte_of_isWordByte h)]

theorem pieces_word {l : Bytes} (h : ∀ b ∈ l, isWordByte b = true) (t : Bytes) :
    pieces (l ++ t) = (l.map fun b => .word [b]) ++ pieces t := by
  induction l with
  | nil => rfl
  | cons b l ih =>
    obtain ⟨hb, hl⟩ := List.forall_mem_cons.1 h
    rw [List.cons_append, pieces_cons (skip?_of_isWordByte hb _), ofByte?_of_isWordByte hb]
    simp only [moreBytes_of_isAscii (isAscii_of_isWordByte hb), List.take_zero, List.drop_zero]
    rw [ih hl]
    rfl

theorem wholeArgument_of_word {l : Bytes} (hne : l ≠ []) (h : ∀ b ∈ l, isWordByte b = true) :
    WholeArgument l where
  ne_nil := hne
  closes := closes_word h
  words := by
    refine ⟨l.map ([·]), (List.flatMap_def ..).symm.trans (List.flatMap_singleton' l), fun t => ?_⟩
    rw [pieces_word h, List.map_map]
    rfl

/-! ## The written list -/

/-- Arguments that each follow a comma and a space. -/
def laterArguments (ls : List Bytes) : Bytes := ls.flatMap fun l => comma :: space :: l

/-- The bytes of a list of arguments. -/
def listed : List Bytes → Bytes
  | [] => []
  | l :: ls => l ++ laterArguments ls

/-- The bytes of a clause after its marker. -/
def written (method : Bytes) (ls : List Bytes) : Bytes :=
  method ++ leftParen :: (listed ls ++ [rightParen])

theorem laterArguments_cons (l : Bytes) (ls : List Bytes) (t : Bytes) :
    laterArguments (l :: ls) ++ t = comma :: space :: (l ++ (laterArguments ls ++ t)) := by
  rw [laterArguments, List.flatMap_cons, ← laterArguments, List.append_assoc]
  rfl

theorem encode_intercalate (a : String) (as : List String) :
    encode (", ".intercalate (a :: as)) = encode a ++ laterArguments (as.map encode) := by
  have hseparator : encode ", " = [comma, space] := by decide
  induction as generalizing a with
  | nil => rw [String.intercalate_singleton, List.map_nil, laterArguments, List.flatMap_nil,
      List.append_nil]
  | cons b as ih =>
    have hlater := laterArguments_cons (encode b) (as.map encode) []
    rw [List.append_nil, List.append_nil] at hlater
    rw [String.intercalate_cons_cons, encode_append, encode_append, ih, hseparator, List.map_cons,
      hlater, List.append_assoc]
    rfl

theorem encode_text (c : Clause) :
    encode c.text = written (encode c.method) (c.args.map encode) := by
  have hopen : encode "(" = [leftParen] := by decide
  have hclose : encode ")" = [rightParen] := by decide
  have hargs : encode (", ".intercalate c.args) = listed (c.args.map encode) := by
    cases c.args with
    | nil => exact congrArg encode String.intercalate_nil
    | cons a as => exact encode_intercalate a as
  rw [Clause.text, encode_append, encode_append, encode_append, hopen, hclose, hargs, written,
    List.append_assoc, List.append_assoc]
  rfl

/-! ## The scanner takes it whole -/

theorem closes_laterArguments {ls : List Bytes} (h : ∀ l ∈ ls, WholeArgument l) :
    Closes 1 (laterArguments ls ++ [rightParen]) := by
  induction ls with
  | nil => exact .last
  | cons l ls ih =>
    obtain ⟨hl, hls⟩ := List.forall_mem_cons.1 h
    rw [laterArguments_cons]
    refine .other (skip?_cons_eq_none (by decide) (by decide) (by decide) _) (by decide)
      (by decide) ?_
    refine .other (skip?_cons_eq_none (by decide) (by decide) (by decide) _) (by decide)
      (by decide) ?_
    exact hl.closes (ih hls)

theorem closes_listed {ls : List Bytes} (h : ∀ l ∈ ls, WholeArgument l) :
    Closes 1 (listed ls ++ [rightParen]) := by
  cases ls with
  | nil => exact .last
  | cons l ls =>
    obtain ⟨hl, hls⟩ := List.forall_mem_cons.1 h
    rw [listed, List.append_assoc]
    exact hl.closes (closes_laterArguments hls)

theorem closes_writtenArguments {method : Bytes} {ls : List Bytes}
    (hmethod : ∀ b ∈ method, isWordByte b = true) (h : ∀ l ∈ ls, WholeArgument l) :
    Closes 0 (written method ls) :=
  closes_word hmethod (.opening (closes_listed h))

section

variable {marker t rest : Bytes} {line : Nat}

theorem clausesFrom_nil (hmarker : marker ≠ []) : clausesFrom marker line [] = ([], none) := by
  rw [clausesFrom]
  split
  · next hnil => cases hnil
  · split
    · next hnil => exact absurd (List.append_eq_nil_iff.1 (afterMarker?_eq_some hnil).2).1 hmarker
    · rfl

theorem clausesFrom_of_skip {s : Skip} (hs : skip? t = some s) :
    clausesFrom marker line t = clausesFrom marker (line + newlines s.text) s.rest := by
  rw [clausesFrom]
  split
  · next s' hs' =>
    obtain rfl : s' = s := Option.some.inj (hs'.symm.trans hs)
    rfl
  · next hnone =>
    rw [hs] at hnone
    cases hnone

theorem clausesFrom_other {b : UInt8} (hs : skip? (b :: rest) = none)
    (hnone : afterMarker? marker (b :: rest) = none) :
    clausesFrom marker line (b :: rest) = clausesFrom marker (line + newlines [b]) rest := by
  rw [clausesFrom]
  split
  · next hsome =>
    rw [hs] at hsome
    cases hsome
  · split
    · next hsome =>
      rw [hnone] at hsome
      cases hsome
    · rfl

/-- Where a marker stands outside of any context, the scan goes on behind its group, if that is
closed. -/
theorem clausesFrom_marker {start : Nat} {body : Bytes} (hs : skip? t = none)
    (hbody : afterMarker? marker t = some body) (hstart : line + newlines marker = start) :
    clausesFrom marker line t =
      match closeGroup start start 0 body with
      | .error fault => ([], some fault)
      | .ok (clause, rest) =>
        (clausesFrom marker (start + newlines clause) rest).map (clause :: ·) id := by
  subst hstart
  rw [clausesFrom]
  split
  · next hsome =>
    rw [hs] at hsome
    cases hsome
  · split
    · next body' hbody' =>
      obtain rfl : body = body' := Option.some.inj (hbody.symm.trans hbody')
      dsimp only
      split
      · next hfault => rw [hfault]
      · next hclose =>
        rw [hclose]
        rfl
    · next hnone =>
      rw [hbody] at hnone
      cases hnone

/-- A marker outside of any context and a text that closes a group are a clause. -/
theorem clausesFrom_clause (hmarker : marker ≠ []) (hs : skip? (marker ++ (t ++ rest)) = none)
    (h : Closes 0 t) :
    clausesFrom marker line (marker ++ (t ++ rest)) =
      (clausesFrom marker (line + newlines marker + newlines t) rest).map (t :: ·) id := by
  have hafter : afterMarker? marker (marker ++ (t ++ rest)) = some (t ++ rest) := by
    rw [afterMarker?, if_pos ⟨hmarker, List.prefix_append marker _⟩, List.drop_left]
  rw [clausesFrom_marker hs hafter rfl, closeGroup_append_of_closes h]

/-- The first byte of a marker that may stand anywhere but at the end of a line. -/
def StartsClause (marker : Bytes) : Prop :=
  ∃ b m, marker = b :: m ∧ b ≠ slash ∧ b ≠ hash ∧ b ≠ doubleQuote ∧ b ≠ newline

/-- **Clauses on lines of their own are all found**, and nothing else is. -/
theorem clausesFrom_lines {ts : List Bytes} (hmarker : StartsClause marker)
    (h : ∀ t ∈ ts, Closes 0 t) :
    clausesFrom marker line (ts.flatMap fun t => marker ++ (t ++ [newline])) = (ts, none) := by
  obtain ⟨b, m, rfl, hslash, hhash, hquote, hnewline⟩ := hmarker
  induction ts generalizing line with
  | nil => exact clausesFrom_nil (List.cons_ne_nil b m)
  | cons t ts ih =>
    obtain ⟨ht, hts⟩ := List.forall_mem_cons.1 h
    have hend (r : Bytes) : afterMarker? (b :: m) (newline :: r) = none := by
      refine if_neg fun hprefix => hnewline ?_
      exact (List.cons_prefix_cons.1 hprefix.2).1
    have hassoc (r : Bytes) :
        (b :: m) ++ (t ++ [newline]) ++ r = (b :: m) ++ (t ++ (newline :: r)) := by
      rw [List.append_assoc, List.append_assoc, List.singleton_append]
    rw [List.flatMap_cons, hassoc, clausesFrom_clause (List.cons_ne_nil b m)
      (skip?_cons_eq_none hslash hhash hquote _) ht, clausesFrom_other rfl (hend _), ih hts]
    rfl

end

/-! ## The reader gives it back -/

theorem arguments_words {ws : List Bytes} {ps unread : List Piece} {first : List Piece}
    {others : List (List Piece)} (h : arguments 0 ps = some (first :: others, unread)) :
    arguments 0 (ws.map .word ++ ps) = some ((ws.map .word ++ first) :: others, unread) := by
  induction ws with
  | nil => exact h
  | cons w ws ih =>
    simp only [List.map_cons, List.cons_append, arguments, ih, Option.map_some, Prod.map,
      extendFirst, id]

theorem argumentText_words (ws : List Bytes) :
    argumentText (ws.map .word) = ws.flatten ∧
      argumentText (.gap :: ws.map .word) = ws.flatten := by
  have hnogap : ∀ p ∈ ws.map Piece.word, p ≠ .gap := fun p hp => by
    obtain ⟨w, -, rfl⟩ := List.mem_map.1 hp
    exact Piece.noConfusion
  have hdrop : (ws.map Piece.word).dropWhile (· == .gap) = ws.map .word := by
    cases ws <;> rfl
  have htext : argumentText (ws.map .word) = ws.flatten := by
    rw [argumentText, hdrop, joined_filter _ _ hnogap, List.flatMap_map]
    simp [Piece.text, List.flatMap_def]
  exact ⟨htext, htext⟩

theorem arguments_laterArguments {ls : List Bytes} (h : ∀ l ∈ ls, WholeArgument l) :
    ∃ args, arguments 0 (pieces (laterArguments ls ++ [rightParen])) = some ([] :: args, []) ∧
      args.map argumentText = ls := by
  induction ls with
  | nil =>
    refine ⟨[], ?_, rfl⟩
    rw [laterArguments, List.flatMap_nil, List.nil_append, pieces_of_byte rfl rfl, pieces_nil,
      arguments]
  | cons l ls ih =>
    obtain ⟨hl, hls⟩ := List.forall_mem_cons.1 h
    obtain ⟨args, hargs, htexts⟩ := ih hls
    obtain ⟨ws, rfl, hws⟩ := hl.words
    refine ⟨(.gap :: ws.map .word) :: args, ?_, ?_⟩
    · have hwords : arguments 0 (ws.map .word ++ pieces (laterArguments ls ++ [rightParen])) =
          some ((ws.map .word ++ []) :: args, []) := arguments_words hargs
      rw [laterArguments_cons, pieces_of_byte rfl rfl, pieces_of_byte rfl rfl, hws]
      simp only [arguments, hwords, List.append_nil, Option.map_some, Prod.map, extendFirst, id]
    · rw [List.map_cons, (argumentText_words ws).2, htexts]

/-- The arguments of a written list hold nothing but their words and the space before them. -/
theorem arguments_listed {ls : List Bytes} (h : ∀ l ∈ ls, WholeArgument l) :
    ∃ args, arguments 0 (pieces (listed ls ++ [rightParen])) = some (args, []) ∧
      (args.map argumentText).filter (· ≠ []) = ls := by
  cases ls with
  | nil =>
    refine ⟨[[]], ?_, rfl⟩
    rw [listed, List.nil_append, pieces_of_byte rfl rfl, pieces_nil, arguments]
  | cons l ls =>
    obtain ⟨hl, hls⟩ := List.forall_mem_cons.1 h
    obtain ⟨args, hargs, htexts⟩ := arguments_laterArguments hls
    obtain ⟨ws, hflatten, hws⟩ := hl.words
    refine ⟨ws.map .word :: args, ?_, ?_⟩
    · rw [listed, List.append_assoc, hws, arguments_words hargs, List.append_nil]
    · rw [List.map_cons, (argumentText_words ws).1, hflatten, htexts]
      exact List.filter_eq_self.2 fun m hm => decide_eq_true (h m hm).ne_nil

theorem splitClause_writtenArguments {method : Bytes} {ls : List Bytes}
    (hmethod : ∀ b ∈ method, isWordByte b = true) (h : ∀ l ∈ ls, WholeArgument l) :
    splitClause (written method ls) = .ok { method, args := ls, unread := [] } := by
  have hstart : afterTrivia (written method ls) = written method ls := by
    rw [written]
    cases method with
    | nil => rw [List.nil_append, afterTrivia_cons rfl, if_neg (by decide)]
    | cons b method =>
      have hb : isWordByte b = true := hmethod b List.mem_cons_self
      rw [List.cons_append, afterTrivia_cons (skip?_of_isWordByte hb _),
        if_neg (not_isBlankByte_of_isWordByte hb)]
  have hopen : openArguments ((written method ls).dropWhile isWordByte) =
      .ok (listed ls ++ [rightParen]) := by
    rw [written, List.dropWhile_append_of_pos hmethod, List.dropWhile_cons_of_neg (by decide),
      openArguments, afterTrivia_cons rfl, if_neg (by decide)]
    exact if_pos rfl
  obtain ⟨args, hargs, hfilter⟩ := arguments_listed h
  have htake : (written method ls).takeWhile isWordByte = method := by
    rw [written, List.takeWhile_append_of_pos hmethod, List.takeWhile_cons_of_neg (by decide),
      List.append_nil]
  rw [← hstart] at hopen
  rw [splitClause_eq_ok hopen hargs, hfilter, hstart, htake]

end EventSchema.Source
