import EventSchema.Proofs.Source.Group
import EventSchema.Source.Clause

/-!
# Where a clause ends

The scanner and the reader of clauses agree on the end of a clause: what a scan yields either has
something before its `(` that may not stand there, or it is read to its last byte
(`parse_of_mem_scan`). Both count parentheses for themselves; the texts that close a group are
followed through each of the reader's steps.
-/

namespace EventSchema.Source

open Text (isBlankByte)
open Text.Utf8

/-! ## Bytes that start no context -/

theorem skip?_cons_eq_none {b : UInt8} (hslash : b ≠ slash) (hhash : b ≠ hash)
    (hquote : b ≠ doubleQuote) (rest : Bytes) : skip? (b :: rest) = none := by
  rw [skip?, if_neg hslash, if_neg hhash, if_neg hquote]

theorem skip?_of_isWordByte {b : UInt8} (h : isWordByte b = true) (rest : Bytes) :
    skip? (b :: rest) = none := by
  refine skip?_cons_eq_none ?_ ?_ ?_ rest
  all_goals
    rintro rfl
    exact absurd h (by decide)

theorem skip?_of_continues {b : UInt8} (h : Continues b) (rest : Bytes) :
    skip? (b :: rest) = none := by
  refine skip?_cons_eq_none ?_ ?_ ?_ rest
  all_goals
    rintro rfl
    exact absurd h.1 (by decide)

/-! ## Before the argument list -/

theorem afterTrivia_of_skip {t : Bytes} {s : Skip} (h : skip? t = some s) :
    afterTrivia t = if s.context = .literal then t else afterTrivia s.rest := by
  rw [afterTrivia]
  split
  · next s' hs' =>
    obtain rfl : s' = s := Option.some.inj (hs'.symm.trans h)
    rfl
  · next hnone =>
    rw [hnone] at h
    cases h

theorem afterTrivia_cons {b : UInt8} {rest : Bytes} (h : skip? (b :: rest) = none) :
    afterTrivia (b :: rest) = if isBlankByte b then afterTrivia rest else b :: rest := by
  rw [afterTrivia]
  split
  · next hs =>
    rw [h] at hs
    cases hs
  · rfl

/-- Trivia are no parentheses. -/
theorem closes_afterTrivia {d : Nat} {t : Bytes} (h : Closes d t) : Closes d (afterTrivia t) := by
  induction h with
  | @skip d t s hs rest ih =>
    rw [afterTrivia_of_skip hs]
    split
    · exact .skip hs rest
    · exact ih
  | @opening d t rest =>
    rw [afterTrivia_cons rfl, if_neg (by decide)]
    exact .opening rest
  | last =>
    rw [afterTrivia_cons rfl, if_neg (by decide)]
    exact .last
  | @closing d t rest =>
    rw [afterTrivia_cons rfl, if_neg (by decide)]
    exact .closing rest
  | @other d b t hs left right rest ih =>
    rw [afterTrivia_cons hs]
    split
    · exact ih
    · exact .other hs left right rest

theorem isAscii_of_isBlankByte {b : UInt8} (h : isBlankByte b = true) : IsAscii b := by
  simp only [isBlankByte, Bool.or_eq_true, beq_iff_eq] at h
  rcases h with (((rfl | rfl) | rfl) | rfl) | rfl <;> decide

theorem isAscii_of_isWordByte {b : UInt8} (h : isWordByte b = true) : IsAscii b := by
  simp only [isWordByte, Bool.or_eq_true, Bool.and_eq_true, decide_eq_true_eq, beq_iff_eq,
    UInt8.le_iff_toNat_le] at h
  rcases h with ((⟨-, h⟩ | ⟨-, h⟩) | ⟨-, h⟩) | rfl
  · exact Nat.lt_of_le_of_lt h (by decide)
  · exact Nat.lt_of_le_of_lt h (by decide)
  · exact Nat.lt_of_le_of_lt h (by decide)
  · decide

theorem wellFormed_afterTrivia {t : Bytes} (h : WellFormed t) : WellFormed (afterTrivia t) := by
  fun_induction afterTrivia t with
  | case1 t s hs hliteral => exact h
  | case2 t s hs hliteral ih => exact ih (wellFormed_of_skip hs h)
  | case3 => exact h
  | case4 b rest hs hblank ih =>
    exact ih (wellFormed_of_ascii_cons (isAscii_of_isBlankByte hblank) h)
  | case5 => exact h

/-- The bytes of a method name are no parentheses. -/
theorem closes_dropWhile {d : Nat} {t : Bytes} (h : Closes d t) :
    Closes d (t.dropWhile isWordByte) := by
  induction h with
  | @skip d t s hs rest ih =>
    cases t with
    | nil => cases hs
    | cons b t =>
      cases hword : isWordByte b with
      | true =>
        rw [skip?_of_isWordByte hword] at hs
        cases hs
      | false =>
        rw [List.dropWhile_cons_of_neg (by simp [hword])]
        exact .skip hs rest
  | @opening d t rest => exact .opening rest
  | last => exact .last
  | @closing d t rest => exact .closing rest
  | @other d b t hs left right rest ih =>
    rw [List.dropWhile_cons]
    split
    · exact ih
    · exact .other hs left right rest

theorem wellFormed_dropWhile {t : Bytes} (h : WellFormed t) :
    WellFormed (t.dropWhile isWordByte) := by
  induction t with
  | nil => exact h
  | cons b t ih =>
    rw [List.dropWhile_cons]
    split
    · next hword => exact ih (wellFormed_of_ascii_cons (isAscii_of_isWordByte hword) h)
    · exact h

theorem closes_of_opening {d : Nat} {t : Bytes} (h : Closes d (leftParen :: t)) :
    Closes (d + 1) t := by
  cases h with
  | skip hs => cases hs
  | opening rest => exact rest
  | other _ left => exact absurd rfl left

/-- A text that closes a group has a parenthesis to open it, unless something else comes first. -/
theorem openArguments_of_closes {t : Bytes} (h : Closes 0 t) (ht : WellFormed t) :
    openArguments t = .error .literalBeforeGroup ∨
      (∃ b, openArguments t = .error (.byteBeforeGroup b)) ∨
      ∃ body, openArguments t = .ok body ∧ Closes 1 body ∧ WellFormed body := by
  have hcloses := closes_afterTrivia h
  have hwell := wellFormed_afterTrivia ht
  rw [openArguments]
  cases hstart : afterTrivia t with
  | nil =>
    rw [hstart] at hcloses
    exact absurd rfl (closes_ne_nil hcloses)
  | cons b rest =>
    rw [hstart] at hcloses hwell
    dsimp only
    by_cases hopen : b = leftParen
    · subst hopen
      rw [if_pos rfl]
      exact .inr (.inr ⟨rest, rfl, closes_of_opening hcloses,
        wellFormed_of_ascii_cons (by decide) hwell⟩)
    · rw [if_neg hopen]
      by_cases hquote : b = doubleQuote
      · rw [if_pos hquote]
        exact .inl rfl
      · rw [if_neg hquote]
        exact .inr (.inl ⟨b, rfl⟩)

/-! ## The argument list -/

theorem pieces_of_skip {t : Bytes} {s : Skip} (h : skip? t = some s) :
    pieces t = (if s.context = .literal then .word s.text else .gap) :: pieces s.rest := by
  rw [pieces]
  split
  · next s' hs' =>
    obtain rfl : s' = s := Option.some.inj (hs'.symm.trans h)
    rfl
  · next hnone =>
    rw [hnone] at h
    cases h

theorem pieces_cons {b : UInt8} {rest : Bytes} (h : skip? (b :: rest) = none) :
    pieces (b :: rest) = match Piece.ofByte? b with
      | some p => p :: pieces rest
      | none => .word (b :: rest.take (moreBytes b)) :: pieces (rest.drop (moreBytes b)) := by
  rw [pieces]
  split
  · next hs =>
    rw [h] at hs
    cases hs
  · rfl

theorem pieces_of_byte {b : UInt8} {p : Piece} {rest : Bytes} (h : skip? (b :: rest) = none)
    (hp : Piece.ofByte? b = some p) : pieces (b :: rest) = p :: pieces rest := by
  rw [pieces_cons h, hp]

theorem pieces_nil : pieces [] = [] := by
  rw [pieces]
  rfl

/-- A piece that is no parenthesis changes nothing about where the list ends. -/
theorem arguments_cons {d : Nat} {p : Piece} {rest unread : List Piece} {args : List (List Piece)}
    (hopening : p ≠ .opening) (hclosing : p ≠ .closing)
    (h : arguments d rest = some (args, unread)) :
    ∃ args', arguments d (p :: rest) = some (args', unread) := by
  cases p with
  | opening => exact absurd rfl hopening
  | closing => exact absurd rfl hclosing
  | gap | separator | word => cases d <;> simp [arguments, h]

theorem closes_of_other {d : Nat} {b : UInt8} {t : Bytes} (hs : skip? (b :: t) = none)
    (left : b ≠ leftParen) (right : b ≠ rightParen) (h : Closes d (b :: t)) : Closes d t := by
  cases h with
  | skip hs' =>
    rw [hs] at hs'
    cases hs'
  | opening => exact absurd rfl left
  | last => exact absurd rfl right
  | closing => exact absurd rfl right
  | other _ _ _ rest => exact rest

/-- The rest of a character is no parenthesis either. -/
theorem closes_of_continues {d : Nat} {x t : Bytes} (hx : ∀ b ∈ x, Continues b)
    (h : Closes d (x ++ t)) : Closes d t := by
  induction x with
  | nil => exact h
  | cons b x ih =>
    have hb : Continues b := hx b List.mem_cons_self
    refine ih (fun y hy => hx y (List.mem_cons_of_mem _ hy))
      (closes_of_other (skip?_of_continues hb _) ?_ ?_ h)
    all_goals
      rintro rfl
      exact absurd hb.1 (by decide)

theorem ofByte?_ne_parens {b : UInt8} {p : Piece} (left : b ≠ leftParen) (right : b ≠ rightParen)
    (h : Piece.ofByte? b = some p) : p ≠ .opening ∧ p ≠ .closing := by
  rw [Piece.ofByte?, if_neg left, if_neg right] at h
  split at h
  · cases h
    exact ⟨by decide, by decide⟩
  · split at h
    · cases h
      exact ⟨by decide, by decide⟩
    · cases h

theorem ofByte?_isAscii {b : UInt8} {p : Piece} (h : Piece.ofByte? b = some p) : IsAscii b := by
  rw [Piece.ofByte?] at h
  split at h
  · next hb => exact hb ▸ by decide
  · split at h
    · next hb => exact hb ▸ by decide
    · split at h
      · next hb => exact hb ▸ by decide
      · split at h
        · next hb => exact isAscii_of_isBlankByte hb
        · cases h

/-- **The argument list ends with the text.** The induction is on the length of the text, as the
reader takes a character of several bytes at once. -/
theorem arguments_of_closes {d : Nat} {t : Bytes} (h : Closes (d + 1) t) (ht : WellFormed t) :
    ∃ args, arguments d (pieces t) = some (args, []) := by
  induction hn : t.length using Nat.strongRecOn generalizing d t with
  | ind n ih =>
    subst hn
    cases h with
    | skip hs rest =>
      obtain ⟨args, hargs⟩ := ih _ (skip?_length_lt hs) rest (wellFormed_of_skip hs ht) rfl
      rw [pieces_of_skip hs]
      refine arguments_cons ?_ ?_ hargs <;> split <;> exact Piece.noConfusion
    | @opening _ t rest =>
      obtain ⟨args, hargs⟩ := ih _ (Nat.lt_succ_self _) rest
        (wellFormed_of_ascii_cons (by decide) ht) rfl
      rw [pieces_of_byte rfl rfl, arguments, hargs]
      exact ⟨_, rfl⟩
    | last =>
      rw [pieces_of_byte rfl rfl, pieces_nil, arguments]
      exact ⟨_, rfl⟩
    | @closing d t rest =>
      obtain ⟨args, hargs⟩ := ih _ (Nat.lt_succ_self _) rest
        (wellFormed_of_ascii_cons (by decide) ht) rfl
      rw [pieces_of_byte rfl rfl, arguments, hargs]
      exact ⟨_, rfl⟩
    | @other _ b t hs left right rest =>
      cases hp : Piece.ofByte? b with
      | some p =>
        obtain ⟨hopening, hclosing⟩ := ofByte?_ne_parens left right hp
        obtain ⟨args, hargs⟩ := ih _ (Nat.lt_succ_self _) rest
          (wellFormed_of_ascii_cons (ofByte?_isAscii hp) ht) rfl
        rw [pieces_of_byte hs hp]
        exact arguments_cons hopening hclosing hargs
      | none =>
        rw [pieces_cons hs, hp]
        have hshort : (t.drop (moreBytes b)).length < (b :: t).length := by
          rw [List.length_drop, List.length_cons]
          omega
        have hdrop : Closes (d + 1) (t.drop (moreBytes b)) ∧
            WellFormed (t.drop (moreBytes b)) := by
          rcases wellFormed_cons ht with ⟨hascii, hwell⟩ | ⟨-, hwell, -, hcontinues⟩
          · rw [moreBytes_of_isAscii hascii]
            exact ⟨rest, hwell⟩
          · rw [← List.take_append_drop (moreBytes b) t] at rest
            exact ⟨closes_of_continues hcontinues rest, hwell⟩
        obtain ⟨args, hargs⟩ := ih _ hshort hdrop.1 hdrop.2 rfl
        exact arguments_cons Piece.noConfusion Piece.noConfusion hargs

/-! ## Clauses of a scan -/

theorem splitClause_eq_ok {t body : Bytes} {args : List (List Piece)} {unread : List Piece}
    (hopen : openArguments ((afterTrivia t).dropWhile isWordByte) = .ok body)
    (hargs : arguments 0 (pieces body) = some (args, unread)) :
    splitClause t = .ok {
      method := (afterTrivia t).takeWhile isWordByte
      args := (args.map argumentText).filter (· ≠ [])
      unread } := by
  simp only [splitClause, hopen, hargs]

theorem splitClause_eq_error {t : Bytes} {fault : ClauseFault}
    (hopen : openArguments ((afterTrivia t).dropWhile isWordByte) = .error fault) :
    splitClause t = .error fault := by
  simp only [splitClause, hopen]

/-- A text that closes a group is split to its end, unless something else comes before its `(`. -/
theorem splitClause_of_closes {t : Bytes} (h : Closes 0 t) (ht : WellFormed t) :
    splitClause t = .error .literalBeforeGroup ∨
      (∃ b, splitClause t = .error (.byteBeforeGroup b)) ∨
      ∃ c, splitClause t = .ok c ∧ c.unread = [] := by
  have hcloses := closes_dropWhile (closes_afterTrivia h)
  have hwell := wellFormed_dropWhile (wellFormed_afterTrivia ht)
  rcases openArguments_of_closes hcloses hwell with hopen | ⟨b, hopen⟩ | ⟨body, hopen, hc, hw⟩
  · exact .inl (splitClause_eq_error hopen)
  · exact .inr (.inl ⟨b, splitClause_eq_error hopen⟩)
  · obtain ⟨args, hargs⟩ := arguments_of_closes hc hw
    exact .inr (.inr ⟨_, splitClause_eq_ok hopen hargs, rfl⟩)

theorem afterMarker?_eq_some {marker t body : Bytes} (h : afterMarker? marker t = some body) :
    marker ≠ [] ∧ marker ++ body = t := by
  rw [afterMarker?] at h
  split at h
  · next hm =>
    cases h
    exact ⟨hm.1, List.prefix_iff_eq_append.1 hm.2⟩
  · cases h

/-- What follows a marker is a text. A scan may stand inside of a character, but no marker starts
there. -/
theorem wellFormed_of_afterMarker {marker a t body : Bytes} (hmarker : WellFormed marker)
    (ht : WellFormed (a ++ t)) (hbody : afterMarker? marker t = some body) : WellFormed body := by
  obtain ⟨hne, happend⟩ := afterMarker?_eq_some hbody
  have htext : WellFormed t := by
    refine (wellFormed_of_append ht (.inl fun b hb => ?_)).2
    obtain ⟨m, marker', rfl⟩ := List.exists_cons_of_ne_nil hne
    obtain rfl : m = b := by simpa [← happend] using hb
    exact not_continues_of_wellFormed hmarker
  exact wellFormed_of_append_left hmarker (happend ▸ htext)

/-- A group that is read is a text, and so is what follows it. -/
theorem wellFormed_of_closeGroup {start line d : Nat} {t c r : Bytes}
    (hclose : closeGroup start line d t = .ok (c, r)) (ht : WellFormed t) :
    WellFormed c ∧ WellFormed r := by
  have hboundary : Boundary c r :=
    .inr ⟨rightParen, closes_getLast? (closes_of_closeGroup hclose), by decide⟩
  exact wellFormed_of_append (closeGroup_append hclose ▸ ht) hboundary

/-- Every clause that is found closes a group, and its bytes are whole characters. -/
theorem closes_of_mem_clausesFrom {marker a t c : Bytes} {line : Nat} (hmarker : WellFormed marker)
    (ht : WellFormed (a ++ t)) (hc : c ∈ (clausesFrom marker line t).1) :
    Closes 0 c ∧ WellFormed c := by
  fun_induction clausesFrom marker line t generalizing a with
  | case1 line t s hs ih =>
    refine ih (a := a ++ s.text) ?_ hc
    rwa [List.append_assoc, skip?_append hs]
  | case2 => cases hc
  | case3 line t hs body hbody start clause rest hclose more =>
    rename_i ih
    obtain ⟨hclause, hrest⟩ :=
      wellFormed_of_closeGroup hclose (wellFormed_of_afterMarker hmarker ht hbody)
    rcases List.mem_cons.1 hc with rfl | hc
    · exact ⟨closes_of_closeGroup hclose, hclause⟩
    · exact ih (a := []) hrest hc
  | case4 => cases hc
  | case5 line b rest hs hnone ih =>
    refine ih (a := a ++ [b]) ?_ hc
    rwa [List.append_assoc]

/-- **The scanner and the reader of clauses agree on the end of a clause.** A clause that a scan
yields is read to its last byte, unless a literal or another byte stands before its `(`. It never
lacks its argument list or the end of it. -/
theorem parse_of_mem_scan {marker text clause : String} (h : clause ∈ (scan marker text).1) :
    Clause.parse clause = .error .literalBeforeGroup ∨
      (∃ b, Clause.parse clause = .error (.byteBeforeGroup b)) ∨
      ∃ c, splitClause (encode clause) = .ok c ∧ c.unread = [] ∧
        (encode clause).getLast? = some rightParen ∧ Clause.parse clause = .ok c.clause := by
  obtain ⟨t, ht, rfl⟩ := List.mem_map.1 h
  obtain ⟨hcloses, hwell⟩ := closes_of_mem_clausesFrom (a := []) (wellFormed_encode marker)
    (wellFormed_encode text) ht
  rw [Clause.parse, encode_decodeLossy hwell]
  rcases splitClause_of_closes hcloses hwell with hsplit | ⟨b, hsplit⟩ | ⟨c, hsplit, hunread⟩
  · exact .inl (by rw [hsplit]; rfl)
  · exact .inr (.inl ⟨b, by rw [hsplit]; rfl⟩)
  · exact .inr (.inr ⟨c, hsplit, hunread, closes_getLast? hcloses, by rw [hsplit]; rfl⟩)

/-- A clause with parentheses that do not count. -/
def hiddenParens : String := "F(a, \"é)\", /* ) */ (b))"

theorem parse_of_mem_scan_hiddenParens :
    hiddenParens ∈ (scan "M_" ("// M_A(\nM_" ++ hiddenParens)).1 ∧
      ∃ c, splitClause (encode hiddenParens) = .ok c ∧ c.unread = [] ∧
        (encode hiddenParens).getLast? = some rightParen ∧
        Clause.parse hiddenParens = .ok c.clause := by
  have hmem : hiddenParens ∈ (scan "M_" ("// M_A(\nM_" ++ hiddenParens)).1 := by decide +kernel
  have hok : (Clause.parse hiddenParens).toOption = some ⟨"F", ["a", "\"é)\"", "(b)"]⟩ := by
    decide +kernel
  refine ⟨hmem, ?_⟩
  rcases parse_of_mem_scan hmem with h | ⟨b, h⟩ | h
  · rw [h] at hok
    cases hok
  · rw [h] at hok
    cases hok
  · exact h

end EventSchema.Source
