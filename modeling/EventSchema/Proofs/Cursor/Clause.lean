import EventSchema.Proofs.Cursor.Context
import EventSchema.Proofs.Source.Layout

/-!
# Reading clauses by position

A clause read with a cursor: the trivia before its method, the method, what comes before the
argument list and the list itself, each by a loop. The open parentheses are counted down to zero and
no further, and all texts that are taken out of the clause are whole characters (`parse_eq`).
-/

namespace EventSchema.Source.Cursor

open Text (isBlankByte)
open Text.Utf8

variable {t u r : Bytes} {b : UInt8} {i e d : Nat} {s : Skip}

/-! ## Before the method -/

/-- A blank is gone over, and anything else ends the trivia. -/
def triviaByte (t : Bytes) (i : Nat) : Checked (Turn Nat Nat) := do
  if i < t.length then
    if isBlankByte (← byteAt t i) then return .again (i + 1) else return .done i
  else return .done i

/-- Goes on behind comments, directives and blanks. -/
def triviaLoop (t : Bytes) : Loop Nat Nat where
  bound := t.length
  position := id
  turn i := do
    match ← skip t i with
    | some (c, e) => if c = .literal then triviaByte t i else return .again e
    | none => triviaByte t i

theorem triviaByte_end (h : ¬ i < t.length) : triviaByte t i = .ok (.done i) := by
  simp only [triviaByte, if_neg h, pure_eq_ok]

theorem triviaByte_ahead (h : Ahead t i (b :: r)) :
    triviaByte t i = .ok (if isBlankByte b then .again (i + 1) else .done i) := by
  simp only [triviaByte, if_pos h.lt, h.byteAt, ok_bind, pure_eq_ok]
  split <;> rfl

theorem triviaLoop_skip (h : Ahead t i u) (hs : skip? u = some s) :
    (triviaLoop t).turn i = if s.context = .literal then triviaByte t i
      else .ok (.again (i + s.text.length)) := by
  simp only [triviaLoop, h.skip_some hs, ok_bind, pure_eq_ok]

theorem triviaLoop_byte (h : Ahead t i u) (hs : skip? u = none) :
    (triviaLoop t).turn i = triviaByte t i := by
  simp only [triviaLoop, h.skip_none hs, ok_bind]

theorem triviaLoop_end (h : ¬ i < t.length) : (triviaLoop t).turn i = .ok (.done i) := by
  simp only [triviaLoop, skip_end h, ok_bind, triviaByte_end h]

theorem triviaByte_progress {i' : Nat} (h : Ahead t i (b :: r))
    (hturn : triviaByte t i = .ok (.again i')) : i < i' := by
  rw [triviaByte_ahead h] at hturn
  split at hturn
  · cases hturn
    exact Nat.lt_succ_self i
  · cases hturn

theorem triviaLoop_advances (t : Bytes) : (triviaLoop t).Advances := by
  refine Loop.advances_of_ahead rfl (fun i hi => ⟨_, triviaLoop_end hi⟩)
    fun i i' b r (h : Ahead t i (b :: r)) hturn => ?_
  cases hs : skip? (b :: r) with
  | some s =>
    rw [triviaLoop_skip h hs] at hturn
    split at hturn
    · exact triviaByte_progress h hturn
    · cases hturn
      exact Ahead.lt_behind i hs
  | none =>
    rw [triviaLoop_byte h hs] at hturn
    exact triviaByte_progress h hturn

theorem head?_of_literal (hs : skip? u = some s) (hc : s.context = .literal) :
    u.head? = some doubleQuote := by
  cases u with
  | nil => cases hs
  | cons b r =>
    rw [skip?] at hs
    repeat' split at hs
    all_goals cases hs
    all_goals first | exact congrArg some ‹b = doubleQuote› | cases hc

/-- **Trivia are gone over** up to what they precede. -/
theorem run_triviaLoop (h : Ahead t i u) :
    ∃ e, (triviaLoop t).run i = .ok e ∧ Ahead t e (afterTrivia u) := by
  have again {i i' : Nat} (h : (triviaLoop t).turn i = .ok (.again i')) :=
    (triviaLoop_advances t).run_again h
  fun_induction afterTrivia u generalizing i with
  | case1 u s hs hliteral =>
    obtain ⟨r, rfl⟩ := List.head?_eq_some_iff.1 (head?_of_literal hs hliteral)
    have hturn := triviaLoop_skip h hs
    rw [if_pos hliteral, triviaByte_ahead h, if_neg (by decide)] at hturn
    exact ⟨i, Loop.run_done hturn, h⟩
  | case2 u s hs hliteral ih =>
    have hturn := triviaLoop_skip h hs
    rw [if_neg hliteral] at hturn
    rw [again hturn]
    exact ih (h.behind hs)
  | case3 hs =>
    exact ⟨i, Loop.run_done (triviaLoop_end h.not_lt), h⟩
  | case4 b r hs hblank ih =>
    have hturn := triviaLoop_byte h hs
    rw [triviaByte_ahead h, if_pos hblank] at hturn
    rw [again hturn]
    exact ih h.cons
  | case5 b r hs hblank =>
    have hturn := triviaLoop_byte h hs
    rw [triviaByte_ahead h, if_neg hblank] at hturn
    exact ⟨i, Loop.run_done hturn, h⟩

/-! ## The method -/

/-- Goes on behind the bytes of a method name. -/
def wordLoop (t : Bytes) : Loop Nat Nat where
  bound := t.length
  position := id
  turn i := do
    if i < t.length then
      if isWordByte (← byteAt t i) then return .again (i + 1) else return .done i
    else return .done i

theorem wordLoop_end (h : ¬ i < t.length) : (wordLoop t).turn i = .ok (.done i) := by
  simp only [wordLoop, if_neg h, pure_eq_ok]

theorem wordLoop_byte (h : Ahead t i (b :: r)) :
    (wordLoop t).turn i = .ok (if isWordByte b then .again (i + 1) else .done i) := by
  simp only [wordLoop, if_pos h.lt, h.byteAt, ok_bind, pure_eq_ok]
  split <;> rfl

theorem wordLoop_advances (t : Bytes) : (wordLoop t).Advances := by
  refine Loop.advances_of_ahead rfl (fun i hi => ⟨_, wordLoop_end hi⟩)
    fun i i' b r (h : Ahead t i (b :: r)) hturn => ?_
  rw [wordLoop_byte h] at hturn
  split at hturn
  · cases hturn
    exact Nat.lt_succ_self i
  · cases hturn

theorem run_wordLoop (h : Ahead t i u) :
    (wordLoop t).run i = .ok (i + (u.takeWhile isWordByte).length) := by
  induction u generalizing i with
  | nil => exact Loop.run_done (wordLoop_end h.not_lt)
  | cons b r ih =>
    have hturn := wordLoop_byte h
    rw [List.takeWhile_cons]
    by_cases hword : isWordByte b = true
    · rw [if_pos hword] at hturn ⊢
      rw [(wordLoop_advances t).run_again hturn, ih h.cons, List.length_cons, Nat.add_assoc,
        Nat.add_comm 1]
    · rw [if_neg hword] at hturn ⊢
      exact Loop.run_done hturn

/-! ## Before the argument list -/

/-- Goes on behind the `(` that opens the argument list. -/
def openingLoop (t : Bytes) : Loop Nat (Except ClauseFault Nat) where
  bound := t.length
  position := id
  turn i := do
    match ← skip t i with
    | some (c, e) =>
      if c = .literal then return .done (.error .literalBeforeGroup) else return .again e
    | none =>
      match t[i]? with
      | some b =>
        if b = leftParen then return .done (.ok (i + 1))
        else if isBlankByte b then return .again (i + 1)
        else return .done (.error (.byteBeforeGroup b))
      | none => return .done (.error .noArguments)

theorem openingLoop_skip (h : Ahead t i u) (hs : skip? u = some s) :
    (openingLoop t).turn i = .ok (if s.context = .literal then .done (.error .literalBeforeGroup)
      else .again (i + s.text.length)) := by
  simp only [openingLoop, h.skip_some hs, ok_bind, pure_eq_ok]
  split <;> rfl

theorem openingLoop_byte (h : Ahead t i (b :: r)) (hs : skip? (b :: r) = none) :
    (openingLoop t).turn i = .ok (if b = leftParen then .done (.ok (i + 1))
      else if isBlankByte b then .again (i + 1) else .done (.error (.byteBeforeGroup b))) := by
  simp only [openingLoop, h.skip_none hs, h.head?, List.head?_cons, ok_bind, pure_eq_ok]
  split
  · rfl
  · split <;> rfl

theorem openingLoop_end (h : ¬ i < t.length) :
    (openingLoop t).turn i = .ok (.done (.error .noArguments)) := by
  have hnone : t[i]? = none := List.getElem?_eq_none (Nat.le_of_not_lt h)
  simp only [openingLoop, skip_end h, hnone, ok_bind, pure_eq_ok]

theorem openingLoop_advances (t : Bytes) : (openingLoop t).Advances := by
  refine Loop.advances_of_ahead rfl (fun i hi => ⟨_, openingLoop_end hi⟩)
    fun i i' b r (h : Ahead t i (b :: r)) hturn => ?_
  cases hs : skip? (b :: r) with
  | some s =>
    rw [openingLoop_skip h hs] at hturn
    split at hturn
    · cases hturn
    · cases hturn
      exact Ahead.lt_behind i hs
  | none =>
    rw [openingLoop_byte h hs] at hturn
    repeat' split at hturn
    all_goals cases hturn
    exact Nat.lt_succ_self i

/-- **The argument list is opened** at the position behind its `(`. -/
theorem run_openingLoop (h : Ahead t i u) :
    (∃ fault, openArguments u = .error fault ∧ (openingLoop t).run i = .ok (.error fault)) ∨
      ∃ e body, openArguments u = .ok body ∧ (openingLoop t).run i = .ok (.ok e) ∧
        Ahead t e body := by
  have again {i i' : Nat} (h : (openingLoop t).turn i = .ok (.again i')) :=
    (openingLoop_advances t).run_again h
  unfold openArguments
  fun_induction afterTrivia u generalizing i with
  | case1 u s hs hliteral =>
    have hturn := openingLoop_skip h hs
    rw [if_pos hliteral] at hturn
    obtain ⟨r, rfl⟩ := List.head?_eq_some_iff.1 (head?_of_literal hs hliteral)
    exact .inl ⟨.literalBeforeGroup, rfl, Loop.run_done hturn⟩
  | case2 u s hs hliteral ih =>
    have hturn := openingLoop_skip h hs
    rw [if_neg hliteral] at hturn
    rw [again hturn]
    exact ih (h.behind hs)
  | case3 hs => exact .inl ⟨.noArguments, rfl, Loop.run_done (openingLoop_end h.not_lt)⟩
  | case4 b r hs hblank ih =>
    have hturn := openingLoop_byte h hs
    have hopen : b ≠ leftParen := by
      rintro rfl
      cases hblank
    rw [if_neg hopen, if_pos hblank] at hturn
    rw [again hturn]
    exact ih h.cons
  | case5 b r hs hblank =>
    have hturn := openingLoop_byte h hs
    rw [if_neg hblank] at hturn
    dsimp only
    by_cases hopen : b = leftParen
    · rw [if_pos hopen] at hturn ⊢
      exact .inr ⟨i + 1, r, rfl, Loop.run_done hturn, h.cons⟩
    · have hquote : b ≠ doubleQuote := by
        rintro rfl
        cases hs
      rw [if_neg hopen] at hturn
      rw [if_neg hopen, if_neg hquote]
      exact .inl ⟨.byteBeforeGroup b, rfl, Loop.run_done hturn⟩

/-! ## The argument list -/

structure ArgumentState where
  position : Nat
  /-- How many parentheses are open, with the one that opens the list. -/
  depth : Nat
  reading : Reading

/-- Takes a byte that starts no context to the arguments, or the character that starts with it. -/
def argumentByte (t : Bytes) (s : ArgumentState) (b : UInt8) :
    Checked (Turn ArgumentState (Except ClauseFault (List Bytes))) := do
  if b = leftParen then
    return .again ⟨s.position + 1, s.depth + 1, s.reading.step .opening⟩
  else if b = rightParen then
    let depth ← decrease s.depth
    if depth = 0 then return .done (.ok s.reading.finish.done)
    else return .again ⟨s.position + 1, depth, s.reading.step .closing⟩
  else if b = comma ∧ s.depth = 1 then
    return .again ⟨s.position + 1, s.depth, s.reading.finish⟩
  else if isBlankByte b then
    return .again ⟨s.position + 1, s.depth, s.reading.gap⟩
  else
    let e := min (s.position + 1 + moreBytes b) t.length
    return .again ⟨e, s.depth, s.reading.push (← textPart t s.position e)⟩

/-- Goes on to the `)` that closes the argument list. -/
def argumentLoop (t : Bytes) : Loop ArgumentState (Except ClauseFault (List Bytes)) where
  bound := t.length
  position := ArgumentState.position
  turn s := do
    if s.position < t.length then
      match ← skip t s.position with
      | some (c, e) =>
        if c = .literal then
          return .again ⟨e, s.depth, s.reading.push (← textPart t s.position e)⟩
        else return .again ⟨e, s.depth, s.reading.gap⟩
      | none => argumentByte t s (← byteAt t s.position)
    else return .done (.error .unclosedArguments)

variable {reading : Reading}

theorem argumentLoop_end (h : ¬ i < t.length) :
    (argumentLoop t).turn ⟨i, d, reading⟩ = .ok (.done (.error .unclosedArguments)) := by
  simp only [argumentLoop, if_neg h, pure_eq_ok]

theorem argumentLoop_skip (h : Ahead t i u) (hs : skip? u = some s) (d : Nat) (reading : Reading) :
    (argumentLoop t).turn ⟨i, d, reading⟩ = if s.context = .literal then
      (textPart t i (i + s.text.length)).map
        fun text => .again ⟨i + s.text.length, d, reading.push text⟩
      else .ok (.again ⟨i + s.text.length, d, reading.gap⟩) := by
  simp only [argumentLoop, if_pos (h.lt_of_skip hs), h.skip_some hs, ok_bind, pure_eq_ok]
  rfl

theorem argumentLoop_byte (h : Ahead t i (b :: r)) (hs : skip? (b :: r) = none) (d : Nat)
    (reading : Reading) :
    (argumentLoop t).turn ⟨i, d, reading⟩ = argumentByte t ⟨i, d, reading⟩ b := by
  simp only [argumentLoop, if_pos h.lt, h.skip_none hs, h.byteAt, ok_bind]

theorem argumentByte_progress {s s' : ArgumentState} (h : argumentByte t s b = .ok (.again s'))
    (hi : s.position < t.length) : s.position < s'.position := by
  unfold argumentByte at h
  by_cases hopen : b = leftParen
  · rw [if_pos hopen] at h
    cases h
    exact Nat.lt_succ_self _
  rw [if_neg hopen] at h
  by_cases hclose : b = rightParen
  · rw [if_pos hclose] at h
    obtain ⟨depth, -, h⟩ := of_bind_ok h
    split at h
    · cases h
    · cases h
      exact Nat.lt_succ_self _
  rw [if_neg hclose] at h
  split at h
  · cases h
    exact Nat.lt_succ_self _
  · split at h
    · cases h
      exact Nat.lt_succ_self _
    · obtain ⟨text, -, h⟩ := of_bind_ok h
      cases h
      exact Nat.lt_min.2 ⟨by omega, hi⟩

theorem argumentLoop_advances (t : Bytes) : (argumentLoop t).Advances := by
  refine Loop.advances_of_ahead rfl (fun s hs => ⟨_, argumentLoop_end hs⟩) ?_
  rintro ⟨i, d, reading⟩ s' b r (h : Ahead t i (b :: r)) hturn
  cases hs : skip? (b :: r) with
  | some s =>
    rw [argumentLoop_skip h hs] at hturn
    split at hturn
    · obtain ⟨text, -, heq⟩ := map_eq_ok hturn
      cases heq
      exact Ahead.lt_behind i hs
    · cases hturn
      exact Ahead.lt_behind i hs
  | none =>
    rw [argumentLoop_byte h hs] at hturn
    exact argumentByte_progress hturn h.lt

/-- **A character is taken as a whole.** -/
theorem argumentByte_word (h : Ahead t i (b :: r)) (hr : WellFormed (b :: r))
    (hopen : b ≠ leftParen) (hclose : b ≠ rightParen) (hcomma : ¬ (b = comma ∧ d = 1))
    (hblank : ¬ isBlankByte b = true) : argumentByte t ⟨i, d, reading⟩ b =
      .ok (.again ⟨i + (b :: r.take (moreBytes b)).length, d,
        reading.push (b :: r.take (moreBytes b))⟩) := by
  have hsplit : b :: r.take (moreBytes b) ++ r.drop (moreBytes b) = b :: r := by
    rw [List.cons_append, List.take_append_drop]
  have hend : min (i + 1 + moreBytes b) t.length = i + (b :: r.take (moreBytes b)).length := by
    have hlength := h.length
    rw [List.length_cons] at hlength
    rw [List.length_cons, List.length_take]
    omega
  have hpart := (hsplit ▸ h).textPart (hsplit ▸ hr) (wellFormed_take_drop hr).2
  simp only [argumentByte, if_neg hopen, if_neg hclose, if_neg hcomma, if_neg hblank, hend, hpart,
    ok_bind, pure_eq_ok]

theorem ofByte?_eq_some {p : Piece} (h : Piece.ofByte? b = some p) :
    b = leftParen ∧ p = .opening ∨ b = rightParen ∧ p = .closing ∨ b = comma ∧ p = .separator ∨
      (b ≠ leftParen ∧ b ≠ rightParen ∧ b ≠ comma) ∧ isBlankByte b = true ∧ p = .gap := by
  rw [Piece.ofByte?] at h
  by_cases hopen : b = leftParen
  · rw [if_pos hopen] at h
    exact .inl ⟨hopen, (Option.some.inj h).symm⟩
  by_cases hclose : b = rightParen
  · rw [if_neg hopen, if_pos hclose] at h
    exact .inr (.inl ⟨hclose, (Option.some.inj h).symm⟩)
  by_cases hcomma : b = comma
  · rw [if_neg hopen, if_neg hclose, if_pos hcomma] at h
    exact .inr (.inr (.inl ⟨hcomma, (Option.some.inj h).symm⟩))
  rw [if_neg hopen, if_neg hclose, if_neg hcomma] at h
  split at h
  · next hblank =>
    exact .inr (.inr (.inr ⟨⟨hopen, hclose, hcomma⟩, hblank, (Option.some.inj h).symm⟩))
  · cases h

theorem ofByte?_eq_none (h : Piece.ofByte? b = none) :
    b ≠ leftParen ∧ b ≠ rightParen ∧ b ≠ comma ∧ ¬ isBlankByte b = true := by
  rw [Piece.ofByte?] at h
  repeat' split at h
  all_goals first | exact ⟨‹_›, ‹_›, ‹_›, ‹_›⟩ | cases h

/-- A byte that is a piece by itself is taken to the arguments, or it ends the list. -/
theorem argumentByte_piece {p : Piece} (h : Ahead t i (b :: r)) (hr : WellFormed (b :: r))
    (hp : Piece.ofByte? b = some p) (hd : reading.depth = d) :
    argumentByte t ⟨i, d + 1, reading⟩ b = .ok (.done (.ok reading.finish.done)) ∧
        p = .closing ∧ d = 0 ∨
      ∃ d' : Nat, argumentByte t ⟨i, d + 1, reading⟩ b =
          .ok (.again ⟨i + 1, d' + 1, reading.step p⟩) ∧
        ¬ (p = .closing ∧ d = 0) ∧ (reading.step p).depth = d' := by
  rcases ofByte?_eq_some hp with ⟨rfl, rfl⟩ | ⟨rfl, rfl⟩ | ⟨rfl, rfl⟩ | ⟨hother, hblank, rfl⟩
  · exact .inr ⟨d + 1, rfl, by simp, by simp [Reading.step, hd]⟩
  · cases d with
    | zero => exact .inl ⟨rfl, rfl, rfl⟩
    | succ d => exact .inr ⟨d, rfl, by simp, by simp [Reading.step, hd]⟩
  · refine .inr ⟨d, ?_, by simp, ?_⟩
    · cases d with
      | zero =>
        have hzero : reading.depth = 0 := hd
        rw [Reading.step, if_pos hzero]
        rfl
      | succ d =>
        have hdeep : ¬ reading.depth = 0 := by omega
        rw [argumentByte_word h hr (by decide) (by decide) (by omega) (by decide), Reading.step,
          if_neg hdeep]
        rfl
    · rw [Reading.step]
      split <;> exact hd
  · refine .inr ⟨d, ?_, by simp, hd⟩
    unfold argumentByte
    rw [if_neg hother.1, if_neg hother.2.1, if_neg fun hc => hother.2.2 hc.1, if_pos hblank]
    rfl

/-- **The arguments are read up to the end of the list.** The count of open parentheses is one more
than that of the groups inside of the list, so it is not zero where it is counted down. -/
theorem run_argumentLoop (h : Ahead t i u) (hu : WellFormed u) (hd : reading.depth = d) :
    (argumentLoop t).run ⟨i, d + 1, reading⟩ =
      .ok ((reading.read (pieces u)).elim (.error .unclosedArguments) .ok) := by
  have again {s s' : ArgumentState} (h : (argumentLoop t).turn s = .ok (.again s')) :=
    (argumentLoop_advances t).run_again h
  fun_induction pieces u generalizing i d reading with
  | case1 u s hs ih =>
    have hrest : WellFormed s.rest := wellFormed_of_skip hs hu
    have hturn := argumentLoop_skip h hs (d + 1) reading
    by_cases hliteral : s.context = .literal
    · have hpart := (skip?_append hs ▸ h).textPart (skip?_append hs ▸ hu) hrest
      rw [if_pos hliteral, hpart] at hturn
      rw [again hturn, if_pos hliteral, Reading.read_word]
      exact ih (h.behind hs) hrest hd
    · rw [if_neg hliteral] at hturn
      rw [again hturn, if_neg hliteral, Reading.read_cons (by simp)]
      exact ih (h.behind hs) hrest hd
  | case2 => exact Loop.run_done (argumentLoop_end h.not_lt)
  | case3 b r hs p hp ih =>
    have hturn := argumentLoop_byte h hs (d + 1) reading
    have hr : WellFormed r := wellFormed_of_ascii_cons (ofByte?_isAscii hp) hu
    rcases argumentByte_piece h hu hp hd with ⟨hbyte, rfl, rfl⟩ | ⟨d', hbyte, hinside, hd'⟩
    · rw [hbyte] at hturn
      rw [Loop.run_done hturn, Reading.read, if_pos ⟨rfl, hd⟩]
      rfl
    · rw [hbyte] at hturn
      rw [again hturn, Reading.read_cons fun hp => hinside ⟨hp.1, by omega⟩]
      exact ih h.cons hr hd'
  | case4 b r hs hp ih =>
    have hturn := argumentLoop_byte h hs (d + 1) reading
    obtain ⟨hopen, hclose, hcomma, hblank⟩ := ofByte?_eq_none hp
    rw [argumentByte_word h hu hopen hclose (fun hc => hcomma hc.1) hblank] at hturn
    rw [again hturn, Reading.read_word]
    refine ih (Ahead.append ?_) (wellFormed_take_drop hu).2 hd
    rwa [List.cons_append, List.take_append_drop]

/-! ## Clauses -/

/-- The method and the arguments of a clause. -/
def splitAt (t : Bytes) : Checked (Except ClauseFault (Bytes × List Bytes)) := do
  let nameStart ← (triviaLoop t).run 0
  let nameEnd ← (wordLoop t).run nameStart
  let method ← textPart t nameStart nameEnd
  match ← (openingLoop t).run nameEnd with
  | .error fault => return .error fault
  | .ok start =>
    let args ← (argumentLoop t).run ⟨start, 1, .start⟩
    return args.map fun args => (method, args)

/-- Reads a clause. -/
def parse (text : String) : Checked (Except ClauseFault Clause) := do
  let split ← splitAt (encode text)
  return split.map fun c => ⟨decodeLossy c.1, c.2.map decodeLossy⟩

theorem splitAt_eq (ht : WellFormed t) :
    splitAt t = .ok ((splitClause t).map fun c => (c.method, c.args)) := by
  obtain ⟨nameStart, htrivia, h⟩ := run_triviaLoop (ahead_zero t)
  have hword := run_wordLoop h
  have hstart : WellFormed (afterTrivia t) := wellFormed_afterTrivia ht
  have hrest := wellFormed_dropWhile hstart
  rw [splitClause]
  generalize hname : (afterTrivia t).takeWhile isWordByte = name at hword ⊢
  generalize hbehind : (afterTrivia t).dropWhile isWordByte = behind at hrest ⊢
  have happend : name ++ behind = afterTrivia t := by
    rw [← hname, ← hbehind, List.takeWhile_append_dropWhile]
  rw [← happend] at h hstart
  have hmethod := h.textPart hstart hrest
  rcases run_openingLoop h.append with ⟨fault, hopen, hrun⟩ | ⟨start, body, hopen, hrun, hbody⟩
  · simp only [splitAt, htrivia, hword, hmethod, hrun, hopen, ok_bind]
    rfl
  · have hwell : WellFormed body := by
      have hopened := wellFormed_afterTrivia hrest
      rw [openArguments_eq_ok hopen] at hopened
      exact wellFormed_of_ascii_cons (by decide) hopened
    have hargs := run_argumentLoop hbody hwell (rfl : Reading.start.depth = 0)
    rw [← argumentTexts_eq_read_pieces, Nat.zero_add] at hargs
    simp only [splitAt, htrivia, hword, hmethod, hrun, hargs, hopen, ok_bind]
    cases arguments 0 (pieces body) <;> rfl

/-- **Reading a clause by position never panics**, and gives what the clause is read as. -/
theorem parse_eq (text : String) : parse text = .ok (Clause.parse text) := by
  rw [parse, splitAt_eq (wellFormed_encode text), Clause.parse, ok_bind]
  cases splitClause (encode text) <;> rfl

end EventSchema.Source.Cursor
