import EventSchema.Proofs.Cursor.Basic
import EventSchema.Proofs.Source.Locality

/-!
# Skipping by position

The contexts of a text, skipped by a cursor. At the end of a text the cursor may go beyond it, where
a backslash takes a byte along that is not there, and it may stand inside of a character. It never
panics, and it ends up right behind what is skipped (`skip_eq`).
-/

namespace EventSchema.Source.Cursor

variable {t u r : Bytes} {b : UInt8} {c : Context} {i e : Nat} {s : Skip}

/-! ## Ends of lines and of block comments -/

/-- The position behind the block comment that opens at a position. -/
def blockEnd (t : Bytes) (i : Nat) : Nat :=
  let body := t.drop (i + 2)
  match (body.zip body.tail).findIdx? (· == (star, slash)) with
  | some k => i + 2 + k + 2
  | none => t.length

def lineEnd (t : Bytes) (i : Nat) : Checked Nat := do
  let line ← part t i t.length
  match line.findIdx? (· == newline) with
  | some k => return i + k
  | none => return t.length

theorem length_throughCommentEnd (t : Bytes) : (throughCommentEnd t).1.length =
    match (t.zip t.tail).findIdx? (· == (star, slash)) with
    | some k => k + 2
    | none => t.length := by
  induction t with
  | nil => rfl
  | cons b rest ih =>
    cases rest with
    | nil => simp [throughCommentEnd]
    | cons c rest =>
      have hzip : (b :: c :: rest).zip (b :: c :: rest).tail =
          (b, c) :: (c :: rest).zip (c :: rest).tail := rfl
      rw [throughCommentEnd, hzip, List.findIdx?_cons]
      by_cases hend : b = star ∧ c = slash
      · simp [hend]
      · have hhead : ¬ (b = star ∧ (c :: rest).head? = some slash) := by simpa using hend
        rw [if_neg hhead, if_neg (by simpa using hend), List.length_cons, ih]
        cases ((c :: rest).zip (c :: rest).tail).findIdx? (· == (star, slash)) <;> rfl

theorem length_throughLine (t : Bytes) : (throughLine t).1.length =
    (t.findIdx? (· == newline)).getD t.length := by
  induction t with
  | nil => rfl
  | cons b rest ih =>
    rw [throughLine, List.findIdx?_cons]
    by_cases hend : b = newline
    · simp [hend]
    · rw [if_neg hend, if_neg (by simpa using hend), List.length_cons, ih]
      cases rest.findIdx? (· == newline) <;> rfl

theorem blockEnd_eq (h : Ahead t i (slash :: star :: u)) :
    blockEnd t i = i + (slash :: star :: (throughCommentEnd u).1).length := by
  have hbody : Ahead t (i + 2) u := h.cons.cons
  have hlength := hbody.length
  rw [blockEnd, hbody.drop, List.length_cons, List.length_cons, length_throughCommentEnd]
  cases (u.zip u.tail).findIdx? (· == (star, slash)) with
  | some k => simp only; omega
  | none => simp only; omega

theorem lineEnd_eq (h : Ahead t i u) : lineEnd t i = .ok (i + (throughLine u).1.length) := by
  have hlength := h.length
  rw [lineEnd, h.part_all, ok_bind, length_throughLine]
  cases u.findIdx? (· == newline) with
  | some k => rfl
  | none => exact congrArg Except.ok hlength.symm

/-! ## Directives -/

/-- Goes on to the end of a directive line. -/
def directiveLoop (t : Bytes) : Loop Nat Nat where
  bound := t.length
  position := id
  turn i := do
    if i < t.length then
      let b ← byteAt t i
      if b = newline then return .done i
      else if b = slash ∧ t[i + 1]? = some star then return .done (blockEnd t i)
      else return .again (i + 1)
    else return .done t.length

theorem directiveLoop_cons (h : Ahead t i (b :: r)) : (directiveLoop t).turn i =
    .ok (if b = newline then .done i
      else if b = slash ∧ r.head? = some star then .done (blockEnd t i)
      else .again (i + 1)) := by
  simp only [directiveLoop, if_pos h.lt, h.byteAt, ok_bind, h.second?, pure_eq_ok]
  split
  · rfl
  · split <;> rfl

theorem directiveLoop_end (h : ¬ i < t.length) :
    (directiveLoop t).turn i = .ok (.done t.length) := by
  simp only [directiveLoop, if_neg h, pure_eq_ok]

theorem directiveLoop_advances (t : Bytes) : (directiveLoop t).Advances := by
  refine Loop.advances_of_ahead rfl (fun i hi => ⟨_, directiveLoop_end hi⟩)
    fun i i' b r (h : Ahead t i (b :: r)) hturn => ?_
  rw [directiveLoop_cons h] at hturn
  split at hturn
  · cases hturn
  · split at hturn
    · cases hturn
    · cases hturn
      exact Nat.lt_succ_self i

theorem run_directiveLoop (h : Ahead t i u) :
    (directiveLoop t).run i = .ok (i + (throughDirective u).1.length) := by
  induction u generalizing i with
  | nil =>
    rw [Loop.run_done (directiveLoop_end h.not_lt), ← h.length]
    rfl
  | cons b r ih =>
    have hturn := directiveLoop_cons h
    rw [throughDirective]
    by_cases hline : b = newline
    · rw [if_pos hline] at hturn ⊢
      exact Loop.run_done hturn
    · by_cases hopen : b = slash ∧ r.head? = some star
      · rw [if_neg hline, if_pos hopen] at hturn ⊢
        obtain ⟨tail, rfl⟩ := List.head?_eq_some_iff.1 hopen.2
        rw [hopen.1] at h
        rw [Loop.run_done hturn, blockEnd_eq h]
        rfl
      · rw [if_neg hline, if_neg hopen] at hturn ⊢
        rw [(directiveLoop_advances t).run_again hturn, ih h.cons, List.length_cons,
          Nat.add_assoc, Nat.add_comm 1]

/-! ## Literals -/

/-- Goes on behind the quote that closes a literal. -/
def quoteLoop (t : Bytes) : Loop Nat Nat where
  bound := t.length
  position := id
  turn i := do
    if i < t.length then
      let b ← byteAt t i
      if b = backslash then return .again (i + 2)
      else if b = doubleQuote then return .done (i + 1)
      else return .again (i + 1)
    else return .done t.length

theorem quoteLoop_cons (h : Ahead t i (b :: r)) : (quoteLoop t).turn i =
    .ok (if b = backslash then .again (i + 2)
      else if b = doubleQuote then .done (i + 1)
      else .again (i + 1)) := by
  simp only [quoteLoop, if_pos h.lt, h.byteAt, ok_bind, pure_eq_ok]
  split
  · rfl
  · split <;> rfl

theorem quoteLoop_end (h : ¬ i < t.length) : (quoteLoop t).turn i = .ok (.done t.length) := by
  simp only [quoteLoop, if_neg h, pure_eq_ok]

theorem quoteLoop_advances (t : Bytes) : (quoteLoop t).Advances := by
  refine Loop.advances_of_ahead rfl (fun i hi => ⟨_, quoteLoop_end hi⟩)
    fun i i' b r (h : Ahead t i (b :: r)) hturn => ?_
  rw [quoteLoop_cons h] at hturn
  split at hturn
  · cases hturn
    exact Nat.lt_add_of_pos_right (by decide)
  · split at hturn
    · cases hturn
    · cases hturn
      exact Nat.lt_succ_self i

theorem run_quoteLoop (h : Ahead t i u) :
    (quoteLoop t).run i = .ok (i + (throughQuote u).1.length) := by
  fun_induction throughQuote u generalizing i with
  | case1 =>
    rw [Loop.run_done (quoteLoop_end h.not_lt), ← h.length]
  | case2 b =>
    -- the last byte; a backslash takes the cursor beyond the end
    have hturn := quoteLoop_cons h
    have hlength := h.length
    by_cases hslash : b = backslash
    · rw [if_pos hslash] at hturn
      have hend : ¬ i + 2 < t.length := by
        rw [← hlength, List.length_singleton]
        omega
      rw [(quoteLoop_advances t).run_again hturn, Loop.run_done (quoteLoop_end hend), hlength]
    · rw [if_neg hslash] at hturn
      split at hturn
      · exact Loop.run_done hturn
      · rw [(quoteLoop_advances t).run_again hturn, Loop.run_done (quoteLoop_end h.cons.not_lt),
          hlength]
  | case3 c rest =>
    have hturn := quoteLoop_cons h
    rw [if_neg (by decide), if_pos rfl] at hturn
    exact Loop.run_done hturn
  | case4 c rest _ ih =>
    have hturn := quoteLoop_cons h
    rw [if_pos rfl] at hturn
    rw [(quoteLoop_advances t).run_again hturn, ih h.cons.cons, List.length_cons, List.length_cons]
    congr 1
    omega
  | case5 b c rest hquote hslash ih =>
    have hturn := quoteLoop_cons h
    rw [if_neg hslash, if_neg hquote] at hturn
    rw [(quoteLoop_advances t).run_again hturn, ih h.cons, List.length_cons]
    congr 1
    omega

/-! ## Contexts -/

/-- The kind of the context that starts at a position, if one does, and the position behind it. -/
def skip (t : Bytes) (i : Nat) : Checked (Option (Context × Nat)) :=
  match t[i]? with
  | none => return none
  | some b =>
    if b = slash then
      if t[i + 1]? = some star then return some (.comment, blockEnd t i)
      else if t[i + 1]? = some slash then return some (.comment, ← lineEnd t i)
      else return none
    else if b = hash then return some (.directive, ← (directiveLoop t).run (i + 1))
    else if b = doubleQuote then return some (.literal, ← (quoteLoop t).run (i + 1))
    else return none

/-- What starts at a position is what starts the text from there on. -/
def skipAt (t : Bytes) (i : Nat) : Option (Context × Nat) :=
  (skip? (t.drop i)).map fun s => (s.context, i + s.text.length)

/-- A slash starts a comment if the byte behind it says so. -/
theorem skip_slash (h : Ahead t i (slash :: r)) : skip t i = .ok (skipAt t i) := by
  rw [skip, h.head?, skipAt, h.drop, skip?, h.second?]
  dsimp only [List.head?_cons]
  rw [if_pos rfl, if_pos rfl]
  by_cases hstar : r.head? = some star
  · obtain ⟨tail, rfl⟩ := List.head?_eq_some_iff.1 hstar
    rw [if_pos hstar, if_pos hstar, blockEnd_eq h]
    rfl
  rw [if_neg hstar, if_neg hstar]
  by_cases hline : r.head? = some slash
  · rw [if_pos hline, if_pos hline, lineEnd_eq h, throughLine, if_neg (by decide)]
    rfl
  · rw [if_neg hline, if_neg hline]
    rfl

theorem skip_hash (h : Ahead t i (hash :: r)) : skip t i = .ok (skipAt t i) := by
  have hskip : skip t i =
      (do return some (.directive, ← (directiveLoop t).run (i + 1))) := by rw [skip, h.head?]; rfl
  rw [hskip, run_directiveLoop h.cons, skipAt, h.drop, Nat.add_right_comm, Nat.add_assoc]
  rfl

theorem skip_doubleQuote (h : Ahead t i (doubleQuote :: r)) : skip t i = .ok (skipAt t i) := by
  have hskip : skip t i =
      (do return some (.literal, ← (quoteLoop t).run (i + 1))) := by rw [skip, h.head?]; rfl
  rw [hskip, run_quoteLoop h.cons, skipAt, h.drop, Nat.add_right_comm, Nat.add_assoc]
  rfl

/-- **Skipping never panics**, and ends behind what is skipped. -/
theorem skip_eq (t : Bytes) (i : Nat) : skip t i = .ok (skipAt t i) := by
  cases hdrop : t.drop i with
  | nil =>
    have hend : t[i]? = none := List.getElem?_eq_none (List.drop_eq_nil_iff.1 hdrop)
    rw [skip, hend, skipAt, hdrop]
    rfl
  | cons b r =>
    have h : Ahead t i (b :: r) := ahead_of_drop hdrop
    by_cases hslash : b = slash
    · exact skip_slash (hslash ▸ h)
    by_cases hhash : b = hash
    · exact skip_hash (hhash ▸ h)
    by_cases hquote : b = doubleQuote
    · exact skip_doubleQuote (hquote ▸ h)
    rw [skip, h.head?, skipAt, hdrop, skip?]
    dsimp only [List.head?_cons]
    simp only [if_neg hslash, if_neg hhash, if_neg hquote]
    rfl

/-- **What is skipped is at least one byte** of the text, and no more than there is. -/
theorem skipAt_progress (h : skipAt t i = some (c, e)) : i < e ∧ e ≤ t.length := by
  obtain ⟨s, hs, heq⟩ := Option.map_eq_some_iff.1 h
  cases heq
  have hpos := List.length_pos_iff.2 (skip?_text_ne_nil hs)
  have hlength := congrArg List.length (skip?_append hs)
  rw [List.length_append, List.length_drop] at hlength
  omega

theorem skip_progress (h : skip t i = .ok (some (c, e))) : i < e ∧ e ≤ t.length := by
  rw [skip_eq, Except.ok.injEq] at h
  exact skipAt_progress h

theorem skip_end (h : ¬ i < t.length) : skip t i = .ok none := by
  rw [skip, List.getElem?_eq_none (Nat.le_of_not_lt h)]
  rfl

namespace Ahead

theorem skip_none (h : Ahead t i u) (hs : skip? u = none) : skip t i = .ok none := by
  rw [skip_eq, skipAt, h.drop, hs]
  rfl

theorem skip_some (h : Ahead t i u) (hs : skip? u = some s) :
    skip t i = .ok (some (s.context, i + s.text.length)) := by
  rw [skip_eq, skipAt, h.drop, hs]
  rfl

theorem behind (h : Ahead t i u) (hs : skip? u = some s) :
    Ahead t (i + s.text.length) s.rest :=
  append (skip?_append hs ▸ h)

theorem lt_of_skip (h : Ahead t i u) (hs : skip? u = some s) : i < t.length := by
  have hlength := h.length
  have hrest := skip?_length_lt hs
  omega

theorem lt_behind (i : Nat) (hs : skip? u = some s) : i < i + s.text.length :=
  Nat.lt_add_of_pos_right (List.length_pos_iff.2 (skip?_text_ne_nil hs))

end Ahead

/-- A cursor is at the end, or before a context, or before a byte that starts none. -/
theorem ahead_cases (t : Bytes) (i : Nat) : ¬ i < t.length ∨
    (∃ u s, Ahead t i u ∧ skip? u = some s) ∨
      ∃ b r, Ahead t i (b :: r) ∧ skip? (b :: r) = none := by
  by_cases hi : i < t.length
  · obtain ⟨b, r, h⟩ := exists_ahead hi
    cases hs : skip? (b :: r) with
    | some s => exact .inr (.inl ⟨_, s, h, hs⟩)
    | none => exact .inr (.inr ⟨b, r, h, hs⟩)
  · exact .inl hi

end EventSchema.Source.Cursor
