import EventSchema.Proofs.Source.ClauseEnd
import EventSchema.Proofs.Source.Lexeme
import EventSchema.Proofs.Source.Reading

/-!
# Arguments read from lexemes

The reader of clauses takes characters as a whole, a row of lexemes has them byte by byte; both give
the same arguments (`read_pieces`). In a row of lexemes the list ends at the first `)` that brings
the count of parentheses below zero (`Reading.read_closing`, `Reading.exists_closing`).
-/

namespace EventSchema.Source

open Lexeme (opening closing)
open Text.Utf8

variable {r : Reading} {l : Lexeme} {ls inner : List Lexeme} {b : UInt8} {t x : Bytes}

/-! ## Pieces of lexemes -/

/-- The piece that a lexeme makes. A byte of a longer character is a word for itself. -/
def Lexeme.piece : Lexeme → Piece
  | context c text => if c = .literal then .word text else .gap
  | byte b => (Piece.ofByte? b).getD (.word [b])

theorem Lexeme.piece_byte_of_none (h : Piece.ofByte? b = none) :
    (Lexeme.byte b).piece = .word [b] := by
  rw [piece, h, Option.getD_none]

theorem Lexeme.piece_ne_parens (hopening : l ≠ opening) (hclosing : l ≠ closing) :
    l.piece ≠ .opening ∧ l.piece ≠ .closing := by
  cases l with
  | context c text =>
    rw [piece]
    split <;> exact ⟨Piece.noConfusion, Piece.noConfusion⟩
  | byte b =>
    cases hb : Piece.ofByte? b with
    | none =>
      rw [piece_byte_of_none hb]
      exact ⟨Piece.noConfusion, Piece.noConfusion⟩
    | some p =>
      rw [piece, hb, Option.getD_some]
      refine ofByte?_ne_parens ?_ ?_ hb
      · exact fun h => hopening (congrArg _ h)
      · exact fun h => hclosing (congrArg _ h)

theorem Lexeme.piece_eq_closing : l.piece = .closing ↔ l = closing := by
  constructor
  · intro h
    by_contra hclosing
    by_cases hopening : l = opening
    · subst hopening
      exact absurd h (by decide)
    · exact (piece_ne_parens hopening hclosing).2 h
  · rintro rfl
    rfl

/-! ## Pieces of a text -/

/-- No context starts inside of a character. -/
theorem Lexes.of_continues (hx : ∀ y ∈ x, Continues y) (h : Lexes (x ++ t) ls []) :
    ∃ later, ls = x.map .byte ++ later ∧ Lexes t later [] := by
  induction x generalizing ls with
  | nil => exact ⟨ls, rfl, h⟩
  | cons y x ih =>
    rw [List.forall_mem_cons] at hx
    obtain ⟨later, rfl, hlater⟩ := Lexes.of_byte (skip?_of_continues hx.1 _) h
    obtain ⟨rest, rfl, hrest⟩ := ih hx.2 hlater
    exact ⟨rest, rfl, hrest⟩

theorem map_piece_of_continues (hx : ∀ y ∈ x, Continues y) :
    (x.map Lexeme.byte).map Lexeme.piece = x.map fun y => .word [y] := by
  rw [List.map_map]
  refine List.map_congr_left fun y hy => Lexeme.piece_byte_of_none ?_
  by_contra hsome
  obtain ⟨p, hp⟩ := Option.ne_none_iff_exists'.1 hsome
  have hascii : y.toNat < 0x80 := ofByte?_isAscii hp
  have hcontinues := (hx y hy).1
  omega

/-- **A text is read like its lexemes.** The induction is on the length of the text, as the reader
takes a character of several bytes at once. -/
theorem read_pieces (ht : WellFormed t) (h : Lexes t ls []) (r : Reading) :
    r.read (pieces t) = r.read (ls.map Lexeme.piece) := by
  induction hn : t.length using Nat.strongRecOn generalizing t ls r with
  | ind n ih =>
    subst hn
    cases h with
    | nil => rw [pieces_nil, List.map_nil]
    | context hc htext later =>
      have hs := skip?_of_contextAt hc
      rw [htext] at hs
      rw [pieces_of_skip hs]
      refine Reading.read_cons_congr (fun r => ?_) r _
      exact ih _ (skip?_length_lt hs) (wellFormed_of_skip hs ht) later r rfl
    | @byte b rest _ ls hb later =>
      have hs := skip?_eq_none_iff.2 hb
      cases hp : Piece.ofByte? b with
      | some p =>
        have hpiece : (Lexeme.byte b).piece = p := by rw [Lexeme.piece, hp, Option.getD_some]
        rw [pieces_of_byte hs hp, List.map_cons, hpiece]
        refine Reading.read_cons_congr (fun r => ?_) r _
        exact ih _ (Nat.lt_succ_self _) (wellFormed_of_ascii_cons (ofByte?_isAscii hp) ht) later r
          rfl
      | none =>
        rw [pieces_cons hs, hp]
        have hchar : (∀ y ∈ rest.take (moreBytes b), Continues y) ∧
            WellFormed (rest.drop (moreBytes b)) := by
          rcases wellFormed_cons ht with ⟨hascii, hwell⟩ | ⟨-, hwell, -, hcontinues⟩
          · rw [moreBytes_of_isAscii hascii]
            exact ⟨by simp, hwell⟩
          · exact ⟨hcontinues, hwell⟩
        rw [← List.take_append_drop (moreBytes b) rest] at later
        obtain ⟨more, rfl, hmore⟩ := Lexes.of_continues hchar.1 later
        have hshort : (rest.drop (moreBytes b)).length < (b :: rest).length := by
          rw [List.length_drop, List.length_cons]
          omega
        have hmap : (Lexeme.byte b :: (List.map Lexeme.byte (rest.take (moreBytes b)) ++ more)).map
            Lexeme.piece = (b :: rest.take (moreBytes b)).map (fun y => .word [y]) ++
              more.map Lexeme.piece := by
          rw [List.map_cons, List.map_append, map_piece_of_continues hchar.1,
            Lexeme.piece_byte_of_none hp]
          rfl
        rw [Reading.read_word_cons, hmap]
        refine Reading.read_append_congr (fun r => ?_) r _
        exact ih _ hshort hchar.2 hmore r rfl

theorem word_nil_notMem_pieces (t : Bytes) : ∀ p ∈ pieces t, p ≠ .word [] := by
  fun_induction pieces t with
  | case1 t s hs ih =>
    refine List.forall_mem_cons.2 ⟨?_, ih⟩
    split
    · exact fun h => skip?_text_ne_nil hs (Piece.word.inj h)
    · exact Piece.noConfusion
  | case2 => exact List.forall_mem_nil _
  | case3 b rest hs p hp ih =>
    refine List.forall_mem_cons.2 ⟨?_, ih⟩
    rintro rfl
    rw [Piece.ofByte?] at hp
    repeat' split at hp
    all_goals cases hp
  | case4 b rest hs hp ih =>
    refine List.forall_mem_cons.2 ⟨?_, ih⟩
    exact fun h => List.cons_ne_nil _ _ (Piece.word.inj h)

/-- The arguments of a text are read from its pieces. -/
theorem argumentTexts_eq_read_pieces (t : Bytes) :
    ((arguments 0 (pieces t)).map fun a => (a.1.map argumentText).filter (· ≠ [])) =
      Reading.start.read (pieces t) := by
  rw [Reading.read_eq_arguments (d := 0) rfl (word_nil_notMem_pieces t)]
  refine Option.map_congr fun a ha => ?_
  obtain ⟨first, others, hargs⟩ := List.exists_cons_of_ne_nil (Reading.arguments_ne_nil ha)
  rw [hargs]
  simp [Reading.all, Reading.start, Reading.extended]

/-- **The arguments of a text are read from its lexemes.** -/
theorem argumentTexts_eq_read (ht : WellFormed t) (h : Lexes t ls []) :
    ((arguments 0 (pieces t)).map fun a => (a.1.map argumentText).filter (· ≠ [])) =
      Reading.start.read (ls.map Lexeme.piece) := by
  rw [argumentTexts_eq_read_pieces, read_pieces ht h]

namespace Reading

/-! ## The end of the list -/

theorem depth_step (r : Reading) (l : Lexeme) : (r.step l.piece).depth = r.depth + level [l] := by
  by_cases hopening : l = opening
  · subst hopening
    rw [level_opening]
    rfl
  · by_cases hclosing : l = closing
    · subst hclosing
      rw [level_closing]
      rfl
    · obtain ⟨hopen, hclose⟩ := Lexeme.piece_ne_parens hopening hclosing
      rw [level_singleton_of_ne hopening hclosing, Int.add_zero]
      cases hp : l.piece with
      | opening => exact absurd hp hopen
      | closing => exact absurd hp hclose
      | gap | word => rfl
      | separator =>
        rw [step]
        split <;> rfl

/-- The state after some lexemes. -/
def after (r : Reading) (ls : List Lexeme) : Reading := (ls.map Lexeme.piece).foldl step r

@[simp] theorem after_nil (r : Reading) : r.after [] = r := rfl

@[simp] theorem after_cons (r : Reading) (l : Lexeme) (ls : List Lexeme) :
    r.after (l :: ls) = (r.step l.piece).after ls := rfl

theorem after_append (r : Reading) (ls ms : List Lexeme) :
    r.after (ls ++ ms) = (r.after ls).after ms := by
  rw [after, List.map_append, List.foldl_append]
  rfl

theorem depth_after (r : Reading) (ls : List Lexeme) : (r.after ls).depth = r.depth + level ls := by
  induction ls generalizing r with
  | nil => simp
  | cons l ls ih =>
    have hlevel := level_append [l] ls
    rw [List.singleton_append] at hlevel
    rw [after_cons, ih, depth_step, hlevel, Int.add_assoc]

/-- The list goes on while its parentheses are balanced or more are open. -/
theorem read_append_of_staysAbove (h : StaysAbove (r.depth + 1) ls) (ps : List Piece) :
    r.read (ls.map Lexeme.piece ++ ps) = (r.after ls).read ps := by
  induction ls generalizing r with
  | nil => rfl
  | cons l ls ih =>
    have hopen : ¬ (l.piece = .closing ∧ r.depth = 0) := by
      rintro ⟨hl, hdepth⟩
      rw [Lexeme.piece_eq_closing] at hl
      subst hl
      have hlt := h.lt_of_closing
      omega
    have hrest : StaysAbove ((r.step l.piece).depth + 1) ls := by
      have htail := h.tail
      rw [depth_step]
      rwa [Int.add_right_comm] at htail
    rw [List.map_cons, List.cons_append, read_cons hopen, ih hrest, after_cons]

/-- A list that is closed has the arguments that were read up to there. -/
theorem read_closing (h : StaysAbove (r.depth + 1) inner) (hlevel : r.depth + level inner = 0)
    (tail : List Lexeme) :
    r.read ((inner ++ closing :: tail).map Lexeme.piece) = some (r.after inner).finish.done := by
  rw [List.map_append, read_append_of_staysAbove h, List.map_cons, read, if_pos]
  exact ⟨rfl, (depth_after r inner).trans hlevel⟩

/-- Where a list is read, it is closed. -/
theorem exists_closing {args : List Bytes} (hdepth : 0 ≤ r.depth)
    (h : r.read (ls.map Lexeme.piece) = some args) :
    ∃ inner tail, ls = inner ++ closing :: tail ∧ StaysAbove (r.depth + 1) inner ∧
      r.depth + level inner = 0 := by
  induction ls generalizing r with
  | nil => cases h
  | cons l ls ih =>
    by_cases hl : l = closing ∧ r.depth = 0
    · obtain ⟨rfl, hzero⟩ := hl
      exact ⟨[], ls, rfl, staysAbove_nil _, by simp [hzero]⟩
    · rw [List.map_cons, read_cons (by rwa [Lexeme.piece_eq_closing])] at h
      have hnonneg : 0 ≤ (r.step l.piece).depth := by
        rw [depth_step]
        by_cases hopening : l = opening
        · rw [hopening, level_opening]
          omega
        · by_cases hclosing : l = closing
          · have hne : r.depth ≠ 0 := fun hzero => hl ⟨hclosing, hzero⟩
            rw [hclosing, level_closing]
            omega
          · rwa [level_singleton_of_ne hopening hclosing, Int.add_zero]
      obtain ⟨inner, tail, rfl, habove, hlevel⟩ := ih hnonneg h
      rw [depth_step, Int.add_right_comm] at habove
      rw [depth_step, Int.add_assoc, ← level_append] at hlevel
      refine ⟨l :: inner, tail, rfl, staysAbove_cons ?_ habove, hlevel⟩
      intro hclosing
      have hne : r.depth ≠ 0 := fun hzero => hl ⟨hclosing, hzero⟩
      omega

end Reading

end EventSchema.Source
