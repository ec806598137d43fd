import EventSchema.Proofs.Source.LexemeReading
import EventSchema.Proofs.Source.Written

/-!
# How a clause is laid out

The lexemes of a clause are trivia, its name, trivia again, and an argument list between balanced
parentheses. A text with this layout is read as the clause that the layout gives
(`Layout.Of.splitClause`), and every text that is read as a clause has such a layout
(`exists_layout`).
-/

namespace EventSchema.Source

open Lexeme (opening closing texts)
open Text (isBlankByte)
open Text.Utf8

variable {t m body : Bytes} {b : UInt8} {l : Lexeme} {ls ms gap : List Lexeme}

/-! ## Trivia -/

/-- Comments, directives and blanks. -/
inductive Lexeme.IsTrivia : Lexeme → Prop
  | context {c : Context} {text : Bytes} (h : c ≠ .literal) : IsTrivia (.context c text)
  | blank {b : UInt8} (h : isBlankByte b = true) : IsTrivia (.byte b)

theorem Lexeme.isTrivia_context {c : Context} {text : Bytes} :
    (Lexeme.context c text).IsTrivia ↔ c ≠ .literal :=
  ⟨fun h => by cases h; assumption, .context⟩

theorem Lexeme.isTrivia_byte : (Lexeme.byte b).IsTrivia ↔ isBlankByte b = true :=
  ⟨fun h => by cases h; assumption, .blank⟩

theorem afterTrivia_of_lexes (h : Lexes t ls m) (hls : ∀ l ∈ ls, l.IsTrivia) :
    afterTrivia t = afterTrivia m := by
  induction h with
  | nil => rfl
  | context hc ht _ ih =>
    rw [List.forall_mem_cons, Lexeme.isTrivia_context] at hls
    have hs := skip?_of_contextAt hc
    rw [ht] at hs
    rw [afterTrivia_of_skip hs, if_neg hls.1]
    exact ih hls.2
  | byte hb _ ih =>
    rw [List.forall_mem_cons, Lexeme.isTrivia_byte] at hls
    rw [afterTrivia_cons (skip?_eq_none_iff.2 hb), if_pos hls.1]
    exact ih hls.2

/-- Trivia at the start of a text are lexemes at the start of its row. -/
theorem lexes_afterTrivia (h : Lexes t ls []) :
    ∃ front back, ls = front ++ back ∧ (∀ l ∈ front, l.IsTrivia) ∧
      Lexes (afterTrivia t) back [] := by
  fun_induction afterTrivia t generalizing ls with
  | case1 => exact ⟨[], ls, rfl, List.forall_mem_nil _, h⟩
  | case2 t s hs hliteral ih =>
    obtain ⟨later, rfl, hlater⟩ := h.of_skip hs
    obtain ⟨front, back, rfl, hfront, hback⟩ := ih hlater
    exact ⟨_ :: front, back, rfl, List.forall_mem_cons.2 ⟨.context hliteral, hfront⟩, hback⟩
  | case3 => exact ⟨[], ls, rfl, List.forall_mem_nil _, h⟩
  | case4 b rest hs hblank ih =>
    obtain ⟨later, rfl, hlater⟩ := h.of_byte hs
    obtain ⟨front, back, rfl, hfront, hback⟩ := ih hlater
    exact ⟨_ :: front, back, rfl, List.forall_mem_cons.2 ⟨.blank hblank, hfront⟩, hback⟩
  | case5 => exact ⟨[], ls, rfl, List.forall_mem_nil _, h⟩

theorem afterTrivia_afterTrivia (t : Bytes) : afterTrivia (afterTrivia t) = afterTrivia t := by
  fun_induction afterTrivia t with
  | case1 t s hs hliteral => rw [afterTrivia_of_skip hs, if_pos hliteral]
  | case2 t s hs hliteral ih => exact ih
  | case3 => rw [afterTrivia]; rfl
  | case4 b rest hs hblank ih => exact ih
  | case5 b rest hs hblank => rw [afterTrivia_cons hs, if_neg hblank]

/-! ## Names -/

theorem Lexeme.texts_map_byte (t : Bytes) : texts (t.map .byte) = t := by
  rw [texts, List.flatMap_map]
  exact List.flatMap_singleton' t

theorem afterTrivia_of_isWordByte (h : isWordByte b = true) (t : Bytes) :
    afterTrivia (b :: t) = b :: t := by
  rw [afterTrivia_cons (skip?_of_isWordByte h t), if_neg (not_isBlankByte_of_isWordByte h)]

theorem afterTrivia_leftParen (t : Bytes) : afterTrivia (leftParen :: t) = leftParen :: t :=
  afterTrivia_cons rfl

theorem dropWhile_of_takeWhile (h : t.takeWhile isWordByte = []) : t.dropWhile isWordByte = t := by
  have happend := List.takeWhile_append_dropWhile (p := isWordByte) (l := t)
  rwa [h] at happend

theorem lexes_dropWhile (h : Lexes t ls []) :
    ∃ later, ls = (t.takeWhile isWordByte).map .byte ++ later ∧
      Lexes (t.dropWhile isWordByte) later [] := by
  induction t generalizing ls with
  | nil => exact ⟨ls, rfl, h⟩
  | cons b t ih =>
    by_cases hb : isWordByte b = true
    · obtain ⟨later, rfl, hlater⟩ := Lexes.of_byte (skip?_of_isWordByte hb t) h
      obtain ⟨rest, rfl, hrest⟩ := ih hlater
      refine ⟨rest, ?_, ?_⟩
      · rw [List.takeWhile_cons_of_pos hb]
        rfl
      · rwa [List.dropWhile_cons_of_pos hb]
    · refine ⟨ls, ?_, ?_⟩
      · rw [List.takeWhile_cons_of_neg hb]
        rfl
      · rwa [List.dropWhile_cons_of_neg hb]

/-- A name ends before trivia and before the `(`. -/
theorem takeWhile_of_lexes (h : Lexes t (gap ++ opening :: ls) []) (hgap : ∀ l ∈ gap, l.IsTrivia) :
    t.takeWhile isWordByte = [] := by
  cases t with
  | nil => rfl
  | cons b t =>
    refine List.takeWhile_cons_of_neg fun hword => ?_
    obtain ⟨later, hrow, -⟩ := h.of_byte (skip?_of_isWordByte hword t)
    cases gap with
    | nil =>
      cases hrow
      exact absurd hword (by decide)
    | cons x gap =>
      obtain ⟨rfl, -⟩ := List.cons.inj hrow
      exact not_isBlankByte_of_isWordByte hword
        (Lexeme.isTrivia_byte.1 (hgap _ List.mem_cons_self))

/-- The list of a clause starts with a whole character. -/
theorem wellFormed_body (ht : WellFormed t)
    (h : afterTrivia ((afterTrivia t).dropWhile isWordByte) = leftParen :: body) :
    WellFormed body := by
  have hafter := wellFormed_afterTrivia (wellFormed_dropWhile (wellFormed_afterTrivia ht))
  rw [h] at hafter
  exact wellFormed_of_ascii_cons (by decide) hafter

/-! ## Layouts -/

/-- The lexemes of a clause. -/
structure Layout where
  /-- Before the name. -/
  lead : List Lexeme
  name : Bytes
  /-- Between the name and the `(`. -/
  gap : List Lexeme
  /-- Between the `(` and the `)` that matches it. -/
  inner : List Lexeme
  /-- After that `)`. -/
  tail : List Lexeme

namespace Layout

variable {l : Layout}

/-- What comes before the `(`. -/
def head (l : Layout) : List Lexeme := l.lead ++ l.name.map .byte ++ l.gap

/-- The argument list with its parentheses, and what comes after it. -/
def list (l : Layout) : List Lexeme := opening :: (l.inner ++ closing :: l.tail)

/-- All lexemes. -/
def row (l : Layout) : List Lexeme := l.head ++ l.list

/-- The arguments in the list. -/
def args (l : Layout) : List Bytes := (Reading.start.after l.inner).finish.done

/-- The layout of a text. -/
structure Of (l : Layout) (t : Bytes) : Prop where
  lexes : Lexes t l.row []
  lead : ∀ x ∈ l.lead, x.IsTrivia
  name : ∀ b ∈ l.name, isWordByte b = true
  gap : ∀ x ∈ l.gap, x.IsTrivia
  /-- Where a clause has no name, all trivia are in front of it. -/
  nameless : l.name = [] → l.gap = []
  /-- The first `)` that matches the `(` comes after the list. -/
  above : StaysAbove 1 l.inner
  level : level l.inner = 0

/-- What comes before the name is skipped, and no more than that. -/
theorem Of.afterTrivia_eq (h : l.Of t) :
    ∃ rest, afterTrivia t = l.name ++ rest ∧ Lexes rest (l.gap ++ l.list) [] := by
  have hrow := h.lexes
  rw [row, head, List.append_assoc, List.append_assoc] at hrow
  obtain ⟨start, hlead, hstart⟩ := hrow.of_append
  obtain ⟨rest, hname, hrest⟩ := hstart.of_append
  have htext : l.name ++ rest = start := by
    have happend := hname.texts_append
    rwa [Lexeme.texts_map_byte] at happend
  refine ⟨rest, ?_, hrest⟩
  rw [afterTrivia_of_lexes hlead h.lead, ← htext]
  cases hn : l.name with
  | cons b name =>
    have hb : isWordByte b = true := h.name b (by rw [hn]; exact List.mem_cons_self)
    exact afterTrivia_of_isWordByte hb _
  | nil =>
    rw [h.nameless hn] at hrest
    cases hrest with
    | byte => exact afterTrivia_leftParen _

theorem Of.reads (h : l.Of t) :
    ∃ body, (afterTrivia t).takeWhile isWordByte = l.name ∧
      afterTrivia ((afterTrivia t).dropWhile isWordByte) = leftParen :: body ∧
      Lexes body (l.inner ++ closing :: l.tail) [] := by
  obtain ⟨rest, hstart, hrest⟩ := h.afterTrivia_eq
  have hend : rest.takeWhile isWordByte = [] := takeWhile_of_lexes hrest h.gap
  have hsame : rest.dropWhile isWordByte = rest := dropWhile_of_takeWhile hend
  obtain ⟨m, hgap, hm⟩ := hrest.of_append
  cases hm with
  | @byte _ body _ _ _ hbody =>
    refine ⟨body, ?_, ?_, hbody⟩
    · rw [hstart, List.takeWhile_append_of_pos h.name, hend, List.append_nil]
    · rw [hstart, List.dropWhile_append_of_pos h.name, hsame, afterTrivia_of_lexes hgap h.gap,
        afterTrivia_leftParen]

/-- **A text with a layout is split as the layout says.** -/
theorem Of.splitClause_eq (h : l.Of t) (ht : WellFormed t) :
    ∃ unread, splitClause t = .ok ⟨l.name, l.args, unread⟩ := by
  obtain ⟨body, hname, hrest, hbody⟩ := h.reads
  have hopen : openArguments ((afterTrivia t).dropWhile isWordByte) = .ok body := by
    rw [openArguments, hrest]
    rfl
  have hread := argumentTexts_eq_read (wellFormed_body ht hrest) hbody
  have habove : StaysAbove (Reading.start.depth + 1) l.inner := h.above
  have hlevel : Reading.start.depth + EventSchema.Source.level l.inner = 0 :=
    (Int.zero_add _).trans h.level
  rw [Reading.read_closing habove hlevel] at hread
  obtain ⟨⟨args, unread⟩, hargs, htexts⟩ := Option.map_eq_some_iff.1 hread
  refine ⟨unread, ?_⟩
  rw [splitClause_eq_ok hopen hargs, hname, htexts, Layout.args]

end Layout

/-! ## Every clause -/

theorem openArguments_eq_ok (h : openArguments t = .ok body) :
    afterTrivia t = leftParen :: body := by
  rw [openArguments] at h
  split at h
  · cases h
  · next b rest hstart =>
    split at h
    · next hb =>
      cases h
      rw [hstart, hb]
    · split at h <;> cases h

/-- What stands between a name and the `(`. Without a name it is nothing, as the trivia in front of
the `(` have been skipped already. -/
theorem exists_gap (h : Lexes (t.dropWhile isWordByte) ls []) (ht : afterTrivia t = t)
    (hopen : afterTrivia (t.dropWhile isWordByte) = leftParen :: body) :
    ∃ gap later, ls = gap ++ opening :: later ∧ (∀ l ∈ gap, l.IsTrivia) ∧
      (t.takeWhile isWordByte = [] → gap = []) ∧ Lexes body later [] := by
  by_cases hname : t.takeWhile isWordByte = []
  · rw [dropWhile_of_takeWhile hname] at h hopen
    obtain rfl : t = leftParen :: body := ht.symm.trans hopen
    obtain ⟨later, rfl, hlater⟩ := h.of_byte rfl
    exact ⟨[], later, rfl, List.forall_mem_nil _, fun _ => rfl, hlater⟩
  · obtain ⟨gap, back, rfl, hgap, hback⟩ := lexes_afterTrivia h
    rw [hopen] at hback
    obtain ⟨later, rfl, hlater⟩ := hback.of_byte rfl
    exact ⟨gap, later, rfl, hgap, fun h => absurd h hname, hlater⟩

theorem of_splitClause_eq_ok {c : SplitClause} (h : splitClause t = .ok c) :
    ∃ body, openArguments ((afterTrivia t).dropWhile isWordByte) = .ok body ∧
      ∃ args, arguments 0 (pieces body) = some args := by
  rw [splitClause] at h
  split at h
  · cases h
  · next body hopen =>
    split at h
    · cases h
    · next args unread hargs => exact ⟨body, hopen, _, hargs⟩

/-- **Every text that is read as a clause has a layout.** -/
theorem exists_layout {c : SplitClause} (ht : WellFormed t) (h : splitClause t = .ok c) :
    ∃ l : Layout, l.Of t := by
  obtain ⟨body, hopen, args, hargs⟩ := of_splitClause_eq_ok h
  have hstart := openArguments_eq_ok hopen
  obtain ⟨ls, hls⟩ := exists_lexes t
  obtain ⟨lead, afterLead, rfl, hlead, hafterLead⟩ := lexes_afterTrivia hls
  obtain ⟨afterName, rfl, hafterName⟩ := lexes_dropWhile hafterLead
  obtain ⟨gap, list, rfl, hgap, hnameless, hlist⟩ :=
    exists_gap hafterName (afterTrivia_afterTrivia t) hstart
  have hread := argumentTexts_eq_read (wellFormed_body ht hstart) hlist
  rw [hargs, Option.map_some] at hread
  obtain ⟨inner, tail, rfl, habove, hlevel⟩ := Reading.exists_closing (Int.le_refl 0) hread.symm
  refine ⟨⟨lead, (afterTrivia t).takeWhile isWordByte, gap, inner, tail⟩, ?_, hlead, ?_, hgap,
    hnameless, habove, ?_⟩
  · simpa [Layout.row, Layout.head, Layout.list] using hls
  · intro b hb
    exact List.all_eq_true.1 List.all_takeWhile b hb
  · exact (Int.zero_add _).symm.trans hlevel

end EventSchema.Source
