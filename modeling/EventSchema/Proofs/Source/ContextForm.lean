import EventSchema.Source.Context

/-!
# How contexts are written

The texts of comments, directives and literals, described by what they are made of and without
reading them (`ContextAt`). What is skipped at the start of a text is such a context
(`contextAt_of_skip`), each of them is skipped as it is written (`skip?_of_contextAt`), and nothing
is skipped exactly where none opens (`skip?_eq_none_iff`).
-/

namespace EventSchema.Source

/-! ## Forms -/

/-- A block comment goes up to its first end, or else it takes all that is left. -/
inductive BlockComment : Bytes → Bytes → Prop
  | closed {body : Bytes} (h : ¬ [star, slash] <:+: body) (rest : Bytes) :
      BlockComment (slash :: star :: (body ++ [star, slash])) rest
  | unclosed {body : Bytes} (h : ¬ [star, slash] <:+: body) :
      BlockComment (slash :: star :: body) []

/-- A text in which a line has come to its end. -/
def LineEnd (rest : Bytes) : Prop := rest = [] ∨ rest.head? = some newline

/-- What follows the quote that opens a literal: up to the first quote without a backslash right
before it, where a backslash takes the next byte along, or else all that is left. -/
inductive QuoteTail : Bytes → Bytes → Prop
  | closing (rest : Bytes) : QuoteTail [doubleQuote] rest
  | escaped {text rest : Bytes} (b : UInt8) (h : QuoteTail text rest) :
      QuoteTail (backslash :: b :: text) rest
  | plain {b : UInt8} {text rest : Bytes} (hquote : b ≠ doubleQuote) (hslash : b ≠ backslash)
      (h : QuoteTail text rest) : QuoteTail (b :: text) rest
  | unclosed : QuoteTail [] []
  | cut : QuoteTail [backslash] []

/-- The text of a context of some kind, before what follows it. -/
inductive ContextAt : Context → Bytes → Bytes → Prop
  | block {text rest : Bytes} (h : BlockComment text rest) : ContextAt .comment text rest
  | line {body rest : Bytes} (hline : newline ∉ body) (hrest : LineEnd rest) :
      ContextAt .comment (slash :: slash :: body) rest
  | directive {body rest : Bytes} (hline : newline ∉ body) (hblock : ¬ [slash, star] <:+: body)
      (hrest : LineEnd rest) : ContextAt .directive (hash :: body) rest
  /-- A block comment that opens in a directive line ends the directive with it. -/
  | directiveBlock {body comment rest : Bytes} (hline : newline ∉ body)
      (hblock : ¬ [slash, star] <:+: body) (h : BlockComment comment rest) :
      ContextAt .directive (hash :: (body ++ comment)) rest
  | literal {text rest : Bytes} (h : QuoteTail text rest) :
      ContextAt .literal (doubleQuote :: text) rest

/-- Texts that start with a context. -/
def Opens (t : Bytes) : Prop :=
  [slash, star] <+: t ∨ [slash, slash] <+: t ∨ [hash] <+: t ∨ [doubleQuote] <+: t

/-! ## Two bytes in a row -/

theorem pair_prefix_cons {x y b : UInt8} {t : Bytes} :
    [x, y] <+: b :: t ↔ b = x ∧ t.head? = some y := by
  cases t with
  | nil => simp
  | cons c t => simp [List.cons_prefix_cons, eq_comm]

theorem pair_infix_cons {x y b : UInt8} {t : Bytes} :
    [x, y] <:+: b :: t ↔ (b = x ∧ t.head? = some y) ∨ [x, y] <:+: t := by
  rw [List.infix_cons_iff, pair_prefix_cons]

theorem not_pair_infix_nil (x y : UInt8) : ¬ [x, y] <:+: ([] : Bytes) := by
  simp

/-- Where no pair starts in front of a text, none starts in front of its beginning. -/
theorem not_pair_infix_cons {x y b : UInt8} {a r t : Bytes} (ht : a ++ r = t)
    (hpair : ¬ (b = x ∧ t.head? = some y)) (h : ¬ [x, y] <:+: a) : ¬ [x, y] <:+: b :: a := by
  rw [pair_infix_cons]
  rintro (⟨hb, ha⟩ | hinfix)
  · obtain ⟨a', rfl⟩ := List.head?_eq_some_iff.1 ha
    exact hpair ⟨hb, by rw [← ht]; rfl⟩
  · exact h hinfix

/-! ## Comments -/

theorem throughCommentEnd_cases (t : Bytes) :
    (∃ body, (throughCommentEnd t).1 = body ++ [star, slash] ∧ ¬ [star, slash] <:+: body) ∨
      (throughCommentEnd t).2 = [] ∧ ¬ [star, slash] <:+: (throughCommentEnd t).1 := by
  induction t with
  | nil => exact .inr ⟨rfl, not_pair_infix_nil star slash⟩
  | cons b rest ih =>
    have happend := throughCommentEnd_append rest
    rw [throughCommentEnd]
    by_cases hend : b = star ∧ rest.head? = some slash
    · rw [if_pos hend]
      refine .inl ⟨[], ?_, not_pair_infix_nil star slash⟩
      rw [hend.1]
      rfl
    · rw [if_neg hend]
      rcases ih with ⟨body, hbody, hfirst⟩ | ⟨hrest, hnone⟩
      · rw [hbody, List.append_assoc] at happend
        refine .inl ⟨b :: body, ?_, not_pair_infix_cons happend hend hfirst⟩
        rw [hbody]
        rfl
      · exact .inr ⟨hrest, not_pair_infix_cons happend hend hnone⟩

theorem throughCommentEnd_closed {body : Bytes} (h : ¬ [star, slash] <:+: body) (rest : Bytes) :
    throughCommentEnd (body ++ [star, slash] ++ rest) = (body ++ [star, slash], rest) := by
  induction body with
  | nil => simp [throughCommentEnd]
  | cons b body ih =>
    rw [pair_infix_cons, not_or] at h
    have hend : ¬ (b = star ∧ (body ++ [star, slash] ++ rest).head? = some slash) := by
      rintro ⟨hb, hhead⟩
      cases body with
      | nil => cases hhead
      | cons c body => exact h.1 ⟨hb, hhead⟩
    rw [List.cons_append, List.cons_append, throughCommentEnd, if_neg hend, ih h.2]

theorem throughCommentEnd_unclosed {body : Bytes} (h : ¬ [star, slash] <:+: body) :
    throughCommentEnd body = (body, []) := by
  induction body with
  | nil => rfl
  | cons b body ih =>
    rw [pair_infix_cons, not_or] at h
    rw [throughCommentEnd, if_neg h.1, ih h.2]

theorem blockComment_throughCommentEnd (t : Bytes) :
    BlockComment (slash :: star :: (throughCommentEnd t).1) (throughCommentEnd t).2 := by
  rcases throughCommentEnd_cases t with ⟨body, hbody, hfirst⟩ | ⟨hrest, hnone⟩
  · rw [hbody]
    exact .closed hfirst _
  · rw [hrest]
    exact .unclosed hnone

theorem throughCommentEnd_of_blockComment {text rest : Bytes} (h : BlockComment text rest) :
    ∃ body, text = slash :: star :: body ∧ throughCommentEnd (body ++ rest) = (body, rest) := by
  cases h with
  | closed h => exact ⟨_, rfl, throughCommentEnd_closed h rest⟩
  | @unclosed body h =>
    refine ⟨body, rfl, ?_⟩
    rw [List.append_nil]
    exact throughCommentEnd_unclosed h

/-! ## Lines -/

theorem newline_not_mem_throughLine (t : Bytes) : newline ∉ (throughLine t).1 := by
  induction t with
  | nil => simp [throughLine]
  | cons b rest ih =>
    rw [throughLine]
    split
    · simp
    · next hb => simp [ih, Ne.symm hb]

theorem lineEnd_throughLine (t : Bytes) : LineEnd (throughLine t).2 := by
  induction t with
  | nil => exact .inl rfl
  | cons b rest ih =>
    rw [throughLine]
    split
    · next hb => exact .inr (by rw [hb]; rfl)
    · exact ih

theorem throughLine_of_lineEnd {body rest : Bytes} (h : newline ∉ body) (hrest : LineEnd rest) :
    throughLine (body ++ rest) = (body, rest) := by
  induction body with
  | nil =>
    rcases hrest with rfl | hhead
    · rfl
    · obtain ⟨tail, rfl⟩ := List.head?_eq_some_iff.1 hhead
      simp [throughLine]
  | cons b body ih =>
    rw [List.mem_cons, not_or] at h
    rw [List.cons_append, throughLine, if_neg (Ne.symm h.1), ih h.2]

/-! ## Directives -/

theorem throughDirective_cases (t : Bytes) :
    (newline ∉ (throughDirective t).1 ∧ ¬ [slash, star] <:+: (throughDirective t).1 ∧
        LineEnd (throughDirective t).2) ∨
      ∃ body comment, (throughDirective t).1 = body ++ comment ∧ newline ∉ body ∧
        ¬ [slash, star] <:+: body ∧ BlockComment comment (throughDirective t).2 := by
  induction t with
  | nil => exact .inl ⟨by simp [throughDirective], not_pair_infix_nil slash star, .inl rfl⟩
  | cons b rest ih =>
    have happend := throughDirective_append rest
    rw [throughDirective]
    by_cases hb : b = newline
    · rw [if_pos hb]
      exact .inl ⟨by simp, not_pair_infix_nil slash star, .inr (by rw [hb]; rfl)⟩
    · rw [if_neg hb]
      by_cases hopen : b = slash ∧ rest.head? = some star
      · rw [if_pos hopen]
        refine .inr ⟨[], _, rfl, by simp, not_pair_infix_nil slash star, ?_⟩
        rw [hopen.1]
        exact blockComment_throughCommentEnd rest.tail
      · rw [if_neg hopen]
        rcases ih with ⟨hline, hblock, hrest⟩ | ⟨body, comment, hbody, hline, hblock, hcomment⟩
        · refine .inl ⟨?_, not_pair_infix_cons happend hopen hblock, hrest⟩
          simp [hline, Ne.symm hb]
        · rw [hbody, List.append_assoc] at happend
          refine .inr ⟨b :: body, comment, ?_, ?_, not_pair_infix_cons happend hopen hblock,
            hcomment⟩
          · rw [hbody]
            rfl
          · simp [hline, Ne.symm hb]

theorem throughDirective_of_lineEnd {body rest : Bytes} (hline : newline ∉ body)
    (hblock : ¬ [slash, star] <:+: body) (hrest : LineEnd rest) :
    throughDirective (body ++ rest) = (body, rest) := by
  induction body with
  | nil =>
    rcases hrest with rfl | hhead
    · rfl
    · obtain ⟨tail, rfl⟩ := List.head?_eq_some_iff.1 hhead
      simp [throughDirective]
  | cons b body ih =>
    rw [List.mem_cons, not_or] at hline
    rw [pair_infix_cons, not_or] at hblock
    have hopen : ¬ (b = slash ∧ (body ++ rest).head? = some star) := by
      rintro ⟨hb, hhead⟩
      cases body with
      | nil =>
        rcases hrest with rfl | hnewline
        · cases hhead
        · rw [List.nil_append, hnewline] at hhead
          cases hhead
      | cons c body => exact hblock.1 ⟨hb, hhead⟩
    rw [List.cons_append, throughDirective, if_neg (Ne.symm hline.1), if_neg hopen,
      ih hline.2 hblock.2]

theorem throughDirective_of_blockComment {body comment rest : Bytes} (hline : newline ∉ body)
    (hblock : ¬ [slash, star] <:+: body) (h : BlockComment comment rest) :
    throughDirective (body ++ comment ++ rest) = (body ++ comment, rest) := by
  induction body with
  | nil =>
    obtain ⟨inner, rfl, hinner⟩ := throughCommentEnd_of_blockComment h
    have hne : slash ≠ newline := by decide
    simp [throughDirective, hne, hinner]
  | cons b body ih =>
    rw [List.mem_cons, not_or] at hline
    rw [pair_infix_cons, not_or] at hblock
    have hopen : ¬ (b = slash ∧ (body ++ comment ++ rest).head? = some star) := by
      rintro ⟨hb, hhead⟩
      cases body with
      | nil =>
        obtain ⟨inner, rfl, -⟩ := throughCommentEnd_of_blockComment h
        cases hhead
      | cons c body => exact hblock.1 ⟨hb, hhead⟩
    rw [List.cons_append, List.cons_append, throughDirective, if_neg (Ne.symm hline.1),
      if_neg hopen, ih hline.2 hblock.2]

/-! ## Literals -/

theorem quoteTail_throughQuote (t : Bytes) : QuoteTail (throughQuote t).1 (throughQuote t).2 := by
  fun_induction throughQuote t with
  | case1 => exact .unclosed
  | case2 b =>
    by_cases hquote : b = doubleQuote
    · rw [hquote]
      exact .closing []
    · by_cases hslash : b = backslash
      · rw [hslash]
        exact .cut
      · exact .plain hquote hslash .unclosed
  | case3 c rest => exact .closing _
  | case4 c rest _ ih => exact .escaped c ih
  | case5 b c rest hquote hslash ih => exact .plain hquote hslash ih

theorem throughQuote_of_quoteTail {text rest : Bytes} (h : QuoteTail text rest) :
    throughQuote (text ++ rest) = (text, rest) := by
  induction h with
  | closing rest => cases rest <;> simp [throughQuote]
  | escaped b h ih =>
    have hne : backslash ≠ doubleQuote := by decide
    simp [throughQuote, hne, ih]
  | @plain b text rest hquote hslash h ih =>
    cases hall : text ++ rest with
    | nil =>
      obtain ⟨rfl, rfl⟩ := List.append_eq_nil_iff.1 hall
      rfl
    | cons c tail =>
      rw [List.cons_append, hall, throughQuote, if_neg hquote, if_neg hslash, ← hall, ih]
  | unclosed => rfl
  | cut => rfl

/-! ## Contexts -/

/-- **What is skipped has the form of a context.** -/
theorem contextAt_of_skip {t : Bytes} {s : Skip} (h : skip? t = some s) :
    ContextAt s.context s.text s.rest := by
  cases t with
  | nil => cases h
  | cons b rest =>
    rw [skip?] at h
    by_cases hslash : b = slash
    · subst hslash
      rw [if_pos rfl] at h
      by_cases hstar : rest.head? = some star
      · rw [if_pos hstar] at h
        cases h
        exact .block (blockComment_throughCommentEnd rest.tail)
      · rw [if_neg hstar] at h
        by_cases hline : rest.head? = some slash
        · rw [if_pos hline] at h
          cases h
          obtain ⟨tail, rfl⟩ := List.head?_eq_some_iff.1 hline
          have hnewline : slash ≠ newline := by decide
          rw [throughLine, if_neg hnewline]
          exact .line (newline_not_mem_throughLine tail) (lineEnd_throughLine tail)
        · rw [if_neg hline] at h
          cases h
    · rw [if_neg hslash] at h
      by_cases hhash : b = hash
      · rw [if_pos hhash] at h
        cases h
        subst hhash
        rcases throughDirective_cases rest with ⟨hline, hblock, hrest⟩ |
          ⟨body, comment, hbody, hline, hblock, hcomment⟩
        · exact .directive hline hblock hrest
        · rw [hbody]
          exact .directiveBlock hline hblock hcomment
      · rw [if_neg hhash] at h
        by_cases hquote : b = doubleQuote
        · rw [if_pos hquote] at h
          cases h
          subst hquote
          exact .literal (quoteTail_throughQuote rest)
        · rw [if_neg hquote] at h
          cases h

theorem skip?_hash (t : Bytes) : skip? (hash :: t) =
    some ⟨.directive, hash :: (throughDirective t).1, (throughDirective t).2⟩ := rfl

theorem skip?_doubleQuote (t : Bytes) : skip? (doubleQuote :: t) =
    some ⟨.literal, doubleQuote :: (throughQuote t).1, (throughQuote t).2⟩ := rfl

/-- **A context is skipped as it is written.** -/
theorem skip?_of_contextAt {c : Context} {text rest : Bytes} (h : ContextAt c text rest) :
    skip? (text ++ rest) = some ⟨c, text, rest⟩ := by
  cases h with
  | block h =>
    obtain ⟨body, rfl, hbody⟩ := throughCommentEnd_of_blockComment h
    simp [skip?, hbody]
  | @line body rest hline hrest =>
    have hline' : newline ∉ slash :: body := by simpa +decide using hline
    have hbody := throughLine_of_lineEnd hline' hrest
    rw [List.cons_append] at hbody
    simp +decide [skip?, hbody]
  | directive hline hblock hrest =>
    rw [List.cons_append, skip?_hash, throughDirective_of_lineEnd hline hblock hrest]
  | directiveBlock hline hblock h =>
    rw [List.cons_append, skip?_hash, throughDirective_of_blockComment hline hblock h]
  | literal h => rw [List.cons_append, skip?_doubleQuote, throughQuote_of_quoteTail h]

/-- **Nothing is skipped where no context opens.** -/
theorem skip?_eq_none_iff {t : Bytes} : skip? t = none ↔ ¬ Opens t := by
  cases t with
  | nil => simp [skip?, Opens]
  | cons b rest =>
    rw [Opens, pair_prefix_cons, pair_prefix_cons, List.cons_prefix_cons, List.cons_prefix_cons,
      skip?]
    by_cases hslash : b = slash
    · subst hslash
      by_cases hstar : rest.head? = some star <;> by_cases hline : rest.head? = some slash <;>
        simp +decide [hstar, hline]
    · by_cases hhash : b = hash <;> by_cases hquote : b = doubleQuote <;>
        simp +decide [hslash, hhash, hquote, eq_comm]

end EventSchema.Source
