import EventSchema.Proofs.Text.Boundary
import EventSchema.Source.Context

/-!
# Where contexts end

A comment, a directive or a literal that has ended before the end of a text ends at the same byte
wherever its own text stands, whatever follows it (`skip?_local`). Only the byte right after it may
matter: a line comment and a directive line end before a newline. And no context ends inside of a
character (`wellFormed_of_skip`).
-/

namespace EventSchema.Source

open Text.Utf8

/-! ## Ends of contexts -/

/-- The first byte of a text does not change when what is left of it is replaced by something that
starts alike. -/
theorem head?_append_of_head? {a r t u : Bytes} (ht : a ++ r = t) (hu : u.head? = r.head?) :
    (a ++ u).head? = t.head? := by
  rw [← ht, List.head?_append, List.head?_append, hu]

theorem throughCommentEnd_local {t : Bytes} (h : (throughCommentEnd t).2 ≠ []) (u : Bytes) :
    throughCommentEnd ((throughCommentEnd t).1 ++ u) = ((throughCommentEnd t).1, u) := by
  induction t with
  | nil => exact absurd rfl h
  | cons b rest ih =>
    rw [throughCommentEnd] at h ⊢
    by_cases hend : b = star ∧ rest.head? = some slash
    · rw [if_pos hend]
      simp [throughCommentEnd, hend.1]
    · rw [if_neg hend] at h ⊢
      have hne : (throughCommentEnd rest).1 ≠ [] := by
        intro hnil
        cases rest with
        | nil => exact h rfl
        | cons c rest =>
          rw [throughCommentEnd] at hnil
          split at hnil <;> exact List.cons_ne_nil _ _ hnil
      have hhead : ((throughCommentEnd rest).1 ++ u).head? = rest.head? := by
        obtain ⟨c, a, hc⟩ := List.exists_cons_of_ne_nil hne
        have hrest := throughCommentEnd_append rest
        rw [hc] at hrest ⊢
        rw [← hrest, List.cons_append, List.cons_append, List.head?_cons, List.head?_cons]
      rw [List.cons_append, throughCommentEnd, hhead, if_neg hend, ih h]

theorem throughLine_local {t u : Bytes} (h : (throughLine t).2 ≠ [])
    (hu : u.head? = (throughLine t).2.head?) :
    throughLine ((throughLine t).1 ++ u) = ((throughLine t).1, u) := by
  induction t with
  | nil => exact absurd rfl h
  | cons b rest ih =>
    rw [throughLine] at h hu ⊢
    by_cases hend : b = newline
    · rw [if_pos hend] at hu ⊢
      obtain ⟨v, rfl⟩ := List.head?_eq_some_iff.1 hu
      rw [List.nil_append, throughLine, if_pos hend]
    · rw [if_neg hend] at h hu ⊢
      rw [List.cons_append, throughLine, if_neg hend, ih h hu]

theorem throughDirective_local {t u : Bytes} (h : (throughDirective t).2 ≠ [])
    (hu : u.head? = (throughDirective t).2.head?) :
    throughDirective ((throughDirective t).1 ++ u) = ((throughDirective t).1, u) := by
  induction t with
  | nil => exact absurd rfl h
  | cons b rest ih =>
    rw [throughDirective] at h hu ⊢
    by_cases hline : b = newline
    · rw [if_pos hline] at hu ⊢
      obtain ⟨v, rfl⟩ := List.head?_eq_some_iff.1 hu
      rw [List.nil_append, throughDirective, if_pos hline]
    · by_cases hcomment : b = slash ∧ rest.head? = some star
      · rw [if_neg hline, if_pos hcomment] at h ⊢
        rw [List.cons_append, List.cons_append, throughDirective, if_neg hline,
          if_pos ⟨hcomment.1, rfl⟩, List.tail_cons, throughCommentEnd_local h]
      · rw [if_neg hline, if_neg hcomment] at h hu ⊢
        have hhead : ((throughDirective rest).1 ++ u).head? = rest.head? :=
          head?_append_of_head? (throughDirective_append rest) hu
        rw [List.cons_append, throughDirective, if_neg hline, hhead, if_neg hcomment, ih h hu]

/-- Only an unescaped quote and a backslash are more than themselves. -/
theorem throughQuote_cons {b : UInt8} (hquote : b ≠ doubleQuote) (hslash : b ≠ backslash)
    (t : Bytes) : throughQuote (b :: t) = (b :: (throughQuote t).1, (throughQuote t).2) := by
  cases t with
  | nil => rfl
  | cons c rest => rw [throughQuote, if_neg hquote, if_neg hslash]

theorem throughQuote_doubleQuote (t : Bytes) :
    throughQuote (doubleQuote :: t) = ([doubleQuote], t) := by
  cases t with
  | nil => rfl
  | cons c rest => rw [throughQuote, if_pos rfl]

theorem throughQuote_backslash (c : UInt8) (t : Bytes) :
    throughQuote (backslash :: c :: t) =
      (backslash :: c :: (throughQuote t).1, (throughQuote t).2) := by
  rw [throughQuote, if_neg (by decide), if_pos rfl]

theorem throughQuote_local {t : Bytes} (h : (throughQuote t).2 ≠ []) (u : Bytes) :
    throughQuote ((throughQuote t).1 ++ u) = ((throughQuote t).1, u) := by
  fun_induction throughQuote t with
  | case1 => exact absurd rfl h
  | case2 b => exact absurd rfl h
  | case3 c rest => exact throughQuote_doubleQuote u
  | case4 c rest _ ih =>
    rw [List.cons_append, List.cons_append, throughQuote_backslash, ih h]
  | case5 b c rest hquote hslash ih =>
    rw [List.cons_append, throughQuote_cons hquote hslash, ih h]

/-! ## Contexts -/

/-- **A context ends where it ends in any text.** -/
theorem skip?_local {t u : Bytes} {s : Skip} (h : skip? t = some s) (hrest : s.rest ≠ [])
    (hu : u.head? = s.rest.head?) : skip? (s.text ++ u) = some { s with rest := u } := by
  cases t with
  | nil => cases h
  | cons b rest =>
    rw [skip?] at h
    by_cases hslash : b = slash
    · rw [if_pos hslash] at h
      by_cases hstar : rest.head? = some star
      · rw [if_pos hstar] at h
        cases h
        rw [List.cons_append, List.cons_append, skip?, if_pos hslash, List.head?_cons, if_pos rfl,
          List.tail_cons, throughCommentEnd_local hrest]
      · rw [if_neg hstar] at h
        by_cases hline : rest.head? = some slash
        · rw [if_pos hline] at h
          cases h
          have hhead : ((throughLine rest).1 ++ u).head? = rest.head? :=
            head?_append_of_head? (throughLine_append rest) hu
          rw [List.cons_append, skip?, if_pos hslash, hhead, if_neg hstar, if_pos hline,
            throughLine_local hrest hu]
        · rw [if_neg hline] at h
          cases h
    · by_cases hhash : b = hash
      · rw [if_neg hslash, if_pos hhash] at h
        cases h
        rw [List.cons_append, skip?, if_neg hslash, if_pos hhash, throughDirective_local hrest hu]
      · by_cases hquote : b = doubleQuote
        · rw [if_neg hslash, if_neg hhash, if_pos hquote] at h
          cases h
          rw [List.cons_append, skip?, if_neg hslash, if_neg hhash, if_pos hquote,
            throughQuote_local hrest]
        · rw [if_neg hslash, if_neg hhash, if_neg hquote] at h
          cases h

/-- Where no context starts, none starts when only what comes after the next byte is replaced. -/
theorem skip?_cons_none_local {b : UInt8} {rest u : Bytes} (h : skip? (b :: rest) = none)
    (hu : u.head? = rest.head?) : skip? (b :: u) = none := by
  rw [skip?] at h ⊢
  rw [hu]
  by_cases hslash : b = slash
  · rw [if_pos hslash] at h ⊢
    by_cases hstar : rest.head? = some star
    · rw [if_pos hstar] at h
      cases h
    · rw [if_neg hstar] at h ⊢
      by_cases hline : rest.head? = some slash
      · rw [if_pos hline] at h
        cases h
      · rw [if_neg hline]
  · by_cases hhash : b = hash
    · rw [if_neg hslash, if_pos hhash] at h
      cases h
    · by_cases hquote : b = doubleQuote
      · rw [if_neg hslash, if_neg hhash, if_pos hquote] at h
        cases h
      · rw [if_neg hslash, if_neg hhash, if_neg hquote]

/-! ## Contexts and characters -/

theorem throughCommentEnd_boundary (t : Bytes) :
    Boundary (throughCommentEnd t).1 (throughCommentEnd t).2 := by
  induction t with
  | nil => exact boundary_nil _
  | cons b rest ih =>
    rw [throughCommentEnd]
    split
    · exact boundary_cons b (.inr ⟨slash, rfl, by decide⟩)
    · exact boundary_cons b ih

theorem throughLine_boundary (t : Bytes) : Boundary (throughLine t).1 (throughLine t).2 := by
  induction t with
  | nil => exact boundary_nil _
  | cons b rest ih =>
    rw [throughLine]
    split
    · next hb => exact boundary_of_head? (congrArg some hb) (by decide)
    · exact boundary_cons b ih

theorem throughDirective_boundary (t : Bytes) :
    Boundary (throughDirective t).1 (throughDirective t).2 := by
  induction t with
  | nil => exact boundary_nil _
  | cons b rest ih =>
    rw [throughDirective]
    split
    · next hb => exact boundary_of_head? (congrArg some hb) (by decide)
    · split
      · exact boundary_cons b (boundary_cons star (throughCommentEnd_boundary _))
      · exact boundary_cons b ih

theorem throughQuote_boundary (t : Bytes) : Boundary (throughQuote t).1 (throughQuote t).2 := by
  fun_induction throughQuote t with
  | case1 => exact boundary_nil _
  | case2 b => exact boundary_nil _
  | case3 c rest => exact .inr ⟨doubleQuote, rfl, by decide⟩
  | case4 c rest _ ih => exact boundary_cons _ (boundary_cons c ih)
  | case5 b c rest _ _ ih => exact boundary_cons b ih

theorem skip?_boundary {t : Bytes} {s : Skip} (h : skip? t = some s) : Boundary s.text s.rest := by
  cases t with
  | nil => cases h
  | cons b rest =>
    rw [skip?] at h
    repeat' split at h
    all_goals cases h
    · exact boundary_cons b (boundary_cons star (throughCommentEnd_boundary _))
    · exact boundary_cons b (throughLine_boundary rest)
    · exact boundary_cons b (throughDirective_boundary rest)
    · exact boundary_cons b (throughQuote_boundary rest)

/-- No context ends inside of a character. -/
theorem wellFormed_of_skip {t : Bytes} {s : Skip} (h : skip? t = some s) (ht : WellFormed t) :
    WellFormed s.rest := by
  rw [← skip?_append h] at ht
  exact (wellFormed_of_append ht (skip?_boundary h)).2

end EventSchema.Source
