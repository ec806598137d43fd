import EventSchema.Proofs.Source.Layout
import EventSchema.Proofs.Source.Locality

/-!
# Trivia between lexemes

Blanks, closed comments and directive lines with their newlines are the same lexemes whatever
follows them (`exists_readsAs`). At a seam of a row of lexemes, behind a byte that is no `/`, they can
be put in: the lexemes before the seam and after it stay what they are (`Lexes.insert`).
-/

namespace EventSchema.Source

open Lexeme (texts)
open Text (isBlankByte)
open Text.Utf8

variable {t r u w text rest : Bytes} {b : UInt8} {c : Context} {l : Lexeme}
  {ls ts xs ys : List Lexeme}

/-- Texts of blanks, closed block comments, line comments with their newlines, and directive lines
without a block comment with theirs. -/
inductive Trivia : Bytes → Prop
  | nil : Trivia []
  | blank {b : UInt8} {t : Bytes} (h : isBlankByte b = true) (later : Trivia t) : Trivia (b :: t)
  | block {body t : Bytes} (h : ¬ [star, slash] <:+: body) (later : Trivia t) :
      Trivia (slash :: star :: (body ++ [star, slash]) ++ t)
  | line {body t : Bytes} (h : newline ∉ body) (later : Trivia t) :
      Trivia (slash :: slash :: body ++ newline :: t)
  | directive {body t : Bytes} (hline : newline ∉ body) (hblock : ¬ [slash, star] <:+: body)
      (later : Trivia t) : Trivia (hash :: body ++ newline :: t)

/-! ## Lexemes of trivia -/

/-- A text that is a row of trivia whatever follows it. -/
structure ReadsAs (w : Bytes) (ts : List Lexeme) : Prop where
  trivia : ∀ x ∈ ts, x.IsTrivia
  lexes : ∀ u, Lexes (w ++ u) ts u

theorem ReadsAs.blank (hb : isBlankByte b = true) (h : ReadsAs w ts) :
    ReadsAs (b :: w) (.byte b :: ts) where
  trivia := List.forall_mem_cons.2 ⟨.blank hb, h.trivia⟩
  lexes u := by
    refine .byte (skip?_eq_none_iff.1 (skip?_cons_eq_none ?_ ?_ ?_ _)) (h.lexes u)
    all_goals
      rintro rfl
      exact absurd hb (by decide)

theorem ReadsAs.context (hc : c ≠ .literal) (htext : ∀ u, ContextAt c text (w ++ u))
    (h : ReadsAs w ts) : ReadsAs (text ++ w) (.context c text :: ts) where
  trivia := List.forall_mem_cons.2 ⟨.context hc, h.trivia⟩
  lexes u := .context (htext u) (List.append_assoc text w u).symm (h.lexes u)

/-- **Trivia are the same lexemes whatever follows them.** -/
theorem exists_readsAs (h : Trivia w) : ∃ ts, ReadsAs w ts := by
  have hnewline : isBlankByte newline = true := by decide
  induction h with
  | nil => exact ⟨[], List.forall_mem_nil _, .nil⟩
  | blank hb _ ih =>
    obtain ⟨ts, hts⟩ := ih
    exact ⟨_, hts.blank hb⟩
  | block hbody _ ih =>
    obtain ⟨ts, hts⟩ := ih
    exact ⟨_, hts.context (by decide) fun u => .block (.closed hbody _)⟩
  | line hbody _ ih =>
    obtain ⟨ts, hts⟩ := ih
    exact ⟨_, (hts.blank hnewline).context (by decide) fun u => .line hbody (.inr rfl)⟩
  | directive hline hblock _ ih =>
    obtain ⟨ts, hts⟩ := ih
    exact ⟨_, (hts.blank hnewline).context (by decide) fun u => .directive hline hblock (.inr rfl)⟩

/-! ## Lexemes in front of another text -/

theorem ContextAt.local (h : ContextAt c text rest) (hrest : rest ≠ [])
    (hu : u.head? = rest.head?) : ContextAt c text u :=
  contextAt_of_skip (skip?_local (skip?_of_contextAt h) hrest hu)

/-- A row of lexemes stays what it is in front of a text that starts alike. -/
theorem Lexes.local (h : Lexes t ls r) (hr : r ≠ []) (hu : u.head? = r.head?) :
    Lexes (texts ls ++ u) ls u := by
  have hhead {ms : List Lexeme} {m : Bytes} (hm : Lexes m ms r) :
      (texts ms ++ u).head? = m.head? := by
    rw [← hm.texts_append, List.head?_append, List.head?_append, hu]
  induction h with
  | nil t => exact .nil u
  | context hc ht later ih =>
    refine .context (hc.local ?_ (hhead later)) (List.append_assoc ..).symm (ih hr hu hhead)
    rw [← later.texts_append]
    exact List.append_ne_nil_of_right_ne_nil _ hr
  | byte hb later ih =>
    refine .byte (skip?_eq_none_iff.1 ?_) (ih hr hu hhead)
    exact skip?_cons_none_local (skip?_eq_none_iff.2 hb) (hhead later)

theorem BlockComment.getLast? (h : BlockComment text rest) (hrest : rest ≠ []) :
    text.getLast? = some slash := by
  cases h with
  | closed => simp [List.getLast?_cons]
  | unclosed => exact absurd rfl hrest

theorem QuoteTail.of_ne_nil (h : QuoteTail text rest) (hrest : rest ≠ []) (u : Bytes) :
    QuoteTail text u := by
  induction h with
  | closing => exact .closing u
  | escaped b _ ih => exact .escaped b (ih hrest)
  | plain hquote hslash _ ih => exact .plain hquote hslash (ih hrest)
  | unclosed => exact absurd rfl hrest
  | cut => exact absurd rfl hrest

/-- What ends neither with a `/` nor before a newline is a literal, and that goes on to its quote
whatever follows it. -/
theorem ContextAt.of_not_slash (h : ContextAt c text rest) (hrest : rest ≠ [])
    (hnewline : rest.head? ≠ some newline) (hslash : text.getLast? ≠ some slash) (u : Bytes) :
    ContextAt c text u := by
  have hline : ¬ LineEnd rest := not_or.2 ⟨hrest, hnewline⟩
  cases h with
  | block h => exact absurd (h.getLast? hrest) hslash
  | line _ hend => exact absurd hend hline
  | directive _ _ hend => exact absurd hend hline
  | directiveBlock _ _ h =>
    refine absurd ?_ hslash
    rw [List.getLast?_cons, List.getLast?_append, h.getLast? hrest]
    rfl
  | literal h => exact .literal (h.of_ne_nil hrest u)

theorem not_opens_of_ne_slash (h : ¬ Opens (b :: rest)) (hslash : b ≠ slash) (u : Bytes) :
    ¬ Opens (b :: u) := by
  rw [← skip?_eq_none_iff] at h ⊢
  refine skip?_cons_eq_none hslash ?_ ?_ u
  · rintro rfl
    cases h
  · rintro rfl
    cases h

/-! ## Seams -/

/-- Where trivia may come in: next to a byte that is a whole character, and not in front of a
newline, which may belong to the context before it. -/
def Seam (xs ys : List Lexeme) : Prop :=
  (∃ b, xs.getLast? = some (.byte b) ∧ IsAscii b) ∨
    ∃ b, ys.head? = some (.byte b) ∧ IsAscii b ∧ b ≠ newline

theorem Seam.boundary (h : Seam xs ys) : Boundary (texts xs) (texts ys) := by
  rcases h with ⟨b, hb, hascii⟩ | ⟨b, hb, hascii, -⟩
  · obtain ⟨front, rfl⟩ := List.getLast?_eq_some_iff.1 hb
    exact .inr ⟨b, by simp [Lexeme.text], hascii⟩
  · obtain ⟨back, rfl⟩ := List.head?_eq_some_iff.1 hb
    exact boundary_of_head? rfl hascii

theorem Lexes.texts_ne_nil (h : Lexes t ls r) (hls : ls ≠ []) : texts ls ≠ [] := by
  cases h with
  | nil => exact absurd rfl hls
  | context hc =>
    exact List.append_ne_nil_of_left_ne_nil (skip?_text_ne_nil (skip?_of_contextAt hc)) _
  | byte => exact List.cons_ne_nil _ _

/-- The last lexeme before a seam stays what it is whatever follows it. -/
theorem Seam.lexes_last (h : Seam (xs ++ [l]) ys) (hl : Lexes t [l] (texts ys))
    (hys : texts ys ≠ []) (hslash : l.text.getLast? ≠ some slash) (u : Bytes) :
    Lexes (l.text ++ u) [l] u := by
  cases hl with
  | context hc ht later =>
    cases later
    have hnewline : (texts ys).head? ≠ some newline := by
      rcases h with ⟨b, hb, -⟩ | ⟨b, hb, -, hne⟩
      · simp at hb
      · obtain ⟨back, rfl⟩ := List.head?_eq_some_iff.1 hb
        simpa [Lexeme.text] using hne
    exact .context (hc.of_not_slash hys hnewline hslash u) rfl (.nil u)
  | byte hb later =>
    refine .byte (not_opens_of_ne_slash hb ?_ u) (.nil u)
    rintro rfl
    exact hslash rfl

/-- **Trivia can be put in at a seam.** -/
theorem Lexes.insert (h : Lexes t (xs ++ ys) []) (hseam : Seam xs ys) (hys : ys ≠ [])
    (hslash : (texts xs).getLast? ≠ some slash) (hw : ReadsAs w ts) :
    Lexes (texts xs ++ (w ++ texts ys)) (xs ++ (ts ++ ys)) [] := by
  obtain ⟨rest, hxs, hrest⟩ := h.of_append
  obtain rfl : texts ys = rest := by
    have happend := hrest.texts_append
    rwa [List.append_nil] at happend
  have hins : Lexes (w ++ texts ys) (ts ++ ys) [] := (hw.lexes _).append hrest
  refine Lexes.append ?_ hins
  rcases List.eq_nil_or_concat' xs with rfl | ⟨front, l, rfl⟩
  · exact .nil _
  · obtain ⟨m, hfront, hlast⟩ := hxs.of_append
    have hne : l.text ≠ [] := by simpa using hlast.texts_ne_nil (List.cons_ne_nil l [])
    have hm : l.text ++ texts ys = m := by simpa using hlast.texts_append
    rw [Lexeme.texts_append, Lexeme.texts_cons, Lexeme.texts_nil, List.append_nil,
      List.getLast?_append_of_ne_nil _ hne] at hslash
    have hhead : (l.text ++ (w ++ texts ys)).head? = m.head? := by
      rw [← hm, ← head?_eq_of_append rfl hne, ← head?_eq_of_append rfl hne]
    have hstays := hfront.local (by rw [← hm]; simp [hne]) hhead
    rw [Lexeme.texts_append, Lexeme.texts_cons, Lexeme.texts_nil, List.append_nil,
      List.append_assoc]
    exact hstays.append (hseam.lexes_last hlast (hrest.texts_ne_nil hys) hslash _)

end EventSchema.Source
