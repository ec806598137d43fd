import EventSchema.Proofs.Source.Insertion
import Mathlib.Data.List.Chain

/-!
# Arguments in normal form

The reader joins bytes that stood apart in the source. It opens no comment that way, nor does it
move the start of a literal: a `/` is followed by a `/` or a `*` neither in the source, where the two
are a comment, nor behind a gap, which becomes a space. So the text of an argument has the lexemes
that it was put together from (`Tidy.push`), each step of the reading keeps this
(`Reading.Sound.step`), and every argument of a clause is in normal form
(`Layout.Of.normalArgument`).
-/

namespace EventSchema.Source

open Lexeme (opening closing texts)
open Text (isBlankByte)
open Text.Utf8

variable {t u rest : Bytes} {b : UInt8} {l : Lexeme} {ls : List Lexeme} {r : Reading}

/-! ## Lexemes of arguments -/

/-- A text that makes no comment with a `/` right in front of it. -/
def SlashSafe (u : Bytes) : Prop := u.head? ≠ some star ∧ u.head? ≠ some slash

theorem slashSafe_iff : SlashSafe u ↔ ¬ Opens (slash :: u) := by
  rw [SlashSafe, Opens, pair_prefix_cons, pair_prefix_cons]
  simp +decide [List.cons_prefix_cons]

theorem Opens.append (h : Opens t) (u : Bytes) : Opens (t ++ u) := by
  have hprefix {x : Bytes} (hx : x <+: t) : x <+: t ++ u := hx.trans (List.prefix_append t u)
  exact h.imp hprefix (.imp hprefix (.imp hprefix hprefix))

/-- The lexemes of arguments in normal form: literals with both quotes, spaces, and bytes that are
no blanks. -/
inductive Lexeme.Plain : Lexeme → Prop
  | literal {text : Bytes} (h : WholeLiteral text) : Plain (.context .literal text)
  | byte {b : UInt8} (hopens : ¬ Opens [b]) (hspace : isBlankByte b = true → b = space) :
      Plain (.byte b)

theorem plain_space : (Lexeme.byte space).Plain := .byte (skip?_eq_none_iff.1 rfl) fun _ => rfl

theorem QuoteTail.getLast? (h : QuoteTail t rest) (hrest : rest ≠ []) :
    t.getLast? = some doubleQuote := by
  induction h with
  | closing => rfl
  | escaped b _ ih => simp [List.getLast?_cons, ih hrest]
  | plain _ _ _ ih => simp [List.getLast?_cons, ih hrest]
  | unclosed => exact absurd rfl hrest
  | cut => exact absurd rfl hrest

theorem wholeLiteral_of_contextAt (h : ContextAt .literal t rest) (hrest : rest ≠ []) :
    WholeLiteral t := by
  cases h with
  | literal h => exact fun u => skip?_of_contextAt (.literal (h.of_ne_nil hrest u))

theorem WholeLiteral.contextAt (h : WholeLiteral t) (u : Bytes) : ContextAt .literal t u :=
  contextAt_of_skip (h u)

theorem WholeLiteral.head? (h : WholeLiteral t) : t.head? = some doubleQuote := by
  cases h.contextAt [] with
  | literal => rfl

theorem WholeLiteral.getLast? (h : WholeLiteral t) : t.getLast? = some doubleQuote := by
  cases h.contextAt [space] with
  | literal h => simp [List.getLast?_cons, h.getLast? (List.cons_ne_nil _ _)]

namespace Lexeme.Plain

theorem lexes (h : l.Plain) : Lexes l.text [l] [] := by
  cases h with
  | literal h => exact .context (h.contextAt []) (List.append_nil _) (.nil [])
  | byte hopens => exact .byte hopens (.nil [])

theorem text_ne_nil (h : l.Plain) : l.text ≠ [] := by
  simpa using h.lexes.texts_ne_nil (List.cons_ne_nil l [])

theorem eq_space (h : l.Plain) (hl : l.IsTrivia) : l = .byte space := by
  cases h with
  | literal => exact absurd rfl (Lexeme.isTrivia_context.1 hl)
  | byte _ hspace => rw [hspace (Lexeme.isTrivia_byte.1 hl)]

/-- Only trivia have a blank at an end. -/
theorem not_isBlankByte (h : l.Plain) (hl : ¬ l.IsTrivia)
    (hb : l.text.head? = some b ∨ l.text.getLast? = some b) : ¬ isBlankByte b = true := by
  cases h with
  | literal h =>
    rcases hb with hb | hb
    · cases h.head?.symm.trans hb
      decide
    · cases h.getLast?.symm.trans hb
      decide
  | byte =>
    rcases hb with hb | hb
    all_goals
      cases hb
      exact fun hblank => hl (.blank hblank)

end Lexeme.Plain

/-- The lexemes of an argument stay what they are in front of a text that does not go on its last
byte to a comment. -/
theorem Lexes.append_text (h : Lexes t ls []) (hplain : ∀ l ∈ ls, l.Plain)
    (hseam : t.getLast? = some slash → SlashSafe u) : Lexes (t ++ u) ls u := by
  induction ls generalizing t with
  | nil =>
    cases h
    exact .nil u
  | cons l ls ih =>
    rw [List.forall_mem_cons] at hplain
    have hlater {x rest : Bytes} (ht : x ++ rest = t) (hrest : Lexes rest ls []) :
        Lexes (rest ++ u) ls u := by
      refine ih hrest hplain.2 fun hslash => hseam ?_
      rw [← ht, List.getLast?_append, hslash]
      rfl
    cases h with
    | @context c text rest _ _ _ hc ht later =>
      have hwhole : WholeLiteral text ∧ c = .literal := by
        cases hplain.1 with
        | literal h => exact ⟨h, rfl⟩
      rw [← ht, List.append_assoc, hwhole.2]
      exact .context (hwhole.1.contextAt _) rfl (hlater ht later)
    | @byte b rest _ _ hb later =>
      refine .byte ?_ (hlater (x := [b]) rfl later)
      by_cases hslash : b = slash
      · subst hslash
        cases rest with
        | nil => exact slashSafe_iff.1 (hseam rfl)
        | cons c rest =>
          exact skip?_eq_none_iff.1 (skip?_cons_none_local (skip?_eq_none_iff.2 hb) rfl)
      · exact not_opens_of_ne_slash hb hslash _

/-! ## Texts of arguments -/

/-- What has been read of an argument: its text and its lexemes. -/
structure Tidy (t : Bytes) (ls : List Lexeme) : Prop where
  lexes : Lexes t ls []
  /-- There are no comments and no directives. -/
  plain : ∀ l ∈ ls, l.Plain
  first : ∀ b, t.head? = some b → ¬ isBlankByte b = true
  /-- There are no two blanks in a row. -/
  single : ls.IsChain fun l m => ¬ (l.IsTrivia ∧ m.IsTrivia)
  /-- There is a `(` for each `)` before it. -/
  above : StaysAbove 1 ls
  /-- Each comma is between parentheses. -/
  commas : ∀ before, before ++ [.byte comma] <+: ls → level before ≠ 0

/-- **The normal form of an argument** with some lexemes. Outside of its literals, which have both
their quotes, there are no comments and no directives, blanks are single spaces and not at its ends,
the parentheses are balanced and each comma is between two of them. -/
structure NormalArgument (t : Bytes) (ls : List Lexeme) : Prop extends Tidy t ls where
  ne_nil : t ≠ []
  last : ∀ b, t.getLast? = some b → ¬ isBlankByte b = true
  balanced : level ls = 0

theorem tidy_nil : Tidy [] [] where
  lexes := .nil []
  plain := List.forall_mem_nil _
  first _ h := by cases h
  single := List.isChain_nil
  above := staysAbove_nil 1
  commas before h := by simp at h

/-- The first lexeme is a blank only if the first byte is. -/
theorem Tidy.not_isTrivia_head? (h : Tidy t ls) (hl : ls.head? = some l) : ¬ l.IsTrivia := by
  obtain ⟨back, rfl⟩ := List.head?_eq_some_iff.1 hl
  intro htrivia
  obtain rfl := (h.plain l List.mem_cons_self).eq_space htrivia
  refine h.first space ?_ (by decide)
  rw [← h.lexes.texts_append]
  rfl

/-- The last lexeme is a blank only if the last byte is. -/
theorem Tidy.not_isTrivia_getLast? (h : Tidy t ls)
    (hlast : ∀ b, t.getLast? = some b → ¬ isBlankByte b = true) (hl : ls.getLast? = some l) :
    ¬ l.IsTrivia := by
  obtain ⟨front, rfl⟩ := List.getLast?_eq_some_iff.1 hl
  intro htrivia
  obtain rfl := (h.plain l (by simp)).eq_space htrivia
  refine hlast space ?_ (by decide)
  rw [← h.lexes.texts_append]
  simp [Lexeme.text]

/-- A lexeme may follow where it starts no comment, is no blank next to another one, and is no `)`
and no comma unless a group is open. -/
theorem Tidy.push (h : Tidy t ls) (hl : l.Plain)
    (hblank : l.IsTrivia → t ≠ [] ∧ ∀ b, t.getLast? = some b → ¬ isBlankByte b = true)
    (hseam : t.getLast? = some slash → SlashSafe l.text) (hclosing : l = closing → 0 < level ls)
    (hcomma : l = .byte comma → level ls ≠ 0) : Tidy (t ++ l.text) (ls ++ [l]) where
  lexes := (h.lexes.append_text h.plain hseam).append hl.lexes
  plain := by
    rw [List.forall_mem_append, List.forall_mem_singleton]
    exact ⟨h.plain, hl⟩
  first b hb := by
    cases t with
    | nil =>
      refine hl.not_isBlankByte (fun htrivia => ?_) (.inl hb)
      exact (hblank htrivia).1 rfl
    | cons c t => exact h.first b hb
  single := by
    refine List.isChain_append.2 ⟨h.single, List.isChain_singleton l, ?_⟩
    rintro x hx y hy ⟨hxtrivia, hytrivia⟩
    obtain rfl : l = y := by simpa using hy
    exact h.not_isTrivia_getLast? (hblank hytrivia).2 hx hxtrivia
  above := by
    refine staysAbove_append.2 ⟨h.above, staysAbove_cons (fun hl => ?_) (staysAbove_nil _)⟩
    have := hclosing hl
    omega
  commas before hbefore := by
    rcases List.prefix_concat_iff.1 hbefore with heq | hprefix
    · obtain ⟨rfl, hlast⟩ := List.append_inj' heq rfl
      exact hcomma (by simpa using hlast.symm)
    · exact h.commas before hprefix

/-! ## Steps of the reading -/

/-- All but trivia and the commas between arguments are added to the current argument. -/
theorem Reading.step_of_not_isTrivia (r : Reading) (hl : ¬ l.IsTrivia)
    (hcomma : l = .byte comma → r.depth ≠ 0) :
    r.step l.piece = { r.push l.text with depth := r.depth + level [l] } := by
  by_cases hopening : l = opening
  · subst hopening
    rfl
  · by_cases hclosing : l = closing
    · subst hclosing
      rfl
    · rw [level_singleton_of_ne hopening hclosing, Int.add_zero]
      cases l with
      | context c text =>
        rw [Lexeme.isTrivia_context, not_not] at hl
        subst hl
        rfl
      | byte b =>
        by_cases hb : b = comma
        · subst hb
          exact if_neg (hcomma rfl)
        · have hnone : Piece.ofByte? b = none := by
            rw [Piece.ofByte?, if_neg fun h => hopening (congrArg _ h),
              if_neg fun h => hclosing (congrArg _ h), if_neg hb,
              if_neg fun h => hl (.blank h)]
          rw [Lexeme.piece_byte_of_none hnone]
          rfl

/-- What holds of a state of the reading in front of the text `rest`, when the current argument has
the lexemes `ls`. -/
structure Reading.Sound (r : Reading) (ls : List Lexeme) (rest : Bytes) : Prop where
  tidy : Tidy r.current ls
  last : ∀ b, r.current.getLast? = some b → ¬ isBlankByte b = true
  depth : level ls = r.depth
  seam : r.owed = false → r.current.getLast? = some slash → SlashSafe rest
  done : ∀ a ∈ r.done, ∃ ls, NormalArgument a ls

namespace Reading.Sound

theorem start (rest : Bytes) : Reading.start.Sound [] rest where
  tidy := tidy_nil
  last _ h := by cases h
  depth := rfl
  seam _ h := by cases h
  done := List.forall_mem_nil _

theorem gap (h : r.Sound ls rest) (u : Bytes) : r.gap.Sound ls u where
  tidy := h.tidy
  last := h.last
  depth := h.depth
  seam howed := by cases howed
  done := h.done

theorem finish (h : r.Sound ls rest) (hdepth : r.depth = 0) (u : Bytes) : r.finish.Sound [] u where
  tidy := tidy_nil
  last _ h := by cases h
  depth := hdepth.symm
  seam _ h := by cases h
  done a ha := by
    rcases List.mem_append.1 ha with ha | ha
    · exact h.done a ha
    · rw [List.mem_filter, List.mem_singleton, decide_eq_true_iff] at ha
      obtain ⟨rfl, hne⟩ := ha
      exact ⟨ls, h.tidy, hne, h.last, h.depth.trans hdepth⟩

/-- The current argument, with the space that may come before what is added next. -/
theorem spaced (h : r.Sound ls rest) :
    ∃ ms, Tidy (r.current ++ if r.owed = true ∧ r.current ≠ [] then [space] else []) ms ∧
      level ms = r.depth ∧
      ((r.current ++ if r.owed = true ∧ r.current ≠ [] then [space] else []).getLast? = some slash →
        SlashSafe rest) := by
  by_cases hspace : r.owed = true ∧ r.current ≠ []
  · rw [if_pos hspace]
    have hpush := h.tidy.push plain_space (fun _ => ⟨hspace.2, h.last⟩)
      (fun _ => ⟨by decide, by decide⟩) (fun heq => by cases heq) (fun heq => by cases heq)
    refine ⟨_, hpush, ?_, fun hslash => ?_⟩
    · rw [level_append, h.depth]
      exact Int.add_zero _
    · rw [List.getLast?_append] at hslash
      cases hslash
  · rw [if_neg hspace, List.append_nil]
    refine ⟨ls, h.tidy, h.depth, fun hslash => h.seam ?_ hslash⟩
    by_contra howed
    refine hspace ⟨by simpa using howed, fun hnil => ?_⟩
    rw [hnil] at hslash
    cases hslash

theorem push (h : r.Sound ls (l.text ++ rest)) (hl : l.Plain) (hsolid : ¬ l.IsTrivia)
    (hclosing : l = closing → 0 < r.depth) (hcomma : l = .byte comma → r.depth ≠ 0)
    (hseam : l.text.getLast? = some slash → SlashSafe rest) :
    ∃ ms, Reading.Sound { r.push l.text with depth := r.depth + level [l] } ms rest := by
  obtain ⟨ms, htidy, hdepth, hslash⟩ := h.spaced
  have hhead : l.text.head? = (l.text ++ rest).head? := head?_eq_of_append rfl hl.text_ne_nil
  have hlast {x : Bytes} : (x ++ l.text).getLast? = l.text.getLast? :=
    List.getLast?_append_of_ne_nil x hl.text_ne_nil
  refine ⟨ms ++ [l], ?_, ?_, ?_, ?_, h.done⟩
  · refine htidy.push hl (fun htrivia => absurd htrivia hsolid) (fun h => ?_) ?_ ?_
    · rw [SlashSafe, hhead]
      exact hslash h
    · rwa [hdepth]
    · rwa [hdepth]
  · intro b hb
    exact hl.not_isBlankByte hsolid (.inr (hlast.symm.trans hb))
  · rw [level_append, hdepth]
  · exact fun _ hb => hseam (hlast.symm.trans hb)

end Reading.Sound

/-- A lexeme that is kept is one of those of normal forms, as the `)` of the list is still to come,
and a `/` makes no comment with what follows it. -/
theorem plain_of_lexes (h : Lexes t [l] rest) (hrest : rest ≠ []) (hl : ¬ l.IsTrivia) :
    l.Plain ∧ (l.text.getLast? = some slash → SlashSafe rest) := by
  cases h with
  | context hc ht later =>
    cases later
    rw [Lexeme.isTrivia_context, not_not] at hl
    subst hl
    have hwhole := wholeLiteral_of_contextAt hc hrest
    refine ⟨.literal hwhole, fun hslash => ?_⟩
    cases hwhole.getLast?.symm.trans hslash
  | byte hb later =>
    cases later
    refine ⟨.byte ?_ fun hblank => absurd (.blank hblank) hl, fun hslash => ?_⟩
    · exact fun hopens => hb (hopens.append rest)
    · cases hslash
      exact slashSafe_iff.2 hb

/-- **One lexeme of the list keeps the state sound.** -/
theorem Reading.Sound.step (h : r.Sound ls t) (hl : Lexes t [l] rest) (hrest : rest ≠ [])
    (hclosing : l = closing → 0 < r.depth) : ∃ ms, (r.step l.piece).Sound ms rest := by
  by_cases htrivia : l.IsTrivia
  · rw [htrivia.piece_eq]
    exact ⟨ls, h.gap rest⟩
  · by_cases hcomma : l = .byte comma ∧ r.depth = 0
    · obtain ⟨rfl, hdepth⟩ := hcomma
      have hstep : r.step .separator = r.finish := if_pos hdepth
      exact ⟨[], hstep ▸ h.finish hdepth rest⟩
    · have hne : l = .byte comma → r.depth ≠ 0 := fun hl hdepth => hcomma ⟨hl, hdepth⟩
      obtain ⟨hplain, hseam⟩ := plain_of_lexes hl hrest htrivia
      have ht : l.text ++ rest = t := by simpa using hl.texts_append
      rw [Reading.step_of_not_isTrivia r htrivia hne]
      subst ht
      exact h.push hplain htrivia hclosing hne hseam

/-- The lexemes of a list keep the state sound, while no `)` closes it. -/
theorem Reading.Sound.after {row : List Lexeme} (h : r.Sound ls t) (hrow : Lexes t row rest)
    (hrest : rest ≠ []) (habove : StaysAbove (r.depth + 1) row) :
    ∃ ms, (r.after row).Sound ms rest := by
  induction row generalizing r ls t with
  | nil =>
    cases hrow
    exact ⟨ls, h⟩
  | cons l row ih =>
    rw [← List.singleton_append] at hrow
    obtain ⟨m, hl, hlater⟩ := hrow.of_append
    have hm : m ≠ [] := by
      rintro rfl
      exact hrest (List.append_eq_nil_iff.1 hlater.texts_append).2
    have hclosing : l = closing → 0 < r.depth := by
      rintro rfl
      have := habove.lt_of_closing
      omega
    obtain ⟨ms, hstep⟩ := h.step hl hm hclosing
    refine ih hstep hlater ?_
    have htail := habove.tail
    rwa [Reading.depth_step, Int.add_right_comm]

/-- **The arguments of a layout are in normal form.** -/
theorem Layout.Of.normalArgument {l : Layout} (h : l.Of t) :
    ∀ a ∈ l.args, ∃ ls, NormalArgument a ls := by
  obtain ⟨body, -, -, hbody⟩ := h.reads
  obtain ⟨rest, hinner, hrest⟩ := hbody.of_append
  have hne : rest ≠ [] := by
    rintro rfl
    cases hrest.eq_nil_of_nil
  obtain ⟨ms, hsound⟩ := (Reading.Sound.start body).after hinner hne h.above
  have hdepth : (Reading.start.after l.inner).depth = 0 := Reading.depth_start_after h.level
  exact (hsound.finish hdepth rest).done

end EventSchema.Source
