import EventSchema.Proofs.Source.ContextForm
import EventSchema.Source.Scan
import Mathlib.Data.List.Induction

/-!
# Lexemes

A source text is a row of contexts and of bytes outside of them, in one way only (`exists_lexes`,
`Lexes.append_or_append`). In a row of lexemes parentheses are counted, and the clause that a text
starts with goes up to the first `)` that brings their count back to zero (`ClauseAt`). The scanner
takes that clause (`clauseAt_of_closeGroup`) and fails only where there is none
(`noClause_of_closeGroup`).
-/

namespace EventSchema.Source

/-- A context, or a byte outside of contexts. -/
inductive Lexeme
  | context (kind : Context) (text : Bytes)
  | byte (b : UInt8)
  deriving DecidableEq, Repr

namespace Lexeme

def text : Lexeme → Bytes
  | context _ text => text
  | byte b => [b]

abbrev opening : Lexeme := .byte leftParen
abbrev closing : Lexeme := .byte rightParen

/-- The text of a row of lexemes. -/
def texts (ls : List Lexeme) : Bytes := ls.flatMap text

@[simp] theorem texts_nil : texts [] = [] := rfl

@[simp] theorem texts_cons (l : Lexeme) (ls : List Lexeme) : texts (l :: ls) = l.text ++ texts ls :=
  rfl

@[simp] theorem texts_append (ls ms : List Lexeme) : texts (ls ++ ms) = texts ls ++ texts ms :=
  List.flatMap_append

end Lexeme

open Lexeme (opening closing texts)

/-! ## Rows of lexemes -/

/-- `Lexes t ls r`: a text starts with the lexemes `ls`, and `r` is left. -/
inductive Lexes : Bytes → List Lexeme → Bytes → Prop
  | nil (t : Bytes) : Lexes t [] t
  | context {c : Context} {text rest t r : Bytes} {ls : List Lexeme} (h : ContextAt c text rest)
      (ht : text ++ rest = t) (later : Lexes rest ls r) : Lexes t (.context c text :: ls) r
  | byte {b : UInt8} {rest r : Bytes} {ls : List Lexeme} (h : ¬ Opens (b :: rest))
      (later : Lexes rest ls r) : Lexes (b :: rest) (.byte b :: ls) r

section

variable {t r r' text rest text' rest' : Bytes} {ls ms : List Lexeme} {c c' : Context}

theorem Lexes.texts_append (h : Lexes t ls r) : texts ls ++ r = t := by
  induction h with
  | nil t => rfl
  | context h ht _ ih => rw [Lexeme.texts_cons, List.append_assoc, ih, Lexeme.text, ht]
  | byte h _ ih => rw [Lexeme.texts_cons, List.append_assoc, ih, Lexeme.text]; rfl

theorem Lexes.append (h : Lexes t ls r) (h' : Lexes r ms r') : Lexes t (ls ++ ms) r' := by
  induction h with
  | nil t => exact h'
  | context hc ht _ ih => exact .context hc ht (ih h')
  | byte hb _ ih => exact .byte hb (ih h')

theorem Lexes.of_append (h : Lexes t (ls ++ ms) r) : ∃ rest, Lexes t ls rest ∧ Lexes rest ms r := by
  induction ls generalizing t with
  | nil => exact ⟨t, .nil t, h⟩
  | cons l ls ih =>
    cases h with
    | context hc ht later =>
      obtain ⟨rest, hls, hms⟩ := ih later
      exact ⟨rest, .context hc ht hls, hms⟩
    | byte hb later =>
      obtain ⟨rest, hls, hms⟩ := ih later
      exact ⟨rest, .byte hb hls, hms⟩

/-- A text has one context at most at its start, and where it has one no byte stands there. -/
theorem contextAt_unique (h : ContextAt c text rest) (h' : ContextAt c' text' rest')
    (heq : text ++ rest = text' ++ rest') : c = c' ∧ text = text' ∧ rest = rest' := by
  have hskip := skip?_of_contextAt h
  rw [heq, skip?_of_contextAt h'] at hskip
  cases hskip
  exact ⟨rfl, rfl, rfl⟩

theorem opens_of_contextAt (h : ContextAt c text rest) : Opens (text ++ rest) := by
  by_contra hnone
  rw [← skip?_eq_none_iff, skip?_of_contextAt h] at hnone
  cases hnone

/-- **Every text is a row of lexemes.** -/
theorem exists_lexes (t : Bytes) : ∃ ls, Lexes t ls [] := by
  induction hn : t.length using Nat.strongRecOn generalizing t with
  | ind n ih =>
    subst hn
    cases hs : skip? t with
    | some s =>
      obtain ⟨ls, hls⟩ := ih _ (skip?_length_lt hs) s.rest rfl
      exact ⟨_, .context (contextAt_of_skip hs) (skip?_append hs) hls⟩
    | none =>
      cases t with
      | nil => exact ⟨[], .nil []⟩
      | cons b rest =>
        obtain ⟨ls, hls⟩ := ih _ (Nat.lt_succ_self _) rest rfl
        exact ⟨_, .byte (skip?_eq_none_iff.1 hs) hls⟩

/-- **Of two rows of lexemes that a text starts with, one goes on from the other.** -/
theorem Lexes.append_or_append (h : Lexes t ls r) (h' : Lexes t ms r') :
    (∃ more, ms = ls ++ more ∧ Lexes r more r') ∨ ∃ more, ls = ms ++ more ∧ Lexes r' more r := by
  induction h generalizing ms with
  | nil t => exact .inl ⟨ms, rfl, h'⟩
  | @context c text rest t r ls hc ht later ih =>
    cases h' with
    | nil => exact .inr ⟨_, rfl, .context hc ht later⟩
    | context hc' ht' later' =>
      obtain ⟨rfl, rfl, rfl⟩ := contextAt_unique hc hc' (ht.trans ht'.symm)
      rcases ih later' with ⟨more, rfl, hmore⟩ | ⟨more, rfl, hmore⟩
      · exact .inl ⟨more, rfl, hmore⟩
      · exact .inr ⟨more, rfl, hmore⟩
    | byte hb => exact absurd (ht ▸ opens_of_contextAt hc) hb
  | @byte b rest r ls hb later ih =>
    cases h' with
    | nil => exact .inr ⟨_, rfl, .byte hb later⟩
    | context hc' ht' => exact absurd (ht' ▸ opens_of_contextAt hc') hb
    | byte _ later' =>
      rcases ih later' with ⟨more, rfl, hmore⟩ | ⟨more, rfl, hmore⟩
      · exact .inl ⟨more, rfl, hmore⟩
      · exact .inr ⟨more, rfl, hmore⟩

theorem Lexes.eq_nil_of_nil (h : Lexes [] ls r) : ls = [] := by
  cases h with
  | nil => rfl
  | context hc ht =>
    have hopens := opens_of_contextAt hc
    rw [ht] at hopens
    simp [Opens] at hopens

theorem Lexes.of_skip {s : Skip} (hs : skip? t = some s) (h : Lexes t ls []) :
    ∃ later, ls = .context s.context s.text :: later ∧ Lexes s.rest later [] := by
  cases h with
  | nil => cases hs
  | context hc ht later =>
    have hs' := skip?_of_contextAt hc
    rw [ht, hs] at hs'
    cases hs'
    exact ⟨_, rfl, later⟩
  | byte hb =>
    rw [skip?_eq_none_iff.2 hb] at hs
    cases hs

theorem Lexes.of_byte {b : UInt8} (hs : skip? (b :: t) = none) (h : Lexes (b :: t) ls []) :
    ∃ later, ls = .byte b :: later ∧ Lexes t later [] := by
  cases h with
  | context hc ht => exact absurd (ht ▸ opens_of_contextAt hc) (skip?_eq_none_iff.1 hs)
  | byte _ later => exact ⟨_, rfl, later⟩

end

/-! ## Counting parentheses -/

/-- How many more `(` than `)` a row of lexemes has, outside of contexts. -/
def level (ls : List Lexeme) : Int := (ls.count opening : Int) - ls.count closing

@[simp] theorem level_nil : level [] = 0 := rfl

theorem level_append (ls ms : List Lexeme) : level (ls ++ ms) = level ls + level ms := by
  simp only [level, List.count_append]
  omega

@[simp] theorem level_opening : level [opening] = 1 := by decide

@[simp] theorem level_closing : level [closing] = -1 := by decide

theorem level_singleton_of_ne {l : Lexeme} (hopen : l ≠ opening) (hclose : l ≠ closing) :
    level [l] = 0 := by
  simp [level, hopen, hclose]

/-- Up to here no group has been closed: there is a `(` before each `)`, and no `)` brings the count
back to zero. -/
structure Pending (ls : List Lexeme) : Prop where
  opened : ∀ before, before ++ [closing] <+: ls → opening ∈ before
  unclosed : ∀ before, before ++ [closing] <+: ls → level (before ++ [closing]) ≠ 0

theorem Pending.of_prefix {ls ms : List Lexeme} (h : Pending ls) (hms : ms <+: ls) :
    Pending ms where
  opened before hbefore := h.opened before (hbefore.trans hms)
  unclosed before hbefore := h.unclosed before (hbefore.trans hms)

/-- While no group has been closed, the count is above zero from the first `(` on, and zero before
that. -/
theorem Pending.level_pos_or_zero {ls : List Lexeme} (h : Pending ls) :
    opening ∈ ls ∧ 0 < level ls ∨ opening ∉ ls ∧ level ls = 0 := by
  induction ls using List.reverseRecOn with
  | nil => exact .inr ⟨by simp, rfl⟩
  | append_singleton ls l ih =>
    have hbefore := ih (h.of_prefix (List.prefix_append ls [l]))
    have hlevel := level_append ls [l]
    by_cases hopen : l = opening
    · subst hopen
      rw [level_opening] at hlevel
      refine .inl ⟨by simp, ?_⟩
      rcases hbefore with ⟨-, hpos⟩ | ⟨-, hzero⟩ <;> omega
    · by_cases hclose : l = closing
      · subst hclose
        rw [level_closing] at hlevel
        have hmem := h.opened ls (List.prefix_refl _)
        have hne := h.unclosed ls (List.prefix_refl _)
        rcases hbefore with ⟨-, hpos⟩ | ⟨hnone, -⟩
        · refine .inl ⟨by simp [hmem], ?_⟩
          omega
        · exact absurd hmem hnone
      · rw [level_singleton_of_ne hopen hclose] at hlevel
        have hmem : opening ∈ ls ++ [l] ↔ opening ∈ ls := by
          simp [Ne.symm hopen]
        rw [hmem, hlevel]
        simpa using hbefore

/-- No `)` brings a count that starts at `d` down to zero. -/
def StaysAbove (d : Int) (ls : List Lexeme) : Prop :=
  ∀ before, before ++ [closing] <+: ls → 0 < d + level (before ++ [closing])

theorem staysAbove_nil (d : Int) : StaysAbove d [] := by
  intro before h
  simp at h

theorem staysAbove_of_notMem {ls : List Lexeme} (h : closing ∉ ls) (d : Int) : StaysAbove d ls :=
  fun _ hbefore => absurd (hbefore.subset (by simp)) h

theorem staysAbove_cons {d : Int} {l : Lexeme} {ls : List Lexeme} (hl : l = closing → 1 < d)
    (h : StaysAbove (d + level [l]) ls) : StaysAbove d (l :: ls) := by
  intro before hbefore
  cases before with
  | nil =>
    rw [List.nil_append, List.cons_prefix_cons] at hbefore
    have hd := hl hbefore.1.symm
    rw [List.nil_append, level_closing]
    omega
  | cons m before =>
    rw [List.cons_append, List.cons_prefix_cons] at hbefore
    obtain ⟨rfl, hrest⟩ := hbefore
    have hlater := h before hrest
    have hsum := level_append [m] (before ++ [closing])
    rw [List.singleton_append] at hsum
    rw [List.cons_append, hsum]
    omega

theorem StaysAbove.lt_of_closing {d : Int} {ls : List Lexeme} (h : StaysAbove d (closing :: ls)) :
    1 < d := by
  have hpos := h [] (by simp)
  rw [List.nil_append, level_closing] at hpos
  omega

theorem StaysAbove.tail {d : Int} {l : Lexeme} {ls : List Lexeme} (h : StaysAbove d (l :: ls)) :
    StaysAbove (d + level [l]) ls := by
  intro before hbefore
  have hpos := h (l :: before) (by simpa using hbefore)
  rw [List.cons_append, ← List.singleton_append, level_append] at hpos
  omega

theorem staysAbove_append {d : Int} {ls ms : List Lexeme} :
    StaysAbove d (ls ++ ms) ↔ StaysAbove d ls ∧ StaysAbove (d + level ls) ms := by
  induction ls generalizing d with
  | nil => simp [staysAbove_nil]
  | cons l ls ih =>
    have hlevel := level_append [l] ls
    rw [List.singleton_append] at hlevel
    constructor
    · intro h
      obtain ⟨hls, hms⟩ := ih.1 h.tail
      refine ⟨staysAbove_cons (fun hl => ?_) hls, ?_⟩
      · subst hl
        exact h.lt_of_closing
      · rwa [hlevel, ← Int.add_assoc]
    · rintro ⟨hls, hms⟩
      rw [hlevel, ← Int.add_assoc] at hms
      refine staysAbove_cons (fun hl => ?_) (ih.2 ⟨hls.tail, hms⟩)
      subst hl
      exact hls.lt_of_closing

theorem pending_of_staysAbove {ls : List Lexeme} (h : StaysAbove 0 ls) : Pending ls where
  opened before hbefore := by
    have hpos := h before hbefore
    rw [level_append, level_closing, level] at hpos
    exact List.count_pos_iff.1 (by omega)
  unclosed before hbefore := by
    have hpos := h before hbefore
    omega

/-! ## Clauses -/

/-- The clause that a text starts with, up to the first `)` outside of contexts that brings the
count of parentheses back to zero, and what follows it. -/
def ClauseAt (t text rest : Bytes) : Prop :=
  ∃ ls, Lexes t (ls ++ [closing]) rest ∧ texts (ls ++ [closing]) = text ∧ Pending ls ∧
    level (ls ++ [closing]) = 0

theorem ClauseAt.append {t text rest : Bytes} (h : ClauseAt t text rest) : text ++ rest = t := by
  obtain ⟨ls, hls, rfl, -, -⟩ := h
  exact hls.texts_append

/-- A text that starts with no clause. -/
inductive NoClause (t : Bytes) : Prop
  /-- There is a `)` before any `(`. -/
  | closesFirst {ls : List Lexeme} {rest : Bytes} (h : Lexes t (ls ++ [closing]) rest)
      (hopen : opening ∉ ls)
  /-- The text ends before its group is closed. -/
  | ends {ls : List Lexeme} (h : Lexes t ls []) (pending : Pending ls)

theorem opening_mem_of_level {ls : List Lexeme} (h : level (ls ++ [closing]) = 0) :
    opening ∈ ls := by
  rw [level_append, level_closing, level] at h
  exact List.count_pos_iff.1 (by omega)

/-- No group is closed further on than where one has been closed already. -/
theorem not_prefix_of_pending {ls ms : List Lexeme} (hpending : Pending ms)
    (hlevel : level (ls ++ [closing]) = 0) : ¬ ls ++ [closing] <+: ms :=
  fun hstart => hpending.unclosed ls hstart hlevel

/-- What follows a row that ends with `)` comes after that `)`, if there is anything. -/
theorem append_eq_append_closing {ls ms more : List Lexeme}
    (h : ls ++ [closing] = ms ++ [closing] ++ more) :
    more = [] ∧ ls = ms ∨ ms ++ [closing] <+: ls := by
  induction more using List.reverseRecOn with
  | nil => exact .inl ⟨rfl, by simpa using h⟩
  | append_singleton more l _ =>
    rw [← List.append_assoc] at h
    have hls : ls = ms ++ [closing] ++ more := (List.append_inj' h rfl).1
    exact .inr (hls ▸ List.prefix_append _ more)

/-- **A text starts with one clause at most.** -/
theorem clauseAt_unique {t text rest text' rest' : Bytes} (h : ClauseAt t text rest)
    (h' : ClauseAt t text' rest') : text = text' ∧ rest = rest' := by
  obtain ⟨ls, hls, rfl, hpending, hlevel⟩ := h
  obtain ⟨ms, hms, rfl, hpending', hlevel'⟩ := h'
  rcases hls.append_or_append hms with ⟨more, heq, hmore⟩ | ⟨more, heq, hmore⟩
  · rcases append_eq_append_closing heq with ⟨rfl, rfl⟩ | hstart
    · cases hmore
      exact ⟨rfl, rfl⟩
    · exact absurd hstart (not_prefix_of_pending hpending' hlevel)
  · rcases append_eq_append_closing heq with ⟨rfl, rfl⟩ | hstart
    · cases hmore
      exact ⟨rfl, rfl⟩
    · exact absurd hstart (not_prefix_of_pending hpending hlevel')

/-- **A text that starts with a clause does not lack one.** -/
theorem not_noClause_of_clauseAt {t text rest : Bytes} (h : ClauseAt t text rest) :
    ¬ NoClause t := by
  obtain ⟨ls, hls, -, hpending, hlevel⟩ := h
  rintro (⟨hms, hnone⟩ | ⟨hms, hpending'⟩)
  · have hopen : opening ∈ ls := opening_mem_of_level hlevel
    rcases hls.append_or_append hms with ⟨more, heq, -⟩ | ⟨more, heq, -⟩
    · rcases append_eq_append_closing heq with ⟨-, rfl⟩ | hstart
      · exact hnone hopen
      · exact hnone (hstart.subset (by simp [hopen]))
    · rcases append_eq_append_closing heq with ⟨-, rfl⟩ | hstart
      · exact hnone hopen
      · exact hnone (hpending.opened _ hstart)
  · rcases hls.append_or_append hms with ⟨more, rfl, -⟩ | ⟨more, heq, hmore⟩
    · exact not_prefix_of_pending hpending' hlevel (List.prefix_append _ more)
    · obtain rfl := hmore.eq_nil_of_nil
      rw [List.append_nil] at heq
      exact not_prefix_of_pending hpending' hlevel (heq ▸ List.prefix_refl _)

/-! ## What the scanner takes -/

/-- A text starts with some lexemes that take the count of parentheses from `d` to `d'`, and no `)`
among them brings it down to zero. -/
structure ReadsTo (d : Int) (t : Bytes) (ls : List Lexeme) (d' : Int) (r : Bytes) : Prop where
  lexes : Lexes t ls r
  above : StaysAbove d ls
  level : d + level ls = d'

section

variable {d d' : Int} {t r : Bytes} {ls : List Lexeme}

theorem readsTo_nil (d : Int) (t : Bytes) : ReadsTo d t [] d t :=
  ⟨.nil t, staysAbove_nil d, by simp⟩

theorem ReadsTo.context {s : Skip} (hs : skip? t = some s) (h : ReadsTo d s.rest ls d' r) :
    ReadsTo d t (.context s.context s.text :: ls) d' r := by
  have hne : Lexeme.context s.context s.text ≠ closing := Lexeme.noConfusion
  have hzero : EventSchema.Source.level [Lexeme.context s.context s.text] = 0 :=
    level_singleton_of_ne Lexeme.noConfusion hne
  refine ⟨.context (contextAt_of_skip hs) (skip?_append hs) h.lexes,
    staysAbove_cons (fun heq => absurd heq hne) ?_, ?_⟩
  · simpa [hzero] using h.above
  · rw [← List.singleton_append, level_append, hzero, Int.zero_add, h.level]

theorem ReadsTo.byte {b : UInt8} (hs : skip? (b :: t) = none) (hb : b = rightParen → 1 < d)
    (h : ReadsTo (d + EventSchema.Source.level [.byte b]) t ls d' r) :
    ReadsTo d (b :: t) (.byte b :: ls) d' r := by
  refine ⟨.byte (skip?_eq_none_iff.1 hs) h.lexes,
    staysAbove_cons (fun heq => hb (Lexeme.byte.inj heq)) h.above, ?_⟩
  rw [← List.singleton_append, level_append, ← Int.add_assoc, h.level]

end

theorem map_eq_error {ε α β : Type} {x : Except ε α} {f : α → β} {e : ε}
    (h : x.map f = .error e) : x = .error e := by
  cases x with
  | error e' =>
    cases h
    rfl
  | ok a => cases h

/-- **What is read of a group** is its lexemes, up to the `)` that closes it. -/
theorem readsTo_of_closeGroup {start line depth : Nat} {t text rest : Bytes}
    (h : closeGroup start line depth t = .ok (text, rest)) :
    ∃ ls, ReadsTo depth t ls 1 (rightParen :: rest) ∧ texts ls ++ [rightParen] = text := by
  fun_induction closeGroup start line depth t generalizing text rest with
  | case1 line depth t s hs ih =>
    obtain ⟨⟨text', rest'⟩, hg, heq⟩ := map_eq_ok h
    cases heq
    obtain ⟨ls, hls, htext⟩ := ih hg
    exact ⟨_, hls.context hs, by simp [Lexeme.text, ← htext]⟩
  | case2 => cases h
  | case3 line depth rest' hs ih =>
    obtain ⟨⟨text', rest''⟩, hg, heq⟩ := map_eq_ok h
    cases heq
    obtain ⟨ls, hls, htext⟩ := ih hg
    exact ⟨_, .byte hs (fun heq => by cases heq) (by simpa using hls), by
      simp [Lexeme.text, ← htext]⟩
  | case4 => cases h
  | case5 line rest' hs =>
    cases h
    exact ⟨[], readsTo_nil 1 _, rfl⟩
  | case6 line rest' n hs _ ih =>
    obtain ⟨⟨text', rest''⟩, hg, heq⟩ := map_eq_ok h
    cases heq
    obtain ⟨ls, hls, htext⟩ := ih hg
    have hdown : (↑(n + 2) : Int) + level [closing] = ↑(n + 1) := by
      rw [level_closing]
      omega
    exact ⟨_, .byte hs (fun _ => by omega) (hdown ▸ hls), by simp [Lexeme.text, ← htext]⟩
  | case7 line depth b rest' hs hl hr ih =>
    obtain ⟨⟨text', rest''⟩, hg, heq⟩ := map_eq_ok h
    cases heq
    obtain ⟨ls, hls, htext⟩ := ih hg
    have hzero : level [Lexeme.byte b] = 0 :=
      level_singleton_of_ne (fun heq => hl (Lexeme.byte.inj heq))
        fun heq => hr (Lexeme.byte.inj heq)
    exact ⟨_, .byte hs (fun heq => absurd heq hr) (by simpa [hzero] using hls), by
      simp [Lexeme.text, ← htext]⟩

/-- **Where a group is not read**, there is a `)` when none is open, or the text ends. -/
theorem readsTo_of_closeGroup_eq_error {start line depth : Nat} {t : Bytes} {fault : ScanFault}
    (h : closeGroup start line depth t = .error fault) :
    (∃ ls rest, ReadsTo depth t ls 0 (rightParen :: rest)) ∨
      ∃ ls d, ReadsTo depth t ls d [] := by
  fun_induction closeGroup start line depth t with
  | case1 line depth t s hs ih =>
    rcases ih (map_eq_error h) with ⟨ls, rest, hls⟩ | ⟨ls, d, hls⟩
    · exact .inl ⟨_, rest, hls.context hs⟩
    · exact .inr ⟨_, d, hls.context hs⟩
  | case2 line depth hs => exact .inr ⟨[], depth, readsTo_nil _ _⟩
  | case3 line depth rest' hs ih =>
    have hdown (hparen : leftParen = rightParen) : 1 < (depth : Int) := by cases hparen
    rcases ih (map_eq_error h) with ⟨ls, rest, hls⟩ | ⟨ls, d, hls⟩
    · exact .inl ⟨_, rest, .byte hs hdown (by simpa using hls)⟩
    · exact .inr ⟨_, d, .byte hs hdown (by simpa using hls)⟩
  | case4 line rest' hs => exact .inl ⟨[], rest', readsTo_nil 0 _⟩
  | case5 line rest' hs => cases h
  | case6 line rest' n hs _ ih =>
    have hdown : (↑(n + 2) : Int) + level [closing] = ↑(n + 1) := by
      rw [level_closing]
      omega
    rcases ih (map_eq_error h) with ⟨ls, rest, hls⟩ | ⟨ls, d, hls⟩
    · exact .inl ⟨_, rest, .byte hs (fun _ => by omega) (hdown ▸ hls)⟩
    · exact .inr ⟨_, d, .byte hs (fun _ => by omega) (hdown ▸ hls)⟩
  | case7 line depth b rest' hs hl hr ih =>
    have hzero : level [Lexeme.byte b] = 0 :=
      level_singleton_of_ne (fun heq => hl (Lexeme.byte.inj heq))
        fun heq => hr (Lexeme.byte.inj heq)
    rcases ih (map_eq_error h) with ⟨ls, rest, hls⟩ | ⟨ls, d, hls⟩
    · exact .inl ⟨_, rest, .byte hs (fun heq => absurd heq hr) (by simpa [hzero] using hls)⟩
    · exact .inr ⟨_, d, .byte hs (fun heq => absurd heq hr) (by simpa [hzero] using hls)⟩

/-- **The scanner takes the clause that a text starts with.** -/
theorem clauseAt_of_closeGroup {start line : Nat} {t text rest : Bytes}
    (h : closeGroup start line 0 t = .ok (text, rest)) : ClauseAt t text rest := by
  obtain ⟨ls, hls, htext⟩ := readsTo_of_closeGroup h
  have hclose : ¬ Opens (rightParen :: rest) := skip?_eq_none_iff.1 rfl
  refine ⟨ls, hls.lexes.append (.byte hclose (.nil rest)), ?_, pending_of_staysAbove hls.above, ?_⟩
  · simpa [Lexeme.text] using htext
  · have hlevel := hls.level
    rw [level_append, level_closing]
    omega

/-- **The scanner fails only where a text starts with no clause.** -/
theorem noClause_of_closeGroup {start line : Nat} {t : Bytes} {fault : ScanFault}
    (h : closeGroup start line 0 t = .error fault) : NoClause t := by
  rcases readsTo_of_closeGroup_eq_error h with ⟨ls, rest, hls⟩ | ⟨ls, d, hls⟩
  · have hclose : ¬ Opens (rightParen :: rest) := skip?_eq_none_iff.1 rfl
    have hpending := pending_of_staysAbove hls.above
    refine .closesFirst (hls.lexes.append (.byte hclose (.nil rest))) ?_
    have hlevel := hls.level
    rcases hpending.level_pos_or_zero with ⟨-, hpos⟩ | ⟨hnone, -⟩
    · omega
    · exact hnone
  · exact .ends hls.lexes (pending_of_staysAbove hls.above)

end EventSchema.Source
