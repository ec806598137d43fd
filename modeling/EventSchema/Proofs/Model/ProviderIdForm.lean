import EventSchema.Model.ProviderId
import EventSchema.Proofs.Source.Spelling
import EventSchema.Proofs.Text.NumeralForm
import Mathlib.Data.List.TakeWhile

/-!
# How identifiers are written

A number has several notations as an identifier (`Written`): decimal digits, hexadecimal digits
after `0x`, with dashes between them, or with a letter among them. Each of them may stand in braces,
in a literal and between blanks (`Wrapped`), and is read as the number (`parse_wrapped`).

What is read is written so, but for a plus in front of the digits and underscores among them
(`Loose`). These are no digits, so a decimal number that has one of them is read as a hexadecimal
one (`parse_accepts`).
-/

namespace EventSchema.ProviderId

open Text (trim trimChars isBlank dropEndWhile)
open Text.Numeral (IsNumeral digit? read?)

variable {base n : Nat} {text plain : String} {core cs : List Char}

/-! ## Notations -/

/-- What a number is written as, with hexadecimal digits of some kind. -/
inductive Written (n : Nat) (hex : List Char → Prop) : List Char → Prop
  | decimal {cs : List Char} (h : IsNumeral 10 n cs) : Written n hex cs
  | marked {x : Char} {cs : List Char} (mark : x = 'x' ∨ x = 'X') (h : hex cs) :
    Written n hex ('0' :: x :: cs)
  /-- The dashes may stand anywhere. -/
  | dashed {cs : List Char} (dash : '-' ∈ cs) (h : hex (cs.filter (· ≠ '-'))) : Written n hex cs
  | lettered {cs : List Char} (letter : ∃ c ∈ cs, c.isDigit = false) (h : hex cs) :
    Written n hex cs

/-- Digits as they are read: a plus may stand in front of them, and underscores behind the first. -/
def Loose (base n : Nat) (cs : List Char) : Prop :=
  ∃ sign digits, cs = sign ++ digits ∧ (sign = [] ∨ sign = ['+']) ∧ digits.head? ≠ some '_' ∧
    IsNumeral base n (digits.filter (· ≠ '_'))

theorem number?_append {sign digits : List Char} (hsign : sign = [] ∨ sign = ['+'])
    (hplus : digits.head? ≠ some '+') :
    number? base (sign ++ digits) =
      if digits.head? = some '_' then none
      else read? base ((digits.filter (· ≠ '_')).map Char.toNat) := by
  unfold number?
  dsimp only
  rcases hsign with rfl | rfl
  · rw [List.nil_append]
    split
    · exact absurd rfl hplus
    · exact absurd rfl hplus
    · rfl
  · rw [List.singleton_append]
    split
    · next heq =>
      rw [(List.cons.inj heq).2] at hplus
      exact absurd rfl hplus
    · next heq => rw [(List.cons.inj heq).2]
    · next hother => exact absurd rfl (hother _)

/-- A number is read from its digits, and from no other characters than these. -/
theorem number?_eq_some_iff (hone : 1 < base) (hbase : base ≤ 16) :
    number? base cs = some n ↔ Loose base n cs := by
  have hread {digits : List Char} : (if digits.head? = some '_' then none
      else read? base ((digits.filter (· ≠ '_')).map Char.toNat)) = some n ↔
        digits.head? ≠ some '_' ∧ IsNumeral base n (digits.filter (· ≠ '_')) := by
    rw [Option.ite_none_left_eq_some, Text.Numeral.read?_eq_some_iff hone hbase]
  constructor
  · intro h
    by_cases hfirst : cs.head? = some '+'
    · obtain ⟨rest, rfl⟩ := List.head?_eq_some_iff.1 hfirst
      by_cases hsecond : rest.head? = some '+'
      · obtain ⟨rest, rfl⟩ := List.head?_eq_some_iff.1 hsecond
        exact ⟨[], _, rfl, .inl rfl, hread.1 h⟩
      · rw [← List.singleton_append, number?_append (.inr rfl) hsecond] at h
        exact ⟨['+'], rest, rfl, .inr rfl, hread.1 h⟩
    · rw [← List.nil_append cs, number?_append (.inl rfl) hfirst] at h
      exact ⟨[], cs, rfl, .inl rfl, hread.1 h⟩
  · rintro ⟨sign, digits, rfl, hsign, hhead, h⟩
    -- a plus is no digit, so only the sign can be one
    have hplus : digits.head? ≠ some '+' := by
      intro hfirst
      obtain ⟨rest, rfl⟩ := List.head?_eq_some_iff.1 hfirst
      have hdigit : digit? base '+'.toNat = none := rfl
      exact h.notMem hone hbase hdigit (List.mem_filter.2 ⟨List.mem_cons_self, rfl⟩)
    rw [number?_append hsign hplus]
    exact hread.2 ⟨hhead, h⟩

theorem loose_of_isNumeral (hone : 1 < base) (hbase : base ≤ 16) (h : IsNumeral base n cs) :
    Loose base n cs := by
  have hscore : '_' ∉ cs := h.notMem hone hbase rfl
  have hfilter : cs.filter (· ≠ '_') = cs :=
    List.filter_eq_self.2 fun c hc => decide_eq_true fun heq => hscore (heq ▸ hc)
  exact ⟨[], cs, rfl, .inl rfl, fun hhead => hscore (List.mem_of_head? hhead), hfilter.symm ▸ h⟩

theorem Loose.exists_digit? (h : Loose base n cs) (hone : 1 < base) (hbase : base ≤ 16) {c : Char}
    (hc : c ∈ cs) : c = '+' ∨ c = '_' ∨ ∃ d, digit? base c.toNat = some d := by
  obtain ⟨sign, digits, rfl, hsign, -, hnum⟩ := h
  rcases List.mem_append.1 hc with hc | hc
  · rcases hsign with rfl | rfl
    · cases hc
    · exact .inl (List.mem_singleton.1 hc)
  · by_cases hscore : c = '_'
    · exact .inr (.inl hscore)
    · exact .inr (.inr (hnum.exists_digit? hone hbase
        (List.mem_filter.2 ⟨hc, decide_eq_true hscore⟩)))

theorem Loose.notMem (h : Loose base n cs) (hone : 1 < base) (hbase : base ≤ 16) {c : Char}
    (hc : digit? base c.toNat = none) (hplus : c ≠ '+') (hscore : c ≠ '_') : c ∉ cs := by
  intro hmem
  rcases h.exists_digit? hone hbase hmem with heq | heq | ⟨d, hd⟩
  · exact hplus heq
  · exact hscore heq
  · rw [hc] at hd
    cases hd

/-- Without a plus and underscores, what is read is a numeral. -/
theorem Loose.isNumeral (h : Loose base n cs) (hplus : '+' ∉ cs) (hscore : '_' ∉ cs) :
    IsNumeral base n cs := by
  obtain ⟨sign, digits, rfl, rfl | rfl, -, hnum⟩ := h
  · rw [List.nil_append] at hscore ⊢
    have hfilter : digits.filter (· ≠ '_') = digits :=
      List.filter_eq_self.2 fun c hc => decide_eq_true fun heq => hscore (heq ▸ hc)
    rwa [hfilter] at hnum
  · exact absurd (List.mem_append_left _ (List.mem_singleton_self _)) hplus

/-! ## Identifiers without quotes and braces -/

theorem bare?_marked {x : Char} (mark : x = 'x' ∨ x = 'X') (cs : List Char) :
    bare? ('0' :: x :: cs) = number? 16 cs := by
  rcases mark with rfl | rfl <;> rfl

theorem bare?_unmarked (hlower : 'x' ∉ cs) (hupper : 'X' ∉ cs) :
    bare? cs = if cs.contains '-' then number? 16 (cs.filter (· ≠ '-'))
      else if cs.all Char.isDigit then number? 10 cs else number? 16 cs := by
  unfold bare?
  split
  · exact absurd (.tail _ List.mem_cons_self) hlower
  · exact absurd (.tail _ List.mem_cons_self) hupper
  · rfl

theorem bare?_of_dash (hlower : 'x' ∉ cs) (hupper : 'X' ∉ cs) (dash : '-' ∈ cs) :
    bare? cs = number? 16 (cs.filter (· ≠ '-')) := by
  rw [bare?_unmarked hlower hupper, if_pos (List.contains_iff_mem.2 dash)]

theorem bare?_of_not_dash (hlower : 'x' ∉ cs) (hupper : 'X' ∉ cs) (dash : '-' ∉ cs) :
    bare? cs = if cs.all Char.isDigit then number? 10 cs else number? 16 cs := by
  rw [bare?_unmarked hlower hupper, if_neg (List.contains_iff_mem.not.2 dash)]

/-- **Identifiers are read as they are written**, with digits as they are read. -/
theorem bare?_eq_some_iff : bare? cs = some n ↔ Written n (Loose 16 n) cs := by
  have hread {digits : List Char} : number? 16 digits = some n ↔ Loose 16 n digits :=
    number?_eq_some_iff (by decide) (by decide)
  constructor
  · intro h
    unfold bare? at h
    split at h
    · exact .marked (.inl rfl) (hread.1 h)
    · exact .marked (.inr rfl) (hread.1 h)
    · split at h
      · next hdash => exact .dashed (List.contains_iff_mem.1 hdash) (hread.1 h)
      · split at h
        · next hall =>
          have hdigit : ∀ c ∈ cs, c.isDigit = true := List.all_eq_true.1 hall
          have hplus : '+' ∉ cs := fun hmem => absurd (hdigit _ hmem) (by decide)
          have hscore : '_' ∉ cs := fun hmem => absurd (hdigit _ hmem) (by decide)
          have hloose := (number?_eq_some_iff (by decide) (by decide)).1 h
          exact .decimal (hloose.isNumeral hplus hscore)
        · next hall => exact .lettered (by simpa using hall) (hread.1 h)
  · intro h
    cases h with
    | decimal h =>
      have hall : cs.all Char.isDigit = true := List.all_eq_true.2 fun c => h.isDigit
      have hnot {c : Char} (hc : c.isDigit = false) : c ∉ cs := fun hmem => by
        rw [h.isDigit hmem] at hc
        cases hc
      rw [bare?_of_not_dash (hnot rfl) (hnot rfl) (hnot rfl), if_pos hall]
      exact (number?_eq_some_iff (by decide) (by decide)).2
        (loose_of_isNumeral (by decide) (by decide) h)
    | marked mark h => rw [bare?_marked mark, hread.2 h]
    | dashed dash h =>
      have hnot {c : Char} (hc : digit? 16 c.toNat = none) (hplus : c ≠ '+') (hscore : c ≠ '_')
          (hdash : c ≠ '-') : c ∉ cs := fun hmem =>
        h.notMem (by decide) (by decide) hc hplus hscore
          (List.mem_filter.2 ⟨hmem, decide_eq_true hdash⟩)
      rw [bare?_of_dash (hnot rfl (by decide) (by decide) (by decide))
        (hnot rfl (by decide) (by decide) (by decide)) dash, hread.2 h]
    | lettered letter h =>
      have hnot {c : Char} (hc : digit? 16 c.toNat = none) (hplus : c ≠ '+') (hscore : c ≠ '_') :
          c ∉ cs := h.notMem (by decide) (by decide) hc hplus hscore
      have hall : ¬ cs.all Char.isDigit = true := by simpa using letter
      rw [bare?_of_not_dash (hnot rfl (by decide) (by decide))
        (hnot rfl (by decide) (by decide)) (hnot rfl (by decide) (by decide)), if_neg hall,
        hread.2 h]

theorem Written.imp {hex hex' : List Char → Prop} (h : Written n hex cs)
    (himp : ∀ ds, (∀ c ∈ ds, c ∈ cs) → hex ds → hex' ds) : Written n hex' cs := by
  cases h with
  | decimal h => exact .decimal h
  | marked mark h => exact .marked mark (himp _ (fun c hc => .tail _ (.tail _ hc)) h)
  | dashed dash h => exact .dashed dash (himp _ (fun c hc => (List.mem_filter.1 hc).1) h)
  | lettered letter h => exact .lettered letter (himp _ (fun c hc => hc) h)

/-- A notation is made of hexadecimal digits, the letter of `0x` and dashes. -/
theorem Written.exists_digit? (h : Written n (IsNumeral 16 n) cs) {c : Char} (hc : c ∈ cs) :
    c = 'x' ∨ c = 'X' ∨ c = '-' ∨ ∃ d, digit? 16 c.toNat = some d := by
  cases h with
  | decimal h =>
    obtain ⟨d, hd⟩ := h.exists_digit? (by decide) (by decide) hc
    exact .inr (.inr (.inr ⟨d, Text.Numeral.digit?_of_le (by decide) hd⟩))
  | marked mark h =>
    rcases List.mem_cons.1 hc with rfl | hc
    · exact .inr (.inr (.inr ⟨0, rfl⟩))
    · rcases List.mem_cons.1 hc with rfl | hc
      · exact mark.imp_right .inl
      · exact .inr (.inr (.inr (h.exists_digit? (by decide) (by decide) hc)))
  | dashed _ h =>
    by_cases hdash : c = '-'
    · exact .inr (.inr (.inl hdash))
    · exact .inr (.inr (.inr (h.exists_digit? (by decide) (by decide)
        (List.mem_filter.2 ⟨hc, decide_eq_true hdash⟩))))
  | lettered _ h => exact .inr (.inr (.inr (h.exists_digit? (by decide) (by decide) hc)))

/-- What is read is a notation exactly where it has no plus and no underscore. -/
theorem Written.isNumeral_iff (h : Written n (Loose 16 n) cs) :
    Written n (IsNumeral 16 n) cs ↔ '+' ∉ cs ∧ '_' ∉ cs := by
  constructor
  · intro h
    constructor
    all_goals
      intro hmem
      rcases h.exists_digit? hmem with heq | heq | heq | ⟨d, hd⟩
      · exact absurd heq (by decide)
      · exact absurd heq (by decide)
      · exact absurd heq (by decide)
      · cases hd
  · rintro ⟨hplus, hscore⟩
    exact h.imp fun ds hsub hloose =>
      hloose.isNumeral (fun hmem => hplus (hsub _ hmem)) fun hmem => hscore (hsub _ hmem)

/-! ## Quotes and braces -/

/-- What a text says, with its quotes taken off if it starts with some. -/
def Unquoted (text plain : String) : Prop :=
  if startsQuoted (trim text).toList then Source.Literal.decode (trim text) = .ok plain
  else plain = trim text

/-- What is left of a text without blanks, quotes and braces. -/
def HasCore (text : String) (core : List Char) : Prop :=
  ∃ plain, Unquoted text plain ∧ core = withoutBraces (trimChars plain.toList)

theorem parse_of_unquoted (h : Unquoted text plain) :
    parse text =
      match bare? (withoutBraces (trimChars plain.toList)) with
      | some n => .ok n
      | none => .error (.providerId text) := by
  unfold Unquoted at h
  unfold parse
  dsimp only
  split at h
  · next hquoted =>
    rw [if_pos hquoted, h]
    rfl
  · next hquoted =>
    rw [if_neg hquoted, ← h]
    rfl

theorem exists_unquoted (h : parse text = .ok n) : ∃ plain, Unquoted text plain := by
  unfold Unquoted
  by_cases hquoted : startsQuoted (trim text).toList = true
  · cases hdecode : Source.Literal.decode (trim text) with
    | error fault =>
      unfold parse at h
      simp only [hquoted, if_true, hdecode] at h
      cases h
    | ok plain => exact ⟨plain, by rw [if_pos hquoted]⟩
  · exact ⟨trim text, by rw [if_neg hquoted]⟩

theorem parse_eq_ok_iff :
    parse text = .ok n ↔ ∃ core, HasCore text core ∧ Written n (Loose 16 n) core := by
  have hcore {plain : String} (hplain : Unquoted text plain) :
      parse text = .ok n ↔ Written n (Loose 16 n) (withoutBraces (trimChars plain.toList)) := by
    rw [parse_of_unquoted hplain, ← bare?_eq_some_iff]
    cases bare? (withoutBraces (trimChars plain.toList)) <;> simp
  constructor
  · intro h
    obtain ⟨plain, hplain⟩ := exists_unquoted h
    exact ⟨_, ⟨plain, hplain, rfl⟩, (hcore hplain).1 h⟩
  · rintro ⟨core, ⟨plain, hplain, rfl⟩, h⟩
    exact (hcore hplain).2 h

/-- Characters between blanks. -/
def Spaced (inner cs : List Char) : Prop :=
  ∃ before after, cs = before ++ inner ++ after ∧ (∀ c ∈ before, isBlank c = true) ∧
    ∀ c ∈ after, isBlank c = true

/-- Characters in braces, with any number of them on either side. -/
def Braced (core cs : List Char) : Prop :=
  ∃ opening closing, cs = List.replicate opening '{' ++ core ++ List.replicate closing '}'

/-- Texts that say no more than their core. What stands in braces may be written as a literal. -/
inductive Wrapped (core : List Char) : String → Prop
  | bare {inner : List Char} {text : String} (braces : Braced core inner)
      (blanks : Spaced inner text.toList) : Wrapped core text
  | quoted {inner : List Char} {mark plain text : String} (braces : Braced core inner)
      (blanks : Spaced inner plain.toList) (mark_eq : mark = "" ∨ mark = "L")
      (outside : Spaced (mark ++ Source.Literal.quote plain).toList text.toList) : Wrapped core text
  /-- Between the quotes, escapes may stand for characters. -/
  | escaped {inner : List Char} {mark body plain text : String} (braces : Braced core inner)
      (blanks : Spaced inner plain.toList) (mark_eq : mark = "" ∨ mark = "L")
      (decodes : Source.Literal.decode (mark ++ Source.Literal.quote body) = .ok plain)
      (outside : Spaced (mark ++ Source.Literal.quote body).toList text.toList) : Wrapped core text

/-- The characters that an identifier without quotes and braces may have. -/
def IsPlain (c : Char) : Prop :=
  isBlank c = false ∧ c ≠ '{' ∧ c ≠ '}' ∧ c ≠ '"' ∧ c ≠ 'L' ∧ c ≠ '\\'

theorem isPlain_of_digit? {c : Char} {d : Nat} (h : digit? 16 c.toNat = some d) : IsPlain c := by
  have hcode := Text.Numeral.code_of_digit? h
  have hne {e : Char} (he : digit? 16 e.toNat = none) : c ≠ e := by
    rintro rfl
    rw [h] at he
    cases he
  refine ⟨?_, hne rfl, hne rfl, hne rfl, hne rfl, hne rfl⟩
  unfold isBlank
  simp only [Bool.or_eq_false_iff, Bool.and_eq_false_iff, decide_eq_false_iff_not,
    beq_eq_false_iff_ne]
  omega

theorem Written.isPlain (h : Written n (IsNumeral 16 n) core) {c : Char} (hc : c ∈ core) :
    IsPlain c := by
  rcases h.exists_digit? hc with rfl | rfl | rfl | ⟨d, hd⟩
  · exact ⟨rfl, by decide⟩
  · exact ⟨rfl, by decide⟩
  · exact ⟨rfl, by decide⟩
  · exact isPlain_of_digit? hd

theorem withoutBraces_of_braced (h : Braced core cs) (plain : ∀ c ∈ core, IsPlain c) :
    withoutBraces cs = core := by
  obtain ⟨opening, closing, rfl⟩ := h
  have hopening : ∀ c ∈ List.replicate opening '{', (c == '{') = true :=
    fun c hc => beq_iff_eq.2 (List.eq_of_mem_replicate hc)
  have hclosing : ∀ c ∈ List.replicate closing '}', (c == '}') = true :=
    fun c hc => beq_iff_eq.2 (List.eq_of_mem_replicate hc)
  have hself : dropEndWhile (· == '}') core = core := by
    refine Text.dropEndWhile_eq_self _ _ fun c hc => ?_
    exact beq_eq_false_iff_ne.2 (plain c (List.mem_of_getLast? hc)).2.2.1
  have hstart : (core ++ List.replicate closing '}').dropWhile (· == '{') =
      core ++ List.replicate closing '}' := by
    refine List.dropWhile_eq_self_iff.2 fun hlength hfirst => ?_
    rcases List.mem_append.1 (List.getElem_mem hlength) with hmem | hmem
    · exact (plain _ hmem).2.1 (beq_iff_eq.1 hfirst)
    · rw [List.eq_of_mem_replicate hmem] at hfirst
      exact absurd hfirst (by decide)
  rw [withoutBraces, List.append_assoc, List.dropWhile_append_of_pos hopening, hstart,
    Text.dropEndWhile_append hclosing, hself]

/-- What stands in braces has no blanks, does not start like a literal and needs no escapes. -/
theorem Braced.mem {c : Char} (h : Braced core cs) (plain : ∀ c ∈ core, IsPlain c) (hc : c ∈ cs) :
    isBlank c = false ∧ c ≠ '"' ∧ c ≠ 'L' ∧ c ≠ '\\' := by
  obtain ⟨opening, closing, rfl⟩ := h
  rcases List.mem_append.1 hc with hc | hc
  · rcases List.mem_append.1 hc with hc | hc
    · rw [List.eq_of_mem_replicate hc]
      exact ⟨rfl, by decide⟩
    · obtain ⟨hblank, -, -, hquote⟩ := plain c hc
      exact ⟨hblank, hquote⟩
  · rw [List.eq_of_mem_replicate hc]
    exact ⟨rfl, by decide⟩

theorem trimChars_of_spaced {inner : List Char} (h : Spaced inner cs)
    (head : ∀ c, inner.head? = some c → isBlank c = false)
    (last : ∀ c, inner.getLast? = some c → isBlank c = false) : trimChars cs = inner := by
  obtain ⟨before, after, rfl, hbefore, hafter⟩ := h
  exact Text.trimChars_append hbefore hafter head last

theorem core_of_spaced {inner : List Char} (braces : Braced core inner) (blanks : Spaced inner cs)
    (plain : ∀ c ∈ core, IsPlain c) : trimChars cs = inner ∧ withoutBraces (trimChars cs) = core := by
  have htrim : trimChars cs = inner := trimChars_of_spaced blanks
    (fun c hc => (braces.mem plain (List.mem_of_head? hc)).1)
    (fun c hc => (braces.mem plain (List.mem_of_getLast? hc)).1)
  exact ⟨htrim, htrim ▸ withoutBraces_of_braced braces plain⟩

theorem not_startsQuoted (hquote : '"' ∉ cs) (hmark : 'L' ∉ cs) : startsQuoted cs = false := by
  unfold startsQuoted
  split
  · exact absurd List.mem_cons_self hquote
  · exact absurd List.mem_cons_self hmark
  · rfl

theorem startsQuoted_quote {mark : String} (hmark : mark = "" ∨ mark = "L") (body : String) :
    startsQuoted (mark ++ Source.Literal.quote body).toList = true := by
  rw [Source.Literal.quote, String.toList_append, String.toList_append, String.toList_append]
  rcases hmark with rfl | rfl <;> rfl

/-- A literal has no blanks at its ends. -/
theorem trim_of_spaced_quote {mark body : String} (hmark : mark = "" ∨ mark = "L")
    (h : Spaced (mark ++ Source.Literal.quote body).toList text.toList) :
    trim text = mark ++ Source.Literal.quote body := by
  have htext : (mark ++ Source.Literal.quote body).toList =
      mark.toList ++ '"' :: body.toList ++ ['"'] := by
    simp [Source.Literal.quote]
  rw [trim, trimChars_of_spaced h, String.ofList_toList]
  · intro c hc
    rw [htext] at hc
    rcases hmark with rfl | rfl <;> cases hc <;> rfl
  · intro c hc
    rw [htext, List.getLast?_concat] at hc
    cases hc
    rfl

/-- A literal whose body says no more than its core. -/
theorem hasCore_of_literal {inner : List Char} {mark body : String} (braces : Braced core inner)
    (chars : ∀ c ∈ core, IsPlain c) (blanks : Spaced inner plain.toList)
    (mark_eq : mark = "" ∨ mark = "L")
    (decodes : Source.Literal.decode (mark ++ Source.Literal.quote body) = .ok plain)
    (outside : Spaced (mark ++ Source.Literal.quote body).toList text.toList) :
    HasCore text core := by
  refine ⟨plain, ?_, (core_of_spaced braces blanks chars).2.symm⟩
  rw [Unquoted, trim_of_spaced_quote mark_eq outside, if_pos (startsQuoted_quote mark_eq _)]
  exact decodes

/-- What stands in braces and between blanks stands for itself in a literal. -/
theorem decode_of_spaced {inner : List Char} {mark : String} (braces : Braced core inner)
    (chars : ∀ c ∈ core, IsPlain c) (blanks : Spaced inner plain.toList)
    (mark_eq : mark = "" ∨ mark = "L") :
    Source.Literal.decode (mark ++ Source.Literal.quote plain) = .ok plain := by
  have hplain : ∀ c ∈ plain.toList, c ≠ '"' ∧ c ≠ '\\' := by
    intro c hc
    have hblank (h : isBlank c = true) : c ≠ '"' ∧ c ≠ '\\' := by
      constructor
      all_goals
        rintro rfl
        cases h
    obtain ⟨before, after, heq, hbefore, hafter⟩ := blanks
    rw [heq] at hc
    rcases List.mem_append.1 hc with hc | hc
    · rcases List.mem_append.1 hc with hc | hc
      · exact hblank (hbefore c hc)
      · obtain ⟨-, hquote, -, hslash⟩ := braces.mem chars hc
        exact ⟨hquote, hslash⟩
    · exact hblank (hafter c hc)
  rcases mark_eq with rfl | rfl
  · exact Source.Literal.decode_quote_of_plain .narrow hplain
  · exact Source.Literal.decode_quote_of_plain .long hplain

theorem hasCore_of_wrapped (h : Wrapped core text) (plain : ∀ c ∈ core, IsPlain c) :
    HasCore text core := by
  cases h with
  | @bare inner _ braces blanks =>
    obtain ⟨htrim, hcore⟩ := core_of_spaced braces blanks plain
    have hquoted : startsQuoted (trim text).toList = false := by
      rw [trim, String.toList_ofList, htrim]
      exact not_startsQuoted (fun hmem => (braces.mem plain hmem).2.1 rfl)
        fun hmem => (braces.mem plain hmem).2.2.1 rfl
    refine ⟨trim text, by rw [Unquoted, hquoted]; rfl, ?_⟩
    have hself : trimChars (trim text).toList = inner := by
      rw [trim, String.toList_ofList, htrim]
      exact Text.trimChars_eq_self (fun c hc => (braces.mem plain (List.mem_of_head? hc)).1)
        (fun c hc => (braces.mem plain (List.mem_of_getLast? hc)).1)
    rw [hself, withoutBraces_of_braced braces plain]
  | quoted braces blanks mark_eq outside =>
    exact hasCore_of_literal braces plain blanks mark_eq
      (decode_of_spaced braces plain blanks mark_eq) outside
  | escaped braces blanks mark_eq decodes outside =>
    exact hasCore_of_literal braces plain blanks mark_eq decodes outside

/-! ## Identifiers -/

/-- **All notations of an identifier denote the same number**, in braces, in a literal and between
blanks or without any of them. -/
theorem parse_wrapped (h : Written n (IsNumeral 16 n) core) (wrapped : Wrapped core text) :
    parse text = .ok n := by
  have hcore : HasCore text core := hasCore_of_wrapped wrapped fun _ => h.isPlain
  have hloose : Written n (Loose 16 n) core :=
    h.imp fun _ _ => loose_of_isNumeral (by decide) (by decide)
  exact parse_eq_ok_iff.2 ⟨core, hcore, hloose⟩

/-- An identifier with dashes, in which zeros come first. -/
def dashedCore : List Char := "0012-aB-cd".toList

/-- It stands in braces and in a literal, with blanks on both sides of the quotes. -/
def dashedText : String := "\t L\"  \x7b0012-aB-cd\x7d \" \n"

theorem parse_wrapped_dashed :
    Written 0x12abcd (IsNumeral 16 0x12abcd) dashedCore ∧ Wrapped dashedCore dashedText ∧
      parse dashedText = .ok 0x12abcd := by
  have hwritten : Written 0x12abcd (IsNumeral 16 0x12abcd) dashedCore :=
    .dashed (by decide) ⟨2, by decide⟩
  let plain := "  \x7b0012-aB-cd\x7d "
  have braces : Braced dashedCore ('\x7b' :: dashedCore ++ ['\x7d']) := ⟨1, 1, rfl⟩
  have blanks : Spaced ('\x7b' :: dashedCore ++ ['\x7d']) plain.toList :=
    ⟨[' ', ' '], [' '], by decide +kernel, List.all_eq_true.1 rfl, List.all_eq_true.1 rfl⟩
  have outside : Spaced ("L" ++ Source.Literal.quote plain).toList dashedText.toList :=
    ⟨['\t', ' '], [' ', '\n'], by decide +kernel, List.all_eq_true.1 rfl, List.all_eq_true.1 rfl⟩
  have wrapped : Wrapped dashedCore dashedText := .quoted braces blanks (.inr rfl) outside
  exact ⟨hwritten, wrapped, parse_wrapped hwritten wrapped⟩

/-- **What is read as an identifier** is a notation of the number, with digits as they are read. It
is one with digits as they are written exactly where it has no plus and no underscore. -/
theorem parse_accepts (text : String) (n : Nat) :
    (parse text = .ok n ↔ ∃ core, HasCore text core ∧ Written n (Loose 16 n) core) ∧
      ∀ core, Written n (Loose 16 n) core →
        (Written n (IsNumeral 16 n) core ↔ '+' ∉ core ∧ '_' ∉ core) :=
  ⟨parse_eq_ok_iff, fun _ h => h.isNumeral_iff⟩

theorem core_of_bare {text : String} (hquoted : startsQuoted (trim text).toList = false)
    (h : HasCore text core) : core = withoutBraces (trimChars (trim text).toList) := by
  obtain ⟨plain, hplain, rfl⟩ := h
  rw [Unquoted, if_neg (by simp [hquoted])] at hplain
  rw [hplain]

/-- An underscore makes a decimal number a hexadecimal one. -/
theorem parse_accepts_underscore :
    parse "\x7b1_0\x7d" = .ok 16 ∧ ∃ core, HasCore "\x7b1_0\x7d" core ∧ '_' ∈ core ∧
      Written 16 (Loose 16 16) core ∧ ¬ Written 16 (IsNumeral 16 16) core := by
  have hparse : parse "\x7b1_0\x7d" = .ok 16 := by decide +kernel
  obtain ⟨accepts, isNumeral_iff⟩ := parse_accepts "\x7b1_0\x7d" 16
  obtain ⟨core, hcore, hloose⟩ := accepts.1 hparse
  have heq : core = ['1', '_', '0'] :=
    (core_of_bare (by decide +kernel) hcore).trans (by decide +kernel)
  have hscore : '_' ∈ core := by rw [heq]; decide
  exact ⟨hparse, core, hcore, hscore, hloose,
    fun hwritten => ((isNumeral_iff core hloose).1 hwritten).2 hscore⟩

/-- A plus is read as well, and so a text that is no notation of any number. -/
theorem exists_parse_plus :
    ¬ ∀ (text : String) (n : Nat), parse text = .ok n →
      ∃ core, HasCore text core ∧ Written n (IsNumeral 16 n) core := by
  intro all
  obtain ⟨core, hcore, hwritten⟩ := all "+10" 16 (by decide +kernel)
  have heq : core = ['+', '1', '0'] :=
    (core_of_bare (by decide +kernel) hcore).trans (by decide +kernel)
  have hplus : '+' ∈ core := by rw [heq]; decide
  rcases hwritten.exists_digit? hplus with h | h | h | ⟨d, hd⟩
  · exact absurd h (by decide)
  · exact absurd h (by decide)
  · exact absurd h (by decide)
  · cases hd

end EventSchema.ProviderId
