import EventSchema.Json.Reader
import Mathlib.Data.List.Chain

/-!
# The texts of JSON tokens

A text shows some tokens (`Shows`) if it holds their characters in order, with blanks between them
as one likes. Tokens are read from any text that shows them (`tokens?_of_shows`). Only a number
needs something behind it that ends it; where the next token always does that (`Adjacent`), the
tokens need no blanks, and both the shortest text and the indented one show them.
-/

namespace EventSchema.Json

/-! ## Strings -/

theorem units?_plain {c : Char} (hquote : c ≠ '"') (hslash : c ≠ '\\') (hcontrol : ¬ c.toNat < 0x20)
    (t : List Char) : units? (c :: t) = (units? t).map fun r => (c.toNat :: r.1, r.2) := by
  rw [units?, if_neg hquote, if_neg hslash, if_neg hcontrol]

theorem units?_escape {n : Nat} {e t : List Char} (h : escape? (e ++ t) = some (n, t)) :
    units? ('\\' :: e ++ t) = (units? t).map fun r => (n :: r.1, r.2) := by
  rw [List.cons_append, units?, if_neg (by decide), if_pos rfl]
  split
  · next hnone =>
    rw [h] at hnone
    cases hnone
  · next hsome =>
    rw [h] at hsome
    cases hsome
    rfl

/-- A code unit is read from its four digits. -/
theorem escape?_paddedHex {n : Nat} (h : n < 0x20) (t : List Char) :
    escape? ('u' :: (Text.Numeral.paddedHex 4 n).toList ++ t) = some (n, t) := by
  have hlength : (Text.Numeral.paddedHex 4 n).toList.length = 4 :=
    Text.Numeral.length_paddedHex
      ((Nat.length_toDigits_le_iff (by decide) (by decide)).2 (Nat.lt_trans h (by decide)))
  have hread := Text.Numeral.read?_paddedHex 4 n
  match hdigits : (Text.Numeral.paddedHex 4 n).toList, hlength with
  | [a, b, c, d], _ =>
    rw [hdigits] at hread
    exact congrArg (Option.map (·, t)) hread

/-- A character is read from what it is written as. -/
theorem units?_escaped_append (c : Char) (t : List Char) :
    units? (escaped c ++ t) = (units? t).map fun r => (c.toNat :: r.1, r.2) := by
  rw [escaped.eq_def]
  split
  · exact units?_escape (e := ['"']) rfl
  · exact units?_escape (e := ['\\']) rfl
  · exact units?_escape (e := ['b']) rfl
  · exact units?_escape (e := ['f']) rfl
  · exact units?_escape (e := ['n']) rfl
  · exact units?_escape (e := ['r']) rfl
  · exact units?_escape (e := ['t']) rfl
  · next hquote hslash _ _ _ _ _ =>
    split
    · next hcontrol => exact units?_escape (escape?_paddedHex hcontrol t)
    · next hcontrol => exact units?_plain hquote hslash hcontrol t

theorem units?_text (cs t : List Char) :
    units? (cs.flatMap escaped ++ '"' :: t) = some (cs.map Char.toNat, t) := by
  induction cs with
  | nil => rw [List.flatMap_nil, List.nil_append, units?, if_pos rfl, List.map_nil]
  | cons c cs ih =>
    rw [List.flatMap_cons, List.append_assoc, units?_escaped_append, ih]
    rfl

/-- No character is half of a surrogate pair. -/
theorem chars?_toNat (cs : List Char) : chars? (cs.map Char.toNat) = some cs := by
  have whole : ∀ c : Char, isHigh c.toNat = false ∧ isLow c.toNat = false := by
    intro c
    have hvalid : c.toNat < 0xD800 ∨ (0xDFFF < c.toNat ∧ c.toNat < 0x110000) := c.valid
    rw [isHigh, isLow, decide_eq_false_iff_not, decide_eq_false_iff_not]
    omega
  induction cs with
  | nil => rfl
  | cons c cs ih =>
    cases cs with
    | nil => simp [chars?, whole c]
    | cons d ds =>
      rw [List.map_cons] at ih
      rw [List.map_cons, List.map_cons, chars?, ih]
      simp [whole c]

/-! ## Numbers -/

/-- A character that goes on with a number. -/
def continuesNumber (c : Char) : Bool := c.isDigit || c == '.' || c == 'e' || c == 'E'

theorem exists_toDigits_eq (n : Nat) :
    ∃ d ds, Nat.toDigits 10 n = d :: ds ∧ d.isDigit = true := by
  obtain ⟨d, ds, hdigits⟩ := List.exists_cons_of_ne_nil (Nat.toDigits_ne_nil (n := n) (b := 10))
  refine ⟨d, ds, hdigits, ?_⟩
  exact Nat.isDigit_of_mem_toDigits (n := n) (b := 10) (by decide) (by decide)
    (hdigits ▸ List.mem_cons_self)

/-- Only zero starts with the digit zero. -/
theorem head?_toDigits {n : Nat} (h : n ≠ 0) : (Nat.toDigits 10 n).head? ≠ some '0' := by
  induction n using Nat.strongRecOn with
  | ind n ih =>
    rw [Nat.toDigits_eq_if (by decide)]
    split
    · next hsmall =>
      have hall : ∀ m < 10, m ≠ 0 → [Nat.digitChar m].head? ≠ some '0' := by decide
      exact hall n hsmall h
    · have hhead := ih (n / 10) (by omega) (by omega)
      obtain ⟨d, ds, hdigits, -⟩ := exists_toDigits_eq (n / 10)
      rw [hdigits] at hhead ⊢
      exact hhead

theorem digits_append {ds t : List Char} (hds : ∀ d ∈ ds, d.isDigit = true)
    (ht : ∀ c, t.head? = some c → c.isDigit = false) : digits (ds ++ t) = (ds, t) := by
  rw [digits, List.takeWhile_append_of_pos hds, List.dropWhile_append_of_pos hds]
  cases t with
  | nil => simp
  | cons c t => simp [ht c rfl]

theorem wholePart_toDigits (n : Nat) {t : List Char}
    (h : ∀ c, t.head? = some c → c.isDigit = false) :
    wholePart (Nat.toDigits 10 n ++ t) = (Nat.toDigits 10 n, t) := by
  have hdigits : digits (Nat.toDigits 10 n ++ t) = (Nat.toDigits 10 n, t) :=
    digits_append (fun d hd => Nat.isDigit_of_mem_toDigits (by decide) (by decide) hd) h
  by_cases hn : n = 0
  · subst hn
    rfl
  · have hhead : (Nat.toDigits 10 n ++ t).head? ≠ some '0' := by
      rw [List.head?_append_of_ne_nil _ Nat.toDigits_ne_nil]
      exact head?_toDigits hn
    rw [wholePart.eq_def]
    split
    · next hzero => exact absurd (congrArg List.head? hzero) hhead
    · exact hdigits

theorem afterFraction?_eq_self {t : List Char}
    (h : ∀ c, t.head? = some c → continuesNumber c = false) : afterFraction? t = some t := by
  rw [afterFraction?.eq_def]
  split
  · exact absurd (h '.' rfl) (by decide)
  · rfl

theorem afterExponent?_eq_self {t : List Char}
    (h : ∀ c, t.head? = some c → continuesNumber c = false) : afterExponent? t = some t := by
  rw [afterExponent?.eq_def]
  split
  · rfl
  · next c rest =>
    rw [if_neg]
    rintro (rfl | rfl)
    · exact absurd (h 'e' rfl) (by decide)
    · exact absurd (h 'E' rfl) (by decide)

/-- A number is read from its digits if no more of one follows. -/
theorem unsigned?_toDigits (n : Nat) {t : List Char}
    (h : ∀ c, t.head? = some c → continuesNumber c = false) :
    unsigned? (Nat.toDigits 10 n ++ t) = some (some n, t) := by
  have hdigit : ∀ c, t.head? = some c → c.isDigit = false := by
    intro c hc
    have hcontinues := h c hc
    simp only [continuesNumber, Bool.or_eq_false_iff] at hcontinues
    exact hcontinues.1.1.1
  have hvalue : Text.Numeral.read? 10 ((Nat.toDigits 10 n).map Char.toNat) = some n := by
    have hread := Text.Numeral.read?_decimal n
    rwa [Text.Numeral.decimal, String.toList_ofList] at hread
  have hnonempty : ¬ (Nat.toDigits 10 n).isEmpty = true := by
    rw [List.isEmpty_iff]
    exact Nat.toDigits_ne_nil
  simp only [unsigned?, wholePart_toDigits n hdigit, if_neg hnonempty, afterFraction?_eq_self h,
    Option.bind_some, afterExponent?_eq_self h, Option.map_some, if_true, hvalue]

/-! ## Tokens -/

theorem token?_of_isDigit {c : Char} (h : c.isDigit = true) (t : List Char) :
    token? (c :: t) = (unsigned? (c :: t)).map fun r => (.number r.1, r.2) := by
  rw [token?.eq_def]
  split
  case h_12 => rfl
  all_goals
    next heq =>
    cases heq
    exact absurd h (by decide)

/-- Tokens that are written as what they are. -/
def Token.Written : Token → Prop
  | .number none | .string none => False
  | _ => True

/-- Whether what follows a token is no part of it. -/
def Token.EndsBefore (k : Token) (t : List Char) : Prop :=
  ∀ n, k = .number n → ∀ c, t.head? = some c → continuesNumber c = false

/-- **A token is read from its characters.** -/
theorem token?_text {k : Token} (written : k.Written) {t : List Char} (ends : k.EndsBefore t) :
    token? (k.text ++ t) = some (k, t) := by
  cases k with
  | number n? =>
    cases n? with
    | none => cases written
    | some n =>
      have hread := unsigned?_toDigits n (ends _ rfl)
      obtain ⟨d, ds, hdigits, hd⟩ := exists_toDigits_eq n
      rw [Token.text, hdigits, List.cons_append]
      rw [hdigits, List.cons_append] at hread
      rw [token?_of_isDigit hd, hread]
      rfl
  | string s? =>
    cases s? with
    | none => cases written
    | some s =>
      change token? ('"' :: (s.toList.flatMap escaped ++ ['"']) ++ t) = _
      rw [List.cons_append, List.append_assoc, List.singleton_append]
      simp only [token?, units?_text, Option.map_some, chars?_toNat, String.ofList_toList]
  | bool b => cases b <;> rfl
  | _ => rfl

/-- No token starts with a blank. -/
theorem exists_text_eq (k : Token) : ∃ c t, k.text = c :: t ∧ isBlank c = false := by
  cases k with
  | number n? =>
    cases n? with
    | none => exact ⟨_, _, rfl, by decide⟩
    | some n =>
      obtain ⟨d, ds, hdigits, hd⟩ := exists_toDigits_eq n
      refine ⟨d, ds, hdigits, ?_⟩
      rw [isBlank, Bool.eq_false_iff]
      intro hblank
      simp only [Bool.or_eq_true, beq_iff_eq] at hblank
      rcases hblank with ((rfl | rfl) | rfl) | rfl
      all_goals exact absurd hd (by decide)
  | string s? => cases s? <;> exact ⟨_, _, rfl, by decide⟩
  | bool b => cases b <;> exact ⟨_, _, rfl, by decide⟩
  | _ => exact ⟨_, _, rfl, by decide⟩

/-! ## Texts -/

/-- Texts that hold some tokens, with blanks between them. -/
inductive Shows : List Token → List Char → Prop
  | nil : Shows [] []
  | blank {ks : List Token} {c : Char} {t : List Char} (blank : isBlank c = true)
      (rest : Shows ks t) : Shows ks (c :: t)
  | token {k : Token} {ks : List Token} {t : List Char} (written : k.Written)
      (ends : k.EndsBefore t) (rest : Shows ks t) : Shows (k :: ks) (k.text ++ t)

/-- **The tokens of a text** are those that it shows. -/
theorem tokens?_of_shows {ks : List Token} {t : List Char} (h : Shows ks t) :
    tokens? t = some ks := by
  induction h with
  | nil => rw [tokens?]
  | blank blank _ ih => rw [tokens?, if_pos blank, ih]
  | @token k ks t written ends _ ih =>
    have hread := token?_text written ends
    obtain ⟨c, u, htext, hc⟩ := exists_text_eq k
    rw [htext, List.cons_append] at hread ⊢
    rw [tokens?, hc, if_neg Bool.false_ne_true]
    split
    · next hnone =>
      rw [hread] at hnone
      cases hnone
    · next hsome =>
      rw [hread] at hsome
      cases hsome
      rw [ih]
      rfl

/-! ## Tokens without blanks between them -/

/-- Whether the second token ends the first. -/
def Token.EndsWith (k l : Token) : Prop :=
  ∀ n, k = .number n → l = .comma ∨ l = .closeBracket ∨ l = .closeBrace

/-- Tokens that can be written one right behind the other. -/
structure Adjacent (ks : List Token) : Prop where
  written : ∀ k ∈ ks, k.Written
  ends : ks.IsChain Token.EndsWith

theorem endsBefore_of_endsWith {k l : Token} (h : k.EndsWith l) (t : List Char) :
    k.EndsBefore (l.text ++ t) := by
  intro n hk c hc
  rcases h n hk with rfl | rfl | rfl
  all_goals
    cases hc
    decide

theorem Token.endsBefore_of_ne_number {k : Token} (h : ∀ n, k ≠ .number n) (t : List Char) :
    k.EndsBefore t :=
  fun n hk => absurd hk (h n)

namespace Adjacent

variable {k : Token} {ks ls : List Token}

theorem nil : Adjacent [] := ⟨nofun, .nil⟩

theorem singleton (written : k.Written) : Adjacent [k] :=
  ⟨List.forall_mem_singleton.2 written, .singleton k⟩

theorem tail (h : Adjacent (k :: ks)) : Adjacent ks :=
  ⟨fun l hl => h.written l (.tail _ hl), h.ends.tail⟩

/-- Whatever ends a number may follow other tokens. -/
theorem append (h : Adjacent ks) (h' : Adjacent (k :: ls))
    (ends : k = .comma ∨ k = .closeBracket ∨ k = .closeBrace) : Adjacent (ks ++ k :: ls) where
  written := List.forall_mem_append.2 ⟨h.written, h'.written⟩
  ends := by
    refine List.isChain_append.2 ⟨h.ends, h'.ends, fun x _ y hy n _ => ?_⟩
    cases hy
    exact ends

/-- Anything may follow a token other than a number. -/
theorem cons (h : Adjacent ks) (written : k.Written) (number : ∀ n, k ≠ .number n) :
    Adjacent (k :: ks) where
  written := List.forall_mem_cons.2 ⟨written, h.written⟩
  ends := List.isChain_cons.2 ⟨fun _ _ n hn => absurd hn (number n), h.ends⟩

end Adjacent

/-- The shortest text of some tokens. -/
theorem shows_flatMap {ks : List Token} (h : Adjacent ks) : Shows ks (ks.flatMap Token.text) := by
  induction ks with
  | nil => exact .nil
  | cons k ks ih =>
    rw [List.flatMap_cons]
    refine .token (h.written k List.mem_cons_self) ?_ (ih h.tail)
    cases ks with
    | nil => exact fun _ _ _ hc => nomatch hc
    | cons l ls => exact endsBefore_of_endsWith ((List.isChain_cons.1 h.ends).1 l rfl) _

theorem shows_lineStart {ks : List Token} (depth : Nat) {t : List Char} (h : Shows ks t) :
    Shows ks (lineStart depth ++ t) := by
  have hspaces : ∀ n, Shows ks (List.replicate n ' ' ++ t) := by
    intro n
    induction n with
    | zero => exact h
    | succ n ih => exact .blank (by decide) ih
  exact .blank (by decide) (hspaces (2 * depth))

theorem endsBefore_layOut {k l : Token} (h : k.EndsWith l) (depth : Nat) (ks : List Token) :
    k.EndsBefore (layOut depth (l :: ks)) := by
  intro n hk c hc
  rcases h n hk with rfl | rfl | rfl
  all_goals
    simp only [layOut] at hc
    cases hc
    decide

/-- The indented text of some tokens. -/
theorem shows_layOut {ks : List Token} (depth : Nat) (h : Adjacent ks) :
    Shows ks (layOut depth ks) := by
  have alone : ∀ {k : Token} {ls : List Token} {t : List Char}, k.Written → (∀ n, k ≠ .number n) →
      Shows ls t → Shows (k :: ls) (k.text ++ t) :=
    fun hk hn h => .token hk (Token.endsBefore_of_ne_number hn _) h
  fun_induction layOut depth ks with
  | case1 => exact .nil
  | case2 depth rest ih | case3 depth rest ih =>
    exact alone trivial nofun (alone trivial nofun (ih h.tail.tail))
  | case4 depth rest _ _ ih | case5 depth rest _ _ ih =>
    rw [List.append_assoc]
    exact alone trivial nofun (shows_lineStart _ (ih h.tail))
  | case6 depth rest _ _ ih | case7 depth rest _ _ ih =>
    rw [List.append_assoc]
    exact shows_lineStart _ (alone trivial nofun (ih h.tail))
  | case8 depth rest _ _ ih => exact alone trivial nofun (shows_lineStart _ (ih h.tail))
  | case9 depth rest _ _ ih => exact alone trivial nofun (.blank (by decide) (ih h.tail))
  | case10 depth k rest _ _ _ _ _ _ _ _ ih =>
    -- Only here the token may be a number, and the next one stands right behind it.
    refine .token (h.written k List.mem_cons_self) ?_ (ih h.tail)
    cases rest with
    | nil => exact fun _ _ _ hc => nomatch hc
    | cons l ls => exact endsBefore_layOut ((List.isChain_cons.1 h.ends).1 l rfl) _ _

end EventSchema.Json
