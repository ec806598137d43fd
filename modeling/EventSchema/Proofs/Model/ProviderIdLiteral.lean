import EventSchema.Proofs.Model.ProviderIdForm

/-!
# Identifiers in literals

A literal has one of three marks. With two of them it is read as the identifier that it decodes to,
unless that text looks like a literal itself. With the third it is no identifier at all, whatever it
decodes to (`parse_of_literal`): identifiers are tested for quotes by a test of their own, which
finds no other literals than the one for all other arguments (`isLiteral_of_startsQuoted`), but not
those with the mark `u` (`startsQuoted_unicode`).
-/

namespace EventSchema.ProviderId

open Source.Literal (Mark decode isLiteral quote)
open Text (trim trimChars isBlank)
open Text.Numeral (digit?)

variable {n : Nat} {wide : Bool} {mark body w plain : String} {cs : List Char}

/-! ## Trimming -/

theorem trimChars_trim (s : String) : trimChars (trim s).toList = trimChars s.toList := by
  rw [trim, String.toList_ofList]
  exact Text.trimChars_eq_self (fun _ => Text.trimChars_head?) fun _ => Text.trimChars_getLast?

theorem toList_literal (mark body : String) :
    (mark ++ quote body).toList = mark.toList ++ '"' :: body.toList ++ ['"'] := by
  simp [quote]

/-- A literal starts with its mark or a quote, and ends with a quote. -/
theorem ends_of_literal (h : Mark mark wide) (body : String) :
    ((mark ++ quote body).toList.head? = some '"' ∨ (mark ++ quote body).toList.head? = some 'L' ∨
      (mark ++ quote body).toList.head? = some 'u') ∧
    (mark ++ quote body).toList.getLast? = some '"' := by
  rw [toList_literal]
  refine ⟨?_, List.getLast?_concat⟩
  cases h with
  | narrow => exact .inl rfl
  | long => exact .inr (.inl rfl)
  | unicode => exact .inr (.inr rfl)

theorem trimChars_literal (h : Mark mark wide) (body : String) :
    trimChars (mark ++ quote body).toList = (mark ++ quote body).toList := by
  obtain ⟨hhead, hlast⟩ := ends_of_literal h body
  refine Text.trimChars_eq_self (fun c hc => ?_) fun c hc => ?_
  · rw [hc] at hhead
    rcases hhead with h | h | h
    all_goals
      cases h
      rfl
  · rw [hc] at hlast
    cases hlast
    rfl

theorem trim_literal (h : Mark mark wide) (body : String) :
    trim (mark ++ quote body) = mark ++ quote body := by
  rw [trim, trimChars_literal h, String.ofList_toList]

/-! ## Two tests for literals -/

/-- What the test of identifiers takes for a literal is one. -/
theorem isLiteral_of_startsQuoted {s : String} (h : startsQuoted s.toList = true) :
    isLiteral s = true := by
  have hquote : String.utf8EncodeChar '"' = [0x22] := by decide
  have hlong : String.utf8EncodeChar 'L' = [0x4C] := by decide
  unfold startsQuoted at h
  split at h
  · next rest hs =>
    rw [isLiteral, Text.Utf8.encode, hs, List.flatMap_cons, hquote]
    rfl
  · next rest hs =>
    rw [isLiteral, Text.Utf8.encode, hs, List.flatMap_cons, List.flatMap_cons, hquote, hlong]
    rfl
  · cases h

/-- The other way round a mark is missing. -/
theorem startsQuoted_unicode (body : String) :
    startsQuoted ("u" ++ quote body).toList = false := by
  rw [toList_literal]
  rfl

/-! ## Quotes are no digits -/

theorem Written.quote_notMem (h : Written n (Loose 16 n) cs) : '"' ∉ cs := by
  have hloose {ds : List Char} (hds : Loose 16 n ds) : '"' ∉ ds :=
    hds.notMem (by decide) (by decide) rfl (by decide) (by decide)
  cases h with
  | decimal h => exact h.notMem (by decide) (by decide) rfl
  | marked mark h =>
    rintro (_ | ⟨_, _ | ⟨_, hmem⟩⟩)
    · rcases mark with h | h <;> cases h
    · exact hloose h hmem
  | dashed dash h => exact fun hmem => hloose h (List.mem_filter.2 ⟨hmem, rfl⟩)
  | lettered letter h => exact hloose h

theorem bare?_of_quote_mem (h : '"' ∈ cs) : bare? cs = none := by
  cases hread : bare? cs with
  | none => rfl
  | some n => exact absurd h (bare?_eq_some_iff.1 hread).quote_notMem

theorem withoutBraces_literal (h : Mark mark wide) (body : String) :
    withoutBraces (mark ++ quote body).toList = (mark ++ quote body).toList := by
  obtain ⟨hhead, hlast⟩ := ends_of_literal h body
  have hopening : (mark ++ quote body).toList.dropWhile (· == '{') =
      (mark ++ quote body).toList := by
    obtain ⟨c, rest, hcs⟩ : ∃ c rest, (mark ++ quote body).toList = c :: rest :=
      List.exists_cons_of_ne_nil (by rintro hnil; rw [hnil] at hlast; cases hlast)
    rw [hcs] at hhead ⊢
    refine List.dropWhile_cons_of_neg ?_
    rcases hhead with h | h | h
    all_goals
      cases h
      decide
  rw [withoutBraces, hopening]
  refine Text.dropEndWhile_eq_self _ _ fun c hc => ?_
  rw [hc] at hlast
  cases hlast
  rfl

/-! ## Identifiers -/

/-- With a mark that is recognized, a literal is read as what it decodes to. -/
theorem parse_of_unquoted_literal (hmark : mark = "" ∨ mark = "L")
    (hdecode : decode (mark ++ quote body) = .ok plain)
    (hplain : isLiteral (trim plain) = false) :
    parse (mark ++ quote body) = .ok n ↔ parse plain = .ok n := by
  have hliteral : Unquoted (mark ++ quote body) plain := by
    have htrim : trim (mark ++ quote body) = mark ++ quote body := by
      rcases hmark with rfl | rfl
      · exact trim_literal .narrow body
      · exact trim_literal .long body
    rw [Unquoted, htrim, if_pos (startsQuoted_quote hmark body), hdecode]
  have hbare : Unquoted plain (trim plain) := by
    rw [Unquoted, if_neg fun h => ?_]
    rw [isLiteral_of_startsQuoted h] at hplain
    cases hplain
  rw [parse_of_unquoted hliteral, parse_of_unquoted hbare, trimChars_trim]
  cases bare? (withoutBraces (trimChars plain.toList)) <;> simp

/-- With the other mark, its quotes are taken for digits, and it is refused for them. -/
theorem parse_unicode (body : String) :
    parse ("u" ++ quote body) = .error (.providerId ("u" ++ quote body)) := by
  have hunquoted : Unquoted ("u" ++ quote body) ("u" ++ quote body) := by
    rw [Unquoted, trim_literal .unicode, startsQuoted_unicode]
    rfl
  have hquote : '"' ∈ ("u" ++ quote body).toList := by
    rw [toList_literal]
    exact .tail _ (.head _)
  rw [parse_of_unquoted hunquoted, trimChars_literal .unicode, withoutBraces_literal .unicode,
    bare?_of_quote_mem hquote]

/-- **Identifiers in literals.** A literal that decodes to a text, which does not look like one
itself, is read as that text is, unless it has the mark `u`. Then it is refused. -/
theorem parse_of_literal (hdecode : decode w = .ok plain) (hplain : isLiteral (trim plain) = false) :
    (w.toList.head? ≠ some 'u' → ∀ n, parse w = .ok n ↔ parse plain = .ok n) ∧
      (w.toList.head? = some 'u' → parse w = .error (.providerId w)) := by
  rcases Source.Literal.exists_quote w with ⟨mark, wide, body, hmark, rfl⟩ | hunquoted
  · cases hmark with
    | narrow =>
      refine ⟨fun _ _ => parse_of_unquoted_literal (.inl rfl) hdecode hplain, fun hhead => ?_⟩
      rw [toList_literal] at hhead
      cases hhead
    | long =>
      refine ⟨fun _ _ => parse_of_unquoted_literal (.inr rfl) hdecode hplain, fun hhead => ?_⟩
      rw [toList_literal] at hhead
      cases hhead
    | unicode =>
      refine ⟨fun hhead => absurd ?_ hhead, fun _ => parse_unicode body⟩
      rw [toList_literal]
      rfl
  · rw [Source.Literal.decode_eq_ok, hunquoted] at hdecode
    cases hdecode

/-- A hexadecimal identifier in a wide literal, in which escapes stand for a blank and a digit. -/
def escapedText : String := "L\"\\x20\x7b0x4\\x32\x7d\""

theorem parse_of_literal_escaped :
    decode escapedText = .ok " \x7b0x42\x7d" ∧ isLiteral (trim " \x7b0x42\x7d") = false ∧
      parse " \x7b0x42\x7d" = .ok 0x42 ∧ parse escapedText = .ok 0x42 := by
  have hdecode : decode escapedText = .ok " \x7b0x42\x7d" := by decide +kernel
  have hplain : isLiteral (trim " \x7b0x42\x7d") = false := by decide +kernel
  have hparse : parse " \x7b0x42\x7d" = .ok 0x42 := by decide +kernel
  exact ⟨hdecode, hplain, hparse,
    ((parse_of_literal hdecode hplain).1 (by decide +kernel) 0x42).2 hparse⟩

/-- Of the three literals for an identifier, one is none. -/
theorem exists_literal_refused :
    ¬ ∀ w plain : String, isLiteral w = true → decode w = .ok plain →
      isLiteral (trim plain) = false → ∀ n, parse w = .ok n ↔ parse plain = .ok n := by
  intro all
  have hsame := all "u\"42\"" "42" (by decide +kernel) (by decide +kernel) (by decide +kernel) 42
  have hparse : parse "u\"42\"" = .ok 42 := hsame.2 (by decide +kernel)
  have hrefused : parse "u\"42\"" = .error (.providerId "u\"42\"") := parse_unicode "42"
  rw [hrefused] at hparse
  cases hparse

end EventSchema.ProviderId
