import EventSchema.Proofs.Source.Decomposition
import EventSchema.Proofs.Source.ReadBack

/-!
# Scanning texts one after the other

A text that is scanned to its end hands nothing over to the lines after it, unless it ends inside
of a block comment or a literal (`EndsInside`). So a scan of two texts with a newline between them
finds the clauses of the first and then those of the second, and fails where the second does, with
the lines counted from the start of the first (`scan_append_line`).

A newline ends a comment of one line and a directive, and it is no part of a marker. So what the
first text is made of stays the same in front of it (`clausesFrom_append_newline`), and the scan of
the second text starts like one of its own, but for the line (`clausesFrom_moved`).
-/

namespace EventSchema.Source

open Text.Utf8
open Text.Numeral (decimal)

variable {marker t u text rest : Bytes} {c : Context} {parts : List Part}

/-! ## Lines further down -/

/-- The line that a fault is about. -/
def ScanFault.line : ScanFault → Nat
  | .closeBeforeOpen line | .noGroup line | .unclosedGroup line => line

/-- The fault some lines further down. -/
def ScanFault.moved (k : Nat) : ScanFault → ScanFault
  | .closeBeforeOpen line => .closeBeforeOpen (line + k)
  | .noGroup line => .noGroup (line + k)
  | .unclosedGroup line => .unclosedGroup (line + k)

theorem ScanFault.moved_zero (fault : ScanFault) : fault.moved 0 = fault := by
  cases fault <;> rfl

theorem ScanFault.message_moved (fault : ScanFault) :
    ∃ before after, ∀ k, (fault.moved k).message = before ++ decimal (fault.line + k) ++ after := by
  cases fault with
  | closeBeforeOpen line => exact ⟨_, "", fun k => String.append_empty.symm⟩
  | noGroup line => exact ⟨_, _, fun k => rfl⟩
  | unclosedGroup line => exact ⟨_, _, fun k => rfl⟩

/-- In a message only the number of the line depends on where the text stands. -/
theorem message_scan_moved (fault : ScanFault) :
    ∃ before after, ∀ k, (Error.scan (fault.moved k)).message =
      before ++ decimal (fault.line + k) ++ after := by
  obtain ⟨before, after, h⟩ := fault.message_moved
  refine ⟨"invalid content: " ++ before, after, fun k => ?_⟩
  have hmessage : (Error.scan (fault.moved k)).message =
      "invalid content: " ++ (fault.moved k).message := rfl
  rw [hmessage, h k, ← String.append_assoc, ← String.append_assoc]

theorem mapError_map {ε ε' α β : Type} (x : Except ε α) (f : α → β) (g : ε → ε') :
    (x.map f).mapError g = (x.mapError g).map f := by
  cases x <;> rfl

theorem closeGroup_moved (k start line depth : Nat) (t : Bytes) :
    closeGroup (start + k) (line + k) depth t =
      (closeGroup start line depth t).mapError (ScanFault.moved k) := by
  fun_induction closeGroup start line depth t with
  | case1 line depth t s hs ih =>
    rw [closeGroup_of_skip hs, mapError_map, ← ih, Nat.add_right_comm]
  | case2 line depth hs =>
    rw [closeGroup_nil, Except.mapError]
    split <;> rfl
  | case3 line depth rest hs ih => rw [closeGroup_opening, mapError_map, ← ih]
  | case4 line rest hs => exact closeGroup_unopened
  | case5 line rest hs => exact closeGroup_last
  | case6 line rest n hs _ ih => rw [closeGroup_closing, mapError_map, ← ih]
  | case7 line depth b rest hs hl hr ih =>
    rw [closeGroup_other hs hl hr, mapError_map, ← ih, Nat.add_right_comm]

/-- **The clauses of a text do not depend on the line in which it begins**, and its fault moves
along with it. -/
theorem clausesFrom_moved (hmarker : marker ≠ []) (k line : Nat) (t : Bytes) :
    clausesFrom marker (line + k) t =
      (clausesFrom marker line t).map id (Option.map (ScanFault.moved k)) := by
  fun_induction clausesFrom marker line t with
  | case1 line t s hs ih => rw [clausesFrom_of_skip hs, ← ih, Nat.add_right_comm]
  | case2 line t hs body hbody start fault hfault =>
    have hstart : line + k + newlines marker = start + k := Nat.add_right_comm ..
    rw [clausesFrom_marker hs hbody hstart, closeGroup_moved, hfault]
    rfl
  | case3 line t hs body hbody start clause rest hclose more ih =>
    have hstart : line + k + newlines marker = start + k := Nat.add_right_comm ..
    rw [clausesFrom_marker hs hbody hstart, closeGroup_moved, hclose]
    change (clausesFrom marker (start + k + newlines clause) rest).map (clause :: ·) id = _
    rw [Nat.add_right_comm, ih]
    rfl
  | case4 line => exact clausesFrom_nil hmarker
  | case5 line b rest hs hother ih =>
    rw [clausesFrom_other hs hother, ← ih, Nat.add_right_comm]

/-! ## Texts that end inside of a context -/

/-- What follows the quote that opens a literal, where no quote closes it. -/
inductive OpenQuote : Bytes → Prop
  | nil : OpenQuote []
  /-- A backslash at the very end takes nothing along. -/
  | cut : OpenQuote [backslash]
  | escaped (b : UInt8) {text : Bytes} (h : OpenQuote text) : OpenQuote (backslash :: b :: text)
  | plain {b : UInt8} {text : Bytes} (hquote : b ≠ doubleQuote) (hslash : b ≠ backslash)
      (h : OpenQuote text) : OpenQuote (b :: text)

/-- A block comment without its end, also one that opens in a directive line, or a literal without
its closing quote. -/
inductive Unended : Bytes → Prop
  | comment {body : Bytes} (h : ¬ [star, slash] <:+: body) : Unended (slash :: star :: body)
  | directive {body comment : Bytes} (hline : newline ∉ body) (hblock : ¬ [slash, star] <:+: body)
      (h : ¬ [star, slash] <:+: comment) : Unended (hash :: (body ++ slash :: star :: comment))
  | literal {text : Bytes} (h : OpenQuote text) : Unended (doubleQuote :: text)

/-- The last part is a block comment or a literal without its end. -/
def LastUnended (parts : List Part) : Prop :=
  ∃ before kind text, parts = before ++ [.context kind text] ∧ Unended text

theorem LastUnended.cons (h : LastUnended parts) (p : Part) : LastUnended (p :: parts) := by
  obtain ⟨before, kind, text, rfl, htext⟩ := h
  exact ⟨p :: before, kind, text, rfl, htext⟩

/-- A text that ends inside of a block comment or a literal. -/
def EndsInside (marker t : Bytes) : Prop :=
  ∃ parts, Decomposes marker t parts .whole ∧ LastUnended parts

theorem QuoteTail.openQuote_or (h : QuoteTail text rest) :
    OpenQuote text ∨ ∀ u, QuoteTail text u := by
  induction h with
  | closing => exact .inr .closing
  | escaped b _ ih => exact ih.imp (.escaped b) fun h u => .escaped b (h u)
  | plain hquote hslash _ ih =>
    exact ih.imp (.plain hquote hslash) fun h u => .plain hquote hslash (h u)
  | unclosed => exact .inl .nil
  | cut => exact .inl .cut

/-- What has its end stays what it is when lines are added to the text. -/
theorem ContextAt.append_newline (h : ContextAt c text rest) (hended : rest = [] → ¬ Unended text)
    (u : Bytes) : ContextAt c text (rest ++ newline :: u) := by
  by_cases hrest : rest = []
  · subst hrest
    have hends := hended rfl
    rw [List.nil_append]
    cases h with
    | block hblock =>
      cases hblock with
      | closed hbody => exact .block (.closed hbody _)
      | unclosed hbody => exact absurd (.comment hbody) hends
    | line hline => exact .line hline (.inr rfl)
    | directive hline hblock => exact .directive hline hblock (.inr rfl)
    | directiveBlock hline hblock hcomment =>
      cases hcomment with
      | closed hbody => exact .directiveBlock hline hblock (.closed hbody _)
      | unclosed hbody => exact absurd (.directive hline hblock hbody) hends
    | literal htail =>
      rcases htail.openQuote_or with hopen | hclosed
      · exact absurd (.literal hopen) hends
      · exact .literal (hclosed _)
  · exact h.local hrest (head?_eq_of_append rfl hrest).symm

/-! ## In front of a newline -/

theorem not_opens_append_newline (h : ¬ Opens t) (u : Bytes) : ¬ Opens (t ++ newline :: u) := by
  cases t with
  | nil => exact skip?_eq_none_iff.1 rfl
  | cons b t =>
    rw [← skip?_eq_none_iff] at h ⊢
    by_cases ht : t = []
    · subst ht
      rw [skip?_eq_none_iff] at h ⊢
      rintro (hstar | hslash | hhash | hquote)
      · cases (pair_prefix_cons.1 hstar).2
      · cases (pair_prefix_cons.1 hslash).2
      · exact h (.inr (.inr (.inl (by simpa using hhash))))
      · exact h (.inr (.inr (.inr (by simpa using hquote))))
    · exact skip?_cons_none_local h (head?_eq_of_append rfl ht).symm

theorem not_prefix_append_newline (hline : newline ∉ marker) (h : ¬ marker <+: t) (u : Bytes) :
    ¬ marker <+: t ++ newline :: u := by
  intro hprefix
  have hjoin : t ++ [newline] <+: t ++ newline :: u := ⟨u, by simp⟩
  rcases List.prefix_or_prefix_of_prefix hprefix hjoin with hshort | hlong
  · rcases List.prefix_concat_iff.1 hshort with rfl | hshort
    · exact hline (by simp)
    · exact h hshort
  · exact hline (hlong.subset (by simp))

theorem afterMarker?_append_newline (hline : newline ∉ marker) (h : ¬ marker <+: t) (u : Bytes) :
    afterMarker? marker (t ++ newline :: u) = none :=
  if_neg fun hprefix => not_prefix_append_newline hline h u hprefix.2

theorem newlines_append (t u : Bytes) : newlines (t ++ u) = newlines t + newlines u :=
  List.count_append

/-- **What a text is made of stays the same in front of a newline**, and the scan goes on behind
that newline. -/
theorem clausesFrom_append_newline (hmarker : marker ≠ []) (hline : newline ∉ marker)
    (h : Decomposes marker t parts .whole) (hended : ¬ LastUnended parts) (line : Nat) (u : Bytes) :
    clausesFrom marker line (t ++ newline :: u) =
      (clausesFrom marker (line + newlines t + 1) u).map (clauseTexts parts ++ ·) id := by
  generalize hwhole : Ending.whole = ending at h
  -- Part by part, with the lines of the parts before counted in `line`.
  induction h generalizing line with
  | done =>
    have hnone : ¬ marker <+: [] := fun hprefix => hmarker (List.prefix_nil.1 hprefix)
    rw [List.nil_append, clausesFrom_other rfl (afterMarker?_append_newline hline hnone u)]
    rfl
  | @context c text rest t parts ending hc ht later ih =>
    -- The newline can only matter to a context that goes on to the end of the text.
    have hlast : rest = [] → ¬ Unended text := by
      rintro rfl
      obtain ⟨rfl, -⟩ := decomposes_unique hmarker later .done
      exact fun htext => hended ⟨[], c, text, rfl, htext⟩
    have hskip := skip?_of_contextAt (hc.append_newline hlast u)
    rw [← ht, List.append_assoc, clausesFrom_of_skip hskip,
      ih (fun h => hended (h.cons _)) _ hwhole, newlines_append, ← Nat.add_assoc]
    rfl
  | @clause text body rest t parts ending hnone ht hclause later ih =>
    have htext : marker ++ (text ++ rest) = t := by rw [hclause.append, ht]
    have hskip := skip?_eq_none_iff.2 (not_opens_append_newline hnone u)
    rw [← htext, List.append_assoc, List.append_assoc] at hskip ⊢
    rw [clausesFrom_clause hmarker hskip (closes_of_clauseAt hclause),
      ih (fun h => hended (h.cons _)) _ hwhole, newlines_append, newlines_append, ← Nat.add_assoc,
      ← Nat.add_assoc]
    rfl
  | broken => cases hwhole
  | @byte b rest parts ending hnone hother later ih =>
    have hskip := skip?_eq_none_iff.2 (not_opens_append_newline hnone u)
    rw [List.cons_append] at hskip ⊢
    have hcount : newlines (b :: rest) = newlines [b] + newlines rest := newlines_append [b] rest
    rw [clausesFrom_other hskip (afterMarker?_append_newline hline hother u),
      ih (fun h => hended (h.cons _)) _ hwhole, hcount, ← Nat.add_assoc]
    rfl

/-! ## Texts of characters -/

/-- A newline is never a part of another character. -/
theorem newlines_encode (s : String) : newlines (encode s) = s.toList.count '\n' := by
  have hnewline : String.utf8EncodeChar '\n' = [newline] := by decide
  rw [encode]
  induction s.toList with
  | nil => rfl
  | cons c cs ih =>
    rw [List.flatMap_cons, newlines_append, ih, List.count_cons, Nat.add_comm]
    congr 1
    by_cases hc : c = '\n'
    · subst hc
      rw [hnewline]
      rfl
    · have hnotMem : newline ∉ String.utf8EncodeChar c :=
        fun hmem => hc (eq_of_ascii_mem_encodeChar hnewline (by decide) hmem)
      simp [newlines, List.count_eq_zero_of_not_mem hnotMem, hc]

/-- **A scan of two texts with a newline between them** finds the clauses of the first text and then
those of the second. It fails where the scan of the second does and with the same message, but for
the number of the line. -/
theorem scan_append_line {marker first second : String} (hmarker : marker ≠ "")
    (hline : '\n' ∉ marker.toList) (hfirst : (scan marker first).2 = none)
    (hended : ¬ EndsInside (encode marker) (encode first)) :
    scan marker (first ++ "\n" ++ second) =
        ((scan marker first).1 ++ (scan marker second).1,
          (scan marker second).2.map (ScanFault.moved (first.toList.count '\n' + 1))) ∧
      ∀ fault, (scan marker second).2 = some fault → ∃ before after,
        (Error.scan fault).message = before ++ decimal fault.line ++ after ∧
          (Error.scan (fault.moved (first.toList.count '\n' + 1))).message =
            before ++ decimal (fault.line + (first.toList.count '\n' + 1)) ++ after := by
  have hne : encode marker ≠ [] := encode_ne_nil hmarker
  have hnewline : newline ∉ encode marker := by
    rw [← List.count_eq_zero, ← newlines, newlines_encode, List.count_eq_zero]
    exact hline
  obtain ⟨parts, ending, hparts, htexts, hend⟩ := exists_decomposes hne 1 (encode first)
  have hwhole : ending = .whole := by
    cases ending with
    | whole => rfl
    | broken =>
      have hfault : (scan marker first).2.isSome = true := hend.2 rfl
      rw [hfirst] at hfault
      cases hfault
  subst hwhole
  have hlast : ¬ LastUnended parts := fun hlast => hended ⟨parts, hparts, hlast⟩
  have hencode : encode (first ++ "\n" ++ second) = encode first ++ newline :: encode second := by
    have hbreak : encode "\n" = [newline] := by decide
    rw [encode_append, encode_append, hbreak, List.append_assoc, List.singleton_append]
  constructor
  · rw [scan, hencode, clausesFrom_append_newline hne hnewline hparts hlast, Nat.add_assoc,
      clausesFrom_moved hne, htexts, newlines_encode]
    simp [scan]
  · intro fault _
    obtain ⟨before, after, h⟩ := message_scan_moved fault
    have hhere := h 0
    rw [fault.moved_zero, Nat.add_zero] at hhere
    exact ⟨before, after, hhere, h _⟩

/-- A clause, and a comment that ends with a quote and the marker. -/
def commentedText : String := "M_A(x)\n// \" M_"

theorem not_endsInside_commentedText : ¬ EndsInside (encode "M_") (encode commentedText) := by
  have hgroup : closeGroup 1 1 0 (encode "A(x)\n// \" M_") =
      .ok (encode "A(x)", encode "\n// \" M_") := by decide +kernel
  have hcomment : skip? (encode "// \" M_") = some ⟨.comment, encode "// \" M_", []⟩ := by
    decide +kernel
  have hparts : Decomposes (encode "M_") (encode commentedText)
      [.clause (encode "A(x)"), .byte newline, .context .comment (encode "// \" M_")] .whole := by
    refine .clause (skip?_eq_none_iff.1 rfl) rfl (clauseAt_of_closeGroup hgroup) ?_
    refine .byte (skip?_eq_none_iff.1 rfl) (by decide) ?_
    exact .context (contextAt_of_skip hcomment) rfl .done
  rintro ⟨parts, hparts', before, kind, text, hlast, hunended⟩
  obtain ⟨rfl, -⟩ := decomposes_unique (by decide) hparts hparts'
  change [Part.clause (encode "A(x)"), .byte newline] ++ [.context .comment (encode "// \" M_")] =
    before ++ [.context kind text] at hlast
  obtain ⟨-, htext⟩ := List.append_inj' hlast rfl
  cases htext
  cases hunended

/-- Neither the comment nor the marker goes on in the next line, and the lines are counted on. -/
theorem scan_append_line_commented :
    scan "M_" commentedText = (["A(x)"], none) ∧
      scan "M_" "M_C(y)\nM_D)" = (["C(y)"], some (.closeBeforeOpen 2)) ∧
      scan "M_" (commentedText ++ "\n" ++ "M_C(y)\nM_D)") =
        (["A(x)", "C(y)"], some (.closeBeforeOpen 4)) := by
  have hfirst : scan "M_" commentedText = (["A(x)"], none) := by decide +kernel
  have hsecond : scan "M_" "M_C(y)\nM_D)" = (["C(y)"], some (.closeBeforeOpen 2)) := by
    decide +kernel
  have hscan := (@scan_append_line "M_" commentedText "M_C(y)\nM_D)" (by decide) (by decide)
    (congrArg Prod.snd hfirst) not_endsInside_commentedText).1
  rw [hfirst, hsecond] at hscan
  exact ⟨hfirst, hsecond, hscan⟩

end EventSchema.Source
