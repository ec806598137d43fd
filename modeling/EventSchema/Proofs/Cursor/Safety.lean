import EventSchema.Proofs.Cursor.Clause
import EventSchema.Proofs.Cursor.Literal
import EventSchema.Proofs.Cursor.Scan
import EventSchema.Proofs.Source.ContextForm

/-!
# Readers by position are safe

The scan of a source text, the reader of clauses and the decoder of literals never panic, whatever
text they are given, and give what they are to give (`readers_never_panic`).

A context that is closed is skipped alike wherever its bytes stand, and every loop gets further
with each turn and ends (`skip_local_and_loops_end`).
-/

namespace EventSchema.Source.Cursor

open Literal (SkippedBody)
open Text.Utf8 (encode wellFormed_encode)

variable {c : Context} {t t' text rest ahead : Bytes} {i e q : Nat}

/-! ## No panics -/

/-- **No reader panics.** A search for a clause may start at every position, also inside of a
character. All loops come to an end. -/
theorem readers_never_panic (marker text : String) :
    (∀ i, ∃ r, nextClause (encode marker) (encode text) i = .ok r) ∧
      scan marker text = .ok (Source.scan marker text) ∧
      parse text = .ok (Clause.parse text) ∧
      decodeLiteral text = .ok (Literal.decode text) :=
  ⟨exists_nextClause (wellFormed_encode marker) (wellFormed_encode text), scan_eq marker text,
    parse_eq text, decodeLiteral_eq text⟩

/-! ## Contexts that are closed -/

/-- How the text of a context is closed, with what has to follow it for that: a comment and a
directive by the end of a block comment, a literal by a quote that is not escaped, and what goes on
to the end of a line by the newline behind it. -/
inductive ClosedBy : Context → Bytes → Bytes → Prop
  | block (body : Bytes) : ClosedBy .comment (slash :: star :: (body ++ [star, slash])) []
  | directiveBlock (line body : Bytes) :
      ClosedBy .directive (line ++ slash :: star :: (body ++ [star, slash])) []
  | literal {body : Bytes} (h : SkippedBody body) :
      ClosedBy .literal (doubleQuote :: (body ++ [doubleQuote])) []
  | newline (c : Context) (text : Bytes) : ClosedBy c text [newline]

/-- Behind the first occurrence of a pair there is at least what is behind another one. -/
theorem suffix_of_first_pair {x y : UInt8} {front later front' later' : Bytes} (hxy : x ≠ y)
    (hfirst : ¬ [x, y] <:+: front) (h : front ++ x :: y :: later = front' ++ x :: y :: later') :
    later' <:+ later := by
  induction front generalizing front' with
  | nil =>
    match front' with
    | [] =>
      cases h
      exact List.suffix_refl _
    | [z] =>
      injection h with _ h
      injection h with hyx
      exact absurd hyx.symm hxy
    | z :: w :: front' =>
      injection h with _ h
      injection h with _ h
      exact ⟨front' ++ [x, y], by rw [h, List.append_assoc]; rfl⟩
  | cons z front ih =>
    rw [pair_infix_cons, not_or] at hfirst
    cases front' with
    | nil =>
      injection h with hz h
      cases front with
      | nil =>
        injection h with hxy'
        exact absurd hxy' hxy
      | cons w front =>
        injection h with hw
        exact absurd ⟨hz, congrArg some hw⟩ hfirst.1
    | cons w front' =>
      injection h with _ h
      exact ih hfirst.2 h

/-- A block comment that has its end stays one with other bytes behind it. -/
theorem contextAt_block {body : Bytes}
    (h : ContextAt .comment (slash :: star :: (body ++ [star, slash])) rest) (u : Bytes) :
    ContextAt .comment (slash :: star :: (body ++ [star, slash])) u := by
  generalize htext : slash :: star :: (body ++ [star, slash]) = text at h
  cases h with
  | block h =>
    cases h with
    | closed hbody => exact .block (.closed hbody _)
    | unclosed hbody =>
      injection htext with _ htext
      injection htext with _ htext
      exact absurd ⟨body, [], by rw [List.append_nil, htext]⟩ hbody
  | line =>
    injection htext with _ htext
    injection htext with hbyte
    cases hbyte

/-- A directive that ends with a block comment stays one with other bytes behind it. -/
theorem contextAt_directiveBlock {line body : Bytes}
    (h : ContextAt .directive (line ++ slash :: star :: (body ++ [star, slash])) rest) (u : Bytes) :
    ContextAt .directive (line ++ slash :: star :: (body ++ [star, slash])) u := by
  generalize htext : line ++ slash :: star :: (body ++ [star, slash]) = text at h
  have hash_cons {front : Bytes} (hblock : ¬ [slash, star] <:+: front) :
      ¬ [slash, star] <:+: hash :: front := by
    rw [pair_infix_cons, not_or]
    exact ⟨fun h => absurd h.1 (by decide), hblock⟩
  cases h with
  | directive hline hblock =>
    refine absurd ⟨line, body ++ [star, slash], ?_⟩ (hash_cons hblock)
    rw [List.append_assoc, ← htext]
    rfl
  | directiveBlock hline hblock hcomment =>
    cases hcomment with
    | closed hbody => exact .directiveBlock hline hblock (.closed hbody _)
    | unclosed hbody =>
      have hsuffix := suffix_of_first_pair (by decide) (hash_cons hblock) htext.symm
      exact absurd ((List.suffix_append body [star, slash]).trans hsuffix).isInfix hbody

/-- **A context that is closed is skipped alike in every text**, as far as it and what closes it
go. -/
theorem skip?_of_closedBy (h : ContextAt c text rest) (hclosed : ClosedBy c text ahead)
    (hahead : ahead <+: rest) (u : Bytes) :
    skip? (text ++ (ahead ++ u)) = some ⟨c, text, ahead ++ u⟩ := by
  cases hclosed with
  | block body => exact skip?_of_contextAt (contextAt_block h _)
  | directiveBlock line body => exact skip?_of_contextAt (contextAt_directiveBlock h _)
  | literal hbody => exact skip?_of_contextAt (.literal (hbody.quoteTail _))
  | newline c text =>
    obtain ⟨rest, rfl⟩ := hahead
    exact skip?_local (skip?_of_contextAt h) (List.cons_ne_nil _ _) rfl

/-- A context that is closed is skipped alike at every position of every text with its bytes. -/
theorem skip_local (h : skip t i = .ok (some (c, e)))
    (hclosed : ClosedBy c ((t.take e).drop i) ahead) (hahead : ahead <+: t.drop e)
    (hsame : (t'.drop q).take (e - i + ahead.length) = (t.drop i).take (e - i + ahead.length)) :
    skip t' q = .ok (some (c, q + (e - i))) := by
  rw [skip_eq, Except.ok.injEq, skipAt, Option.map_eq_some_iff] at h
  obtain ⟨s, hs, heq⟩ := h
  cases heq
  have hsplit := skip?_append hs
  have htext : (t.take (i + s.text.length)).drop i = s.text := by
    rw [List.drop_take, Nat.add_sub_cancel_left, ← hsplit, List.take_left]
  have hrest : t.drop (i + s.text.length) = s.rest := by
    rw [← List.drop_drop, ← hsplit, List.drop_left]
  rw [htext] at hclosed
  rw [hrest] at hahead
  obtain ⟨u, hu⟩ := hahead
  rw [Nat.add_sub_cancel_left, ← List.length_append, ← hsplit, ← hu, ← List.append_assoc,
    List.take_left] at hsame
  have hq : t'.drop q = s.text ++ (ahead ++ (t'.drop q).drop (s.text ++ ahead).length) := by
    rw [← List.append_assoc]
    conv_lhs => rw [← List.take_append_drop (s.text ++ ahead).length (t'.drop q), hsame]
  rw [skip_eq, skipAt, hq, skip?_of_closedBy (contextAt_of_skip hs) hclosed ⟨u, hu⟩,
    Nat.add_sub_cancel_left]
  rfl

/-! ## Loops -/

/-- All loops of the scanner and of the reader of clauses end, and get further with every turn. -/
structure LoopsEnd (marker t : Bytes) : Prop where
  directive : (directiveLoop t).Ends
  quote : (quoteLoop t).Ends
  group (start : Nat) : (groupLoop t start).Ends
  clause : (clauseLoop marker t).Ends
  scan : (scanLoop marker t).Ends
  trivia : (triviaLoop t).Ends
  word : (wordLoop t).Ends
  opening : (openingLoop t).Ends
  argument : (argumentLoop t).Ends

theorem loopsEnd (marker t : Bytes) : LoopsEnd marker t where
  directive := (directiveLoop_advances t).ends
  quote := (quoteLoop_advances t).ends
  group start := (groupLoop_advances t start).ends
  clause := (clauseLoop_advances marker t).ends
  scan := (scanLoop_advances marker t).ends
  trivia := (triviaLoop_advances t).ends
  word := (wordLoop_advances t).ends
  opening := (openingLoop_advances t).ends
  argument := (argumentLoop_advances t).ends

/-- **Skipping makes progress and is local, and so every loop ends.** What is skipped by position is
what starts the text from there on; it is at least one byte, and no more than there is. -/
theorem skip_local_and_loops_end (marker t : Bytes) :
    (∀ i, skip t i = .ok ((skip? (t.drop i)).map fun s => (s.context, i + s.text.length))) ∧
      (∀ i c e, skip t i = .ok (some (c, e)) → i < e ∧ e ≤ t.length ∧
        ∀ ahead t' q, ClosedBy c ((t.take e).drop i) ahead → ahead <+: t.drop e →
          (t'.drop q).take (e - i + ahead.length) = (t.drop i).take (e - i + ahead.length) →
          skip t' q = .ok (some (c, q + (e - i)))) ∧
      LoopsEnd marker t := by
  refine ⟨skip_eq t, fun i c e h => ?_, loopsEnd marker t⟩
  obtain ⟨hadvance, hbound⟩ := skip_progress h
  exact ⟨hadvance, hbound, fun ahead t' q => skip_local h⟩

/-- A comment that a newline ends, with other bytes around it. -/
theorem skip_local_and_loops_end_comment :
    skip (encode "a//b\n") 1 = .ok (some (.comment, 4)) ∧
      skip (encode "//b\nc") 0 = .ok (some (.comment, 3)) ∧
      LoopsEnd (encode "M_") (encode "a//b\n") := by
  have hskip : skip (encode "a//b\n") 1 = .ok (some (.comment, 4)) := by
    rw [skip_eq]
    decide
  obtain ⟨-, hlocal, hloops⟩ := skip_local_and_loops_end (encode "M_") (encode "a//b\n")
  exact ⟨hskip, (hlocal 1 .comment 4 hskip).2.2 [newline] (encode "//b\nc") 0
    (.newline _ _) (by decide) (by decide), hloops⟩

end EventSchema.Source.Cursor
