import EventSchema.Proofs.Source.Locality
import EventSchema.Source.Scan

/-!
# Texts that close a group

`Closes d t` says that a text is read to its last byte, and no further, when the `)` is sought that
closes a group of which `d` parentheses are open. What a scan takes as the text of a clause is such a
text for no open parenthesis, on its own and whatever followed it (`closes_of_closeGroup`), and each
such text is taken whole (`closeGroup_append_of_closes`).
-/

namespace EventSchema.Source

/-- Texts that end with the parenthesis that closes the first group. -/
inductive Closes : Nat → Bytes → Prop
  | skip {d : Nat} {t : Bytes} {s : Skip} (h : skip? t = some s) (rest : Closes d s.rest) :
      Closes d t
  | opening {d : Nat} {t : Bytes} (rest : Closes (d + 1) t) : Closes d (leftParen :: t)
  | last : Closes 1 [rightParen]
  | closing {d : Nat} {t : Bytes} (rest : Closes (d + 1) t) : Closes (d + 2) (rightParen :: t)
  | other {d : Nat} {b : UInt8} {t : Bytes} (h : skip? (b :: t) = none) (left : b ≠ leftParen)
      (right : b ≠ rightParen) (rest : Closes d t) : Closes d (b :: t)

theorem closes_ne_nil {d : Nat} {t : Bytes} (h : Closes d t) : t ≠ [] := by
  cases h with
  | skip hs =>
    rintro rfl
    cases hs
  | _ => exact List.cons_ne_nil _ _

/-- The last byte of a text that closes a group is the parenthesis that does so. -/
theorem closes_getLast? {d : Nat} {t : Bytes} (h : Closes d t) :
    t.getLast? = some rightParen := by
  have cons {b : UInt8} {t : Bytes} (ht : t.getLast? = some rightParen) :
      (b :: t).getLast? = some rightParen := by
    rw [List.getLast?_cons, ht]
    rfl
  induction h with
  | @skip d t s hs _ ih => rw [← skip?_append hs, List.getLast?_append, ih, Option.some_or]
  | opening _ ih => exact cons ih
  | last => rfl
  | closing _ ih => exact cons ih
  | other _ _ _ _ ih => exact cons ih

/-! ## Reading a group -/

section

variable {start line d : Nat} {b : UInt8} {t : Bytes}

theorem closeGroup_of_skip {s : Skip} (h : skip? t = some s) :
    closeGroup start line d t = (closeGroup start (line + newlines s.text) d s.rest).map
      fun r => (s.text ++ r.1, r.2) := by
  rw [closeGroup]
  split
  · next s' hs' =>
    obtain rfl : s' = s := Option.some.inj (hs'.symm.trans h)
    rfl
  · next hnone =>
    rw [hnone] at h
    cases h

theorem closeGroup_nil : closeGroup start line d [] =
    .error (if d = 0 then .noGroup start else .unclosedGroup start) := by
  rw [closeGroup]
  split
  · next hs => cases hs
  · rfl

theorem rightParen_ne_leftParen : rightParen ≠ leftParen := by decide

theorem closeGroup_opening : closeGroup start line d (leftParen :: t) =
    (closeGroup start line (d + 1) t).map fun r => (leftParen :: r.1, r.2) := by
  rw [closeGroup]
  split
  · next hs =>
    cases hs
  · dsimp only
    rw [if_pos rfl]

theorem closeGroup_unopened :
    closeGroup start line 0 (rightParen :: t) = .error (.closeBeforeOpen line) := by
  rw [closeGroup]
  split
  · next hs => cases hs
  · dsimp only
    rw [if_neg rightParen_ne_leftParen, if_pos rfl]

theorem closeGroup_last : closeGroup start line 1 (rightParen :: t) = .ok ([rightParen], t) := by
  rw [closeGroup]
  split
  · next hs =>
    cases hs
  · dsimp only
    rw [if_neg rightParen_ne_leftParen, if_pos rfl]

theorem closeGroup_closing : closeGroup start line (d + 2) (rightParen :: t) =
    (closeGroup start line (d + 1) t).map fun r => (rightParen :: r.1, r.2) := by
  rw [closeGroup]
  split
  · next hs =>
    cases hs
  · dsimp only
    rw [if_neg rightParen_ne_leftParen, if_pos rfl]

theorem closeGroup_other (h : skip? (b :: t) = none) (left : b ≠ leftParen)
    (right : b ≠ rightParen) : closeGroup start line d (b :: t) =
      (closeGroup start (line + newlines [b]) d t).map fun r => (b :: r.1, r.2) := by
  rw [closeGroup]
  split
  · next hs =>
    rw [h] at hs
    cases hs
  · dsimp only
    rw [if_neg left, if_neg right]

end

/-- What starts a text is what starts any non-empty beginning of it. -/
theorem head?_eq_of_append {a r t : Bytes} (h : a ++ r = t) (ha : a ≠ []) :
    a.head? = t.head? := by
  obtain ⟨b, a, rfl⟩ := List.exists_cons_of_ne_nil ha
  rw [← h]
  rfl

/-- A text that closes a group is taken whole, whatever follows it. -/
theorem closeGroup_append_of_closes {d : Nat} {t : Bytes} (h : Closes d t) (r : Bytes)
    (start line : Nat) : closeGroup start line d (t ++ r) = .ok (t, r) := by
  induction h generalizing line with
  | @skip d t s hs hrest ih =>
    have hne : s.rest ≠ [] := closes_ne_nil hrest
    have hhead : (s.rest ++ r).head? = s.rest.head? := (head?_eq_of_append rfl hne).symm
    have hskip : skip? (t ++ r) = some { s with rest := s.rest ++ r } := by
      rw [← skip?_append hs, List.append_assoc]
      exact skip?_local hs hne hhead
    rw [closeGroup_of_skip hskip, ih, Except.map, skip?_append hs]
  | opening _ ih => rw [List.cons_append, closeGroup_opening, ih, Except.map]
  | last => exact closeGroup_last
  | closing _ ih => rw [List.cons_append, closeGroup_closing, ih, Except.map]
  | other hs left right hrest ih =>
    have hhead := (head?_eq_of_append (r := r) rfl (closes_ne_nil hrest)).symm
    rw [List.cons_append, closeGroup_other (skip?_cons_none_local hs hhead) left right, ih,
      Except.map]

/-- **What is taken as a group closes one, on its own.** -/
theorem closes_of_closeGroup {start line d : Nat} {t c r : Bytes}
    (h : closeGroup start line d t = .ok (c, r)) : Closes d c := by
  fun_induction closeGroup start line d t generalizing c r with
  | case1 line d t s hs ih =>
    obtain ⟨⟨c', r'⟩, hg, heq⟩ := map_eq_ok h
    cases heq
    have hc : Closes d c' := ih hg
    have hrest : c' ++ r' = s.rest := closeGroup_append hg
    have hskip : skip? (s.text ++ c') = some { s with rest := c' } := by
      refine skip?_local hs ?_ (head?_eq_of_append hrest (closes_ne_nil hc))
      rw [← hrest]
      simp [closes_ne_nil hc]
    exact .skip hskip hc
  | case2 => cases h
  | case3 line d rest hs ih =>
    obtain ⟨⟨c', r'⟩, hg, heq⟩ := map_eq_ok h
    cases heq
    exact .opening (ih hg)
  | case4 => cases h
  | case5 =>
    cases h
    exact .last
  | case6 line rest n hs hl ih =>
    obtain ⟨⟨c', r'⟩, hg, heq⟩ := map_eq_ok h
    cases heq
    exact .closing (ih hg)
  | case7 line d b rest hs hl hr ih =>
    obtain ⟨⟨c', r'⟩, hg, heq⟩ := map_eq_ok h
    cases heq
    have hc : Closes d c' := ih hg
    have hhead := head?_eq_of_append (closeGroup_append hg) (closes_ne_nil hc)
    exact .other (skip?_cons_none_local hs hhead) hl hr hc

end EventSchema.Source
