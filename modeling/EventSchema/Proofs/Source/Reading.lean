import EventSchema.Source.Clause
import Mathlib.Data.List.Basic

/-!
# Arguments read from left to right

The arguments of a clause, read piece by piece with a state: how many groups are open, which
arguments are finished, what there is of the current one and whether a gap came right before. The
reading ends where the list is split, with the same texts (`Reading.read_eq_arguments`). In the
state it is plain where gaps make no difference (`Reading.Idle.step_gap`).
-/

namespace EventSchema.Source

/-- How far an argument list has been read. -/
structure Reading where
  /-- The number of groups that are open inside the list. -/
  depth : Int
  /-- The arguments that are finished, without the empty ones. -/
  done : List Bytes
  /-- The text of the current argument. -/
  current : Bytes
  /-- Whether a gap came after that text. -/
  owed : Bool

namespace Reading

/-- The state right after the `(` that opens the list. -/
def start : Reading := ⟨0, [], [], false⟩

variable {r : Reading} {p : Piece} {ps qs : List Piece} {b : UInt8} {t u : Bytes} {d : Nat}

/-! ## Steps -/

/-- A gap comes before what is read next. -/
def gap (r : Reading) : Reading := { r with owed := true }

/-- Adds to the current argument. -/
def push (r : Reading) (t : Bytes) : Reading :=
  { r with
    current := r.current ++ (if r.owed ∧ r.current ≠ [] then [space] else []) ++ t
    owed := false }

/-- Ends the current argument. -/
def finish (r : Reading) : Reading :=
  { r with
    done := r.done ++ [r.current].filter (· ≠ [])
    current := []
    owed := false }

def step (r : Reading) : Piece → Reading
  | .gap => r.gap
  | .opening => { r.push [leftParen] with depth := r.depth + 1 }
  | .closing => { r.push [rightParen] with depth := r.depth - 1 }
  | .separator => if r.depth = 0 then r.finish else r.push [comma]
  | .word t => r.push t

/-- Reads on to the `)` that closes the list. -/
def read (r : Reading) : List Piece → Option (List Bytes)
  | [] => none
  | p :: ps => if p = .closing ∧ r.depth = 0 then some r.finish.done else (r.step p).read ps

@[simp] theorem finish_gap (r : Reading) : r.gap.finish = r.finish := rfl

@[simp] theorem gap_gap (r : Reading) : r.gap.gap = r.gap := rfl

theorem gap_of_owed (h : r.owed = true) : r.gap = r := by
  rw [gap, ← h]

theorem push_push (r : Reading) (t u : Bytes) : (r.push t).push u = r.push (t ++ u) := by
  simp [push]

theorem push_gap_of_nil (h : r.current = []) (t : Bytes) : r.gap.push t = r.push t := by
  simp [push, gap, h]

theorem read_cons (h : ¬ (p = .closing ∧ r.depth = 0)) : r.read (p :: ps) = (r.step p).read ps := by
  rw [read, if_neg h]

/-- Two lists that are read alike from every state are read alike behind the same piece. -/
theorem read_cons_congr (h : ∀ r : Reading, r.read ps = r.read qs) (r : Reading) (p : Piece) :
    r.read (p :: ps) = r.read (p :: qs) := by
  rw [read, read, h]

theorem read_append_congr (h : ∀ r : Reading, r.read ps = r.read qs) (r : Reading)
    (front : List Piece) : r.read (front ++ ps) = r.read (front ++ qs) := by
  induction front generalizing r with
  | nil => exact h r
  | cons p front ih => exact read_cons_congr ih r p

theorem read_word (r : Reading) (t : Bytes) (ps : List Piece) :
    r.read (.word t :: ps) = (r.push t).read ps :=
  read_cons fun h => Piece.noConfusion h.1

/-- A word is read like its bytes, one at a time. -/
theorem read_word_cons (r : Reading) (b : UInt8) (t : Bytes) (ps : List Piece) :
    r.read (.word (b :: t) :: ps) = r.read ((b :: t).map (fun x => .word [x]) ++ ps) := by
  induction t generalizing r b with
  | nil => rfl
  | cons c t ih =>
    calc r.read (.word (b :: c :: t) :: ps)
        = (r.push [b]).read (.word (c :: t) :: ps) := by
          rw [read_word, read_word, push_push, List.singleton_append]
      _ = (r.push [b]).read ((c :: t).map (fun x => .word [x]) ++ ps) := ih (r.push [b]) c
      _ = r.read ((b :: c :: t).map (fun x => .word [x]) ++ ps) := (read_word r [b] _).symm

/-! ## The split list -/

/-- The current argument, when some more pieces belong to it. -/
def extended (r : Reading) (ps : List Piece) : Bytes :=
  if r.current = [] then argumentText ps else r.current ++ joined r.owed ps

/-- All arguments, when the first of some more goes on from the current one. -/
def all (r : Reading) (args : List (List Piece)) : List Bytes :=
  r.done ++ (r.extended (args.headD []) :: args.tail.map argumentText).filter (· ≠ [])

@[simp] theorem extended_nil (r : Reading) : r.extended [] = r.current := by
  by_cases h : r.current = [] <;> simp [extended, argumentText, joined, h]

theorem extended_gap (r : Reading) (ps : List Piece) :
    r.gap.extended ps = r.extended (.gap :: ps) := by
  by_cases h : r.current = [] <;> simp [extended, gap, argumentText, joined, h]

theorem extended_push (r : Reading) (p : Piece) (hp : p ≠ .gap) (ht : p.text ≠ [])
    (ps : List Piece) : (r.push p.text).extended ps = r.extended (p :: ps) := by
  have hjoined (owed : Bool) :
      joined owed (p :: ps) = (if owed then [space] else []) ++ p.text ++ joined false ps := by
    cases p with
    | gap => exact absurd rfl hp
    | _ => rfl
  have hdrop : (p :: ps).dropWhile (· == .gap) = p :: ps :=
    List.dropWhile_cons_of_neg (by simp [hp])
  by_cases h : r.current = []
  · simp [extended, push, argumentText, h, ht, hdrop, hjoined]
  · simp [extended, push, h, hjoined]

theorem extendFirst_eq (p : Piece) (args : List (List Piece)) :
    extendFirst p args = (p :: args.headD []) :: args.tail := by
  cases args <;> rfl

theorem all_extendFirst {r' : Reading} (hdone : r'.done = r.done)
    (h : ∀ ps, r'.extended ps = r.extended (p :: ps)) (args : List (List Piece)) :
    r'.all args = r.all (extendFirst p args) := by
  rw [all, all, extendFirst_eq, hdone, h]
  rfl

theorem all_finish (r : Reading) (args : List (List Piece)) (h : args ≠ []) :
    r.finish.all args = r.all ([] :: args) := by
  obtain ⟨first, others, rfl⟩ := List.exists_cons_of_ne_nil h
  have hfinish : r.finish.extended first = argumentText first := by simp [extended, finish]
  simp only [all, List.headD_cons, List.tail_cons, hfinish, extended_nil, List.map_cons]
  rw [finish, List.append_assoc, ← List.filter_append, List.singleton_append]

theorem arguments_ne_nil {args : List (List Piece)} {unread : List Piece}
    (h : arguments d ps = some (args, unread)) : args ≠ [] := by
  fun_induction arguments d ps generalizing args unread with
  | case1 => cases h
  | case3 =>
    cases h
    exact List.cons_ne_nil _ _
  | case2 | case4 | case6 =>
    obtain ⟨a, -, ha⟩ := Option.map_eq_some_iff.1 h
    cases ha
    simp [extendFirst_eq]
  | case5 =>
    obtain ⟨a, -, ha⟩ := Option.map_eq_some_iff.1 h
    cases ha
    exact List.cons_ne_nil _ _

/-- A piece of the current argument is read on both sides. -/
theorem read_extendFirst (d' : Nat) (hp : ¬ (p = .closing ∧ r.depth = 0))
    (hargs : arguments d (p :: ps) = (arguments d' ps).map (Prod.map (extendFirst p) id))
    (hall : ∀ args, (r.step p).all args = r.all (extendFirst p args))
    (h : (r.step p).read ps = (arguments d' ps).map fun a => (r.step p).all a.1) :
    r.read (p :: ps) = (arguments d (p :: ps)).map fun a => r.all a.1 := by
  rw [read_cons hp, h, hargs, Option.map_map]
  exact congrArg (Option.map · _) (funext fun a => hall a.1)

/-- **The list is read to where it is split, and its arguments have the texts of its parts.** -/
theorem read_eq_arguments (hr : r.depth = d) (hps : ∀ p ∈ ps, p ≠ .word []) :
    r.read ps = (arguments d ps).map fun a => r.all a.1 := by
  induction ps generalizing r d with
  | nil => cases d <;> rfl
  | cons p ps ih =>
    rw [List.forall_mem_cons] at hps
    cases p with
    | gap =>
      refine read_extendFirst d (by simp) (by cases d <;> rfl) ?_ (ih hr hps.2)
      exact all_extendFirst rfl (extended_gap r)
    | opening =>
      refine read_extendFirst (d + 1) (by simp) (by cases d <;> rfl) ?_ (ih ?_ hps.2)
      · exact all_extendFirst rfl (extended_push r .opening (by simp) (by simp [Piece.text]))
      · simp [step, hr]
    | closing =>
      cases d with
      | zero => simp [read, arguments, hr, all, finish]
      | succ d =>
        refine read_extendFirst d (by omega) rfl ?_ (ih ?_ hps.2)
        · exact all_extendFirst rfl (extended_push r .closing (by simp) (by simp [Piece.text]))
        · simp [step, hr]
    | separator =>
      cases d with
      | zero =>
        have hstep : r.step .separator = r.finish := if_pos hr
        have hfinish : r.finish.depth = (0 : Nat) := hr
        rw [read_cons (by simp), hstep, ih hfinish hps.2, arguments, Option.map_map]
        refine Option.map_congr fun a ha => ?_
        exact all_finish r a.1 (arguments_ne_nil ha)
      | succ d =>
        have hstep : r.step .separator = r.push [comma] := if_neg (by omega)
        have hpush : (r.push [comma]).depth = (d + 1 : Nat) := hr
        refine read_extendFirst (d + 1) (by simp) rfl ?_ ?_
        · rw [hstep]
          exact all_extendFirst rfl (extended_push r .separator (by simp) (by simp [Piece.text]))
        · rw [hstep]
          exact ih hpush hps.2
    | word t =>
      refine read_extendFirst d (by simp) (by cases d <;> rfl) ?_ (ih hr hps.2)
      have ht : t ≠ [] := fun h => hps.1 (congrArg Piece.word h)
      exact all_extendFirst rfl (extended_push r (.word t) (by simp) ht)

/-! ## Gaps -/

/-- States in which a gap makes no difference to how a piece is read: there is nothing of the
current argument yet, or a gap came right before, or the argument ends with this piece. -/
def Idle (r : Reading) (p : Piece) : Prop :=
  r.current = [] ∨ r.owed = true ∨ r.depth = 0 ∧ p = .separator

theorem step_gap_of_nil (h : r.current = []) (p : Piece) : r.gap.step p = r.step p := by
  cases p with
  | gap => rfl
  | word t => exact push_gap_of_nil h t
  | opening | closing => simp only [step, push_gap_of_nil h]; rfl
  | separator => simp only [step, push_gap_of_nil h, finish_gap]; rfl

theorem Idle.step_gap (h : r.Idle p) : r.gap.step p = r.step p := by
  rcases h with hnil | howed | ⟨hdepth, rfl⟩
  · exact step_gap_of_nil hnil p
  · rw [gap_of_owed howed]
  · have hgap : r.gap.depth = 0 := hdepth
    rw [step, step, if_pos hdepth, if_pos hgap, finish_gap]

end Reading

end EventSchema.Source
