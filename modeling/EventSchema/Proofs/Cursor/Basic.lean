import EventSchema.Proofs.Text.Boundary

/-!
# Reading by position

Readers with a cursor that goes through a text. They may panic: an access is refused if it is out of
bounds, if it cuts a text inside of a character, or if it counts below zero, and a loop is refused
if its cursor does not advance (`Loop.run`). What a cursor stands before is what is left to read
(`Ahead`), and accesses to that are never refused.

A loop whose cursor advances with every turn ends within as many turns as there are positions left
(`Loop.Advances.ends`).
-/

namespace EventSchema.Source.Cursor

open Text.Utf8

/-! ## Accesses -/

/-- What a reader by position must not do. -/
inductive Panic
  /-- Ask for a byte or a part that is not there. -/
  | outOfBounds
  /-- Cut a text inside of a character. -/
  | insideCharacter
  | countBelowZero
  /-- Go around in a loop without getting any further. -/
  | stuck
  deriving DecidableEq, Repr

/-- What a reader gives, unless it panics. -/
abbrev Checked (α : Type) := Except Panic α

def byteAt (t : Bytes) (i : Nat) : Checked UInt8 :=
  match t[i]? with
  | some b => .ok b
  | none => .error .outOfBounds

/-- The bytes from position `i` up to position `j`. -/
def part (t : Bytes) (i j : Nat) : Checked Bytes :=
  if i ≤ j ∧ j ≤ t.length then .ok ((t.take j).drop i) else .error .outOfBounds

instance (b : UInt8) : Decidable (Continues b) :=
  inferInstanceAs (Decidable (0x80 ≤ b.toNat ∧ b.toNat < 0xC0))

/-- Where a text may be cut: at its ends, and before the bytes that start a character. -/
def CharStart (t : Bytes) (i : Nat) : Prop :=
  i = 0 ∨ i = t.length ∨ ∃ b ∈ t[i]?, ¬ Continues b

instance (t : Bytes) (i : Nat) : Decidable (CharStart t i) :=
  inferInstanceAs (Decidable (i = 0 ∨ i = t.length ∨ ∃ b ∈ t[i]?, ¬ Continues b))

/-- The text from position `i` up to position `j`, as a text. -/
def textPart (t : Bytes) (i j : Nat) : Checked Bytes := do
  let bytes ← part t i j
  if CharStart t i ∧ CharStart t j then return bytes else throw .insideCharacter

/-- One less. -/
def decrease : Nat → Checked Nat
  | 0 => .error .countBelowZero
  | n + 1 => .ok n

@[simp] theorem ok_bind {α β : Type} (a : α) (f : α → Checked β) : (Except.ok a >>= f) = f a := rfl

@[simp] theorem pure_eq_ok {α : Type} (a : α) : (pure a : Checked α) = .ok a := rfl

/-- What goes through went through its first step. -/
theorem of_bind_ok {α β : Type} {x : Checked α} {f : α → Checked β} {b : β}
    (h : (x >>= f) = .ok b) : ∃ a, x = .ok a ∧ f a = .ok b := by
  cases x with
  | error p => cases h
  | ok a => exact ⟨a, rfl, h⟩

theorem le_of_textPart {t bytes : Bytes} {i j : Nat} (h : textPart t i j = .ok bytes) : i ≤ j := by
  obtain ⟨bytes', hpart, -⟩ := of_bind_ok h
  rw [part] at hpart
  by_cases hij : i ≤ j ∧ j ≤ t.length
  · exact hij.1
  · rw [if_neg hij] at hpart
    cases hpart

/-! ## Cursors -/

/-- A cursor at position `i` of a text stands before `u`. -/
structure Ahead (t : Bytes) (i : Nat) (u : Bytes) : Prop where
  drop : t.drop i = u
  le : i ≤ t.length

theorem ahead_zero (t : Bytes) : Ahead t 0 t := ⟨rfl, Nat.zero_le _⟩

theorem ahead_of_drop {t r : Bytes} {b : UInt8} {i : Nat} (h : t.drop i = b :: r) :
    Ahead t i (b :: r) where
  drop := h
  le := by
    have hlength := congrArg List.length h
    rw [List.length_drop, List.length_cons] at hlength
    omega

theorem exists_ahead {t : Bytes} {i : Nat} (h : i < t.length) : ∃ b r, Ahead t i (b :: r) :=
  ⟨t[i], t.drop (i + 1), List.drop_eq_getElem_cons h, Nat.le_of_lt h⟩

namespace Ahead

variable {t u a r : Bytes} {b : UInt8} {i : Nat}

theorem length (h : Ahead t i u) : i + u.length = t.length := by
  rw [← h.drop, List.length_drop]
  exact Nat.add_sub_of_le h.le

theorem getElem? (h : Ahead t i u) (k : Nat) : t[i + k]? = u[k]? := by
  rw [← h.drop, List.getElem?_drop]

theorem head? (h : Ahead t i u) : t[i]? = u.head? := by
  rw [List.head?_eq_getElem?]
  exact h.getElem? 0

theorem second? (h : Ahead t i (b :: r)) : t[i + 1]? = r.head? := by
  rw [h.getElem? 1, List.getElem?_cons_succ, List.head?_eq_getElem?]

theorem append (h : Ahead t i (a ++ r)) : Ahead t (i + a.length) r where
  drop := by rw [← List.drop_drop, h.drop, List.drop_left]
  le := by
    have hlength := h.length
    rw [List.length_append] at hlength
    omega

theorem cons (h : Ahead t i (b :: r)) : Ahead t (i + 1) r := h.append (a := [b])

theorem lt (h : Ahead t i (b :: r)) : i < t.length := by
  have hlength := h.length
  rw [List.length_cons] at hlength
  omega

theorem not_lt (h : Ahead t i []) : ¬ i < t.length := by
  have hlength := h.length
  rw [List.length_nil] at hlength
  omega

theorem take (h : Ahead t i (a ++ r)) : t.take (i + a.length) = t.take i ++ a := by
  rw [List.take_add, h.drop, List.take_left]

/-! ### What is ahead can be accessed -/

theorem byteAt (h : Ahead t i (b :: r)) : byteAt t i = .ok b := by
  rw [Cursor.byteAt, h.head?]
  rfl

theorem part (h : Ahead t i (a ++ r)) : part t i (i + a.length) = .ok a := by
  rw [Cursor.part, if_pos ⟨Nat.le_add_right _ _, h.append.le⟩, h.take, List.drop_left' ?_]
  rw [List.length_take]
  exact Nat.min_eq_left h.le

theorem part_all (h : Ahead t i u) : Cursor.part t i t.length = .ok u := by
  rw [← h.length]
  exact Ahead.part (r := []) (by rwa [List.append_nil])

/-- What is left of a text is a text where the cursor stands before a character. -/
theorem charStart (h : Ahead t i u) (hu : WellFormed u) : CharStart t i := by
  cases u with
  | nil => exact .inr (.inl h.length)
  | cons b r => exact .inr (.inr ⟨b, h.head?, not_continues_of_wellFormed hu⟩)

/-- **A text is not cut inside of a character** where texts are ahead of both ends. -/
theorem textPart (h : Ahead t i (a ++ r)) (hall : WellFormed (a ++ r)) (hr : WellFormed r) :
    textPart t i (i + a.length) = .ok a := by
  rw [Cursor.textPart, h.part, ok_bind, if_pos ⟨h.charStart hall, h.append.charStart hr⟩]
  rfl

-- after the first of two bytes
example : Cursor.textPart (encode "é") 0 1 = .error .insideCharacter := rfl

end Ahead

/-! ## Loops -/

/-- What one turn of a loop comes to: another state, or the end of the loop. -/
inductive Turn (σ ρ : Type)
  | again (s : σ)
  | done (r : ρ)

/-- A loop over states with a cursor, and the end of what the cursor goes through. -/
structure Loop (σ ρ : Type) where
  bound : Nat
  position : σ → Nat
  turn : σ → Checked (Turn σ ρ)

namespace Loop

variable {σ ρ : Type} {l : Loop σ ρ} {s s' : σ} {r : ρ}

/-- Takes turns to the end of the loop. -/
def run (l : Loop σ ρ) (s : σ) : Checked ρ :=
  match l.turn s with
  | .error p => .error p
  | .ok (.done r) => .ok r
  | .ok (.again s') =>
    if _h : l.position s < l.position s' ∧ l.position s < l.bound then l.run s'
    else .error .stuck
termination_by l.bound - l.position s

/-- **Every turn gets further**, and starts before the bound, unless it ends the loop. -/
def Advances (l : Loop σ ρ) : Prop :=
  ∀ s s', l.turn s = .ok (.again s') → l.position s < l.position s' ∧ l.position s < l.bound

/-- A loop through a text advances if its turns do where a byte is ahead, and nothing but its end
comes at the end of the text. -/
theorem advances_of_ahead {t : Bytes} (hbound : l.bound = t.length)
    (hend : ∀ s, ¬ l.position s < t.length → ∃ r, l.turn s = .ok (.done r))
    (hstep : ∀ s s' b u, Ahead t (l.position s) (b :: u) → l.turn s = .ok (.again s') →
      l.position s < l.position s') : l.Advances := by
  intro s s' hturn
  rw [hbound]
  by_cases hs : l.position s < t.length
  · obtain ⟨b, u, h⟩ := exists_ahead hs
    exact ⟨hstep s s' b u h hturn, hs⟩
  · obtain ⟨r, hdone⟩ := hend s hs
    rw [hdone] at hturn
    cases hturn

/-- The loop is at its end after at most `n` turns. -/
def EndsWithin (l : Loop σ ρ) : Nat → σ → Prop
  | 0, _ => False
  | n + 1, s => ∀ s', l.turn s = .ok (.again s') → l.EndsWithin n s'

theorem run_done (h : l.turn s = .ok (.done r)) : l.run s = .ok r := by
  rw [run, h]

theorem Advances.run_again (hl : l.Advances) (h : l.turn s = .ok (.again s')) :
    l.run s = l.run s' := by
  rw [run, h]
  exact dif_pos (hl s s' h)

/-- Every turn gets further, and there are no more turns than positions before the bound, and one
that ends the loop. -/
def Ends (l : Loop σ ρ) : Prop :=
  l.Advances ∧ ∀ s, l.EndsWithin (l.bound - l.position s + 1) s

/-- **A loop that advances ends** after as many turns as there are positions before its bound, and
one more. -/
theorem Advances.ends (hl : l.Advances) : l.Ends := by
  have within (n : Nat) : ∀ s, l.bound - l.position s < n → l.EndsWithin n s := by
    induction n with
    | zero => exact fun s h => absurd h (Nat.not_lt_zero _)
    | succ n ih =>
      intro s hs s' hturn
      obtain ⟨hstep, hbound⟩ := hl s s' hturn
      exact ih s' (by omega)
  exact ⟨hl, fun s => within _ s (Nat.lt_succ_self _)⟩

/-- The result of a loop is that of its last turn, which starts no earlier. -/
theorem exists_done (h : l.run s = .ok r) :
    ∃ s', l.position s ≤ l.position s' ∧ l.turn s' = .ok (.done r) := by
  fun_induction run l s with
  | case1 => cases h
  | case2 s r' hturn =>
    cases h
    exact ⟨s, Nat.le_refl _, hturn⟩
  | case3 s s' hturn hstep ih =>
    obtain ⟨last, hle, hlast⟩ := ih h
    exact ⟨last, Nat.le_trans (Nat.le_of_lt hstep.1) hle, hlast⟩
  | case4 => cases h

end Loop

end EventSchema.Source.Cursor
