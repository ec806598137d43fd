/-!
White space: which characters separate words, and the trimming of texts. `isBlank` is the Unicode
property White_Space; `Byte.isBlank` is the narrower set that separates clause tokens.

Main statements: a trimmed text neither starts nor ends with a blank (`trimChars_head?`,
`trimChars_getLast?`), and trimming takes away the blanks around a text that does neither
(`trimChars_append`).
-/

namespace EventSchema.Text

/-- The Unicode property White_Space. -/
def isBlank (c : Char) : Bool :=
  let n := c.toNat
  (0x9 ≤ n && n ≤ 0xD) || n == 0x20 || n == 0x85 || n == 0xA0 || n == 0x1680 ||
    (0x2000 ≤ n && n ≤ 0x200A) || n == 0x2028 || n == 0x2029 || n == 0x202F || n == 0x205F ||
    n == 0x3000

/-- Space, tab, line feed, form feed and carriage return, the blanks between clause tokens. -/
def isBlankByte (b : UInt8) : Bool :=
  b == 0x20 || b == 0x09 || b == 0x0A || b == 0x0C || b == 0x0D

/-! ## Trimming -/

/-- The characters up to the last one that fails `p`. -/
def dropEndWhile {α : Type} (p : α → Bool) : List α → List α
  | [] => []
  | a :: rest =>
    match dropEndWhile p rest with
    | [] => if p a then [] else [a]
    | b :: kept => a :: b :: kept

/-- Nothing but an end is dropped. -/
theorem dropEndWhile_prefix {α : Type} (p : α → Bool) (l : List α) : dropEndWhile p l <+: l := by
  induction l with
  | nil => exact List.prefix_refl _
  | cons a rest ih =>
    rw [dropEndWhile]
    split
    · split
      · exact List.nil_prefix
      · exact (List.cons_prefix_cons).2 ⟨rfl, List.nil_prefix⟩
    · next b kept hk => exact (List.cons_prefix_cons).2 ⟨rfl, hk ▸ ih⟩

theorem dropEndWhile_getLast? {α : Type} (p : α → Bool) (l : List α) (a : α)
    (h : (dropEndWhile p l).getLast? = some a) : p a = false := by
  induction l with
  | nil => simp [dropEndWhile] at h
  | cons x rest ih =>
    rw [dropEndWhile] at h
    split at h
    · split at h
      · simp at h
      · simp_all
    · next b kept hk => exact ih (by rw [hk]; simpa [List.getLast?_cons_cons] using h)

theorem dropEndWhile_eq_self {α : Type} (p : α → Bool) (l : List α)
    (h : ∀ a, l.getLast? = some a → p a = false) : dropEndWhile p l = l := by
  induction l with
  | nil => rfl
  | cons x rest ih =>
    cases rest with
    | nil => simp [dropEndWhile, h x rfl]
    | cons y rest =>
      rw [dropEndWhile, ih fun a ha => h a (by simpa [List.getLast?_cons_cons] using ha)]

theorem dropEndWhile_append {α : Type} {p : α → Bool} {after : List α}
    (h : ∀ a ∈ after, p a = true) (l : List α) : dropEndWhile p (l ++ after) = dropEndWhile p l := by
  induction l with
  | nil =>
    induction after with
    | nil => rfl
    | cons a after ih =>
      obtain ⟨ha, hafter⟩ := List.forall_mem_cons.1 h
      have hnil : dropEndWhile p after = [] := ih hafter
      change dropEndWhile p (a :: after) = []
      rw [dropEndWhile, hnil]
      simp [ha]
  | cons x rest ih => rw [List.cons_append, dropEndWhile, dropEndWhile, ih]

/-- A list of characters without the blanks at its ends. -/
def trimChars (cs : List Char) : List Char := dropEndWhile isBlank (cs.dropWhile isBlank)

/-- A text without the blanks at its ends. -/
def trim (s : String) : String := String.ofList (trimChars s.toList)

/-- A text without the blanks before its first other character. -/
def trimStart (s : String) : String := String.ofList (s.toList.dropWhile isBlank)

theorem trimChars_head? {cs : List Char} {c : Char} (h : (trimChars cs).head? = some c) :
    isBlank c = false := by
  obtain ⟨t, ht⟩ := dropEndWhile_prefix isBlank (cs.dropWhile isBlank)
  have hd : (cs.dropWhile isBlank).head? = some c := by
    rw [← ht, List.head?_append, ← trimChars, h]
    rfl
  have hnot := List.head?_dropWhile_not isBlank cs
  simpa [hd] using hnot

theorem trimChars_getLast? {cs : List Char} {c : Char} (h : (trimChars cs).getLast? = some c) :
    isBlank c = false :=
  dropEndWhile_getLast? _ _ _ h

theorem trimChars_eq_self {cs : List Char} (head : ∀ c, cs.head? = some c → isBlank c = false)
    (last : ∀ c, cs.getLast? = some c → isBlank c = false) : trimChars cs = cs := by
  have hd : cs.dropWhile isBlank = cs := by
    cases cs with
    | nil => rfl
    | cons c rest => simp [head c rfl]
  rw [trimChars, hd, dropEndWhile_eq_self _ _ last]

/-- Blanks around a text that has none at its ends are all that trimming takes away. -/
theorem trimChars_append {before cs after : List Char} (hbefore : ∀ c ∈ before, isBlank c = true)
    (hafter : ∀ c ∈ after, isBlank c = true) (head : ∀ c, cs.head? = some c → isBlank c = false)
    (last : ∀ c, cs.getLast? = some c → isBlank c = false) :
    trimChars (before ++ cs ++ after) = cs := by
  have hself : trimChars cs = cs := trimChars_eq_self head last
  rw [List.append_assoc, trimChars, List.dropWhile_append_of_pos hbefore]
  cases cs with
  | nil =>
    have hnil := @List.dropWhile_append_of_pos _ isBlank after [] hafter
    rw [List.append_nil, List.dropWhile_nil] at hnil
    rw [List.nil_append, hnil]
    rfl
  | cons c rest =>
    have hc : ¬ isBlank c = true := by simp [head c rfl]
    rw [List.cons_append, List.dropWhile_cons_of_neg hc, ← List.cons_append,
      dropEndWhile_append hafter]
    rwa [trimChars, List.dropWhile_cons_of_neg hc] at hself

end EventSchema.Text
