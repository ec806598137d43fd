/-!
Finite maps with their entries in ascending order of the keys. There is one table for each finite
map, so two tables that answer every query alike are equal, and listing a table needs no sorting.

Main statements: an insertion is seen at its own key and nowhere else (`find?_insert`), a change of
the values is seen at every key (`find?_mapKeyed`), and queries determine a table
(`Table.ext_find?`).
-/

namespace EventSchema

open Std (TransOrd LawfulEqOrd)

/-- A finite map from `κ` to `α`, listed in strictly ascending order of the keys. -/
structure Table (κ α : Type) [Ord κ] where
  entries : List (κ × α)
  ascending : entries.Pairwise fun a b => compare a.1 b.1 = .lt

namespace Table

variable {κ α β : Type} [Ord κ]

/-- Two tables with the same entries are equal. -/
theorem ext_entries {t s : Table κ α} (h : t.entries = s.entries) : t = s := by
  cases t
  cases s
  cases h
  rfl

instance [DecidableEq κ] [DecidableEq α] : DecidableEq (Table κ α) := fun t s =>
  if h : t.entries = s.entries then isTrue (ext_entries h)
  else isFalse fun e => h (e ▸ rfl)

/-- The table without entries. -/
def empty : Table κ α := ⟨[], .nil⟩

instance : EmptyCollection (Table κ α) := ⟨empty⟩
instance : Inhabited (Table κ α) := ⟨empty⟩

/-! ## Views -/

/-- The number of keys. -/
def size (t : Table κ α) : Nat := t.entries.length

/-- The keys in ascending order. -/
def keys (t : Table κ α) : List κ := t.entries.map (·.1)

/-- The values in the order of their keys. -/
def values (t : Table κ α) : List α := t.entries.map (·.2)

/-- The value of the first entry with key `k`. -/
def lookup [DecidableEq κ] (k : κ) : List (κ × α) → Option α
  | [] => none
  | e :: rest => if k = e.1 then some e.2 else lookup k rest

/-- The value under a key. -/
def find? [DecidableEq κ] (t : Table κ α) (k : κ) : Option α := lookup k t.entries

/-- Whether a key has a value. -/
def contains [DecidableEq κ] (t : Table κ α) (k : κ) : Bool := (t.find? k).isSome

/-! ## Changes -/

/-- Puts an entry at its place in an ascending list, in place of the one with its key. -/
def insertEntry (k : κ) (v : α) : List (κ × α) → List (κ × α)
  | [] => [(k, v)]
  | e :: rest =>
    match compare k e.1 with
    | .lt => (k, v) :: e :: rest
    | .eq => (k, v) :: rest
    | .gt => e :: insertEntry k v rest

theorem mem_insertEntry {k : κ} {v : α} {l : List (κ × α)} {x : κ × α}
    (h : x ∈ insertEntry k v l) : x = (k, v) ∨ x ∈ l := by
  induction l with
  | nil => simpa [insertEntry] using h
  | cons e rest ih =>
    rw [insertEntry] at h
    split at h
    · simpa using h
    · rcases List.mem_cons.1 h with rfl | h
      · exact .inl rfl
      · exact .inr (List.mem_cons_of_mem _ h)
    · rcases List.mem_cons.1 h with rfl | h
      · exact .inr List.mem_cons_self
      · exact (ih h).imp_right (List.mem_cons_of_mem _)

theorem insertEntry_ascending [TransOrd κ] [LawfulEqOrd κ] (k : κ) (v : α) {l : List (κ × α)}
    (h : l.Pairwise fun a b => compare a.1 b.1 = .lt) :
    (insertEntry k v l).Pairwise fun a b => compare a.1 b.1 = .lt := by
  induction l with
  | nil => simp [insertEntry]
  | cons e rest ih =>
    obtain ⟨he, hrest⟩ := List.pairwise_cons.1 h
    rw [insertEntry]
    split
    · next hk =>
      refine List.pairwise_cons.2 ⟨fun x hx => ?_, h⟩
      rcases List.mem_cons.1 hx with rfl | hx
      · exact hk
      · exact Std.TransCmp.lt_trans hk (he x hx)
    · next hk =>
      have : k = e.1 := Std.LawfulEqCmp.eq_of_compare hk
      exact List.pairwise_cons.2 ⟨fun x hx => this ▸ he x hx, hrest⟩
    · next hk =>
      refine List.pairwise_cons.2 ⟨fun x hx => ?_, ih hrest⟩
      rcases mem_insertEntry hx with rfl | hx
      · exact Std.OrientedCmp.lt_of_gt hk
      · exact he x hx

/-- The table with `v` under `k`, whatever was there. -/
def insert [TransOrd κ] [LawfulEqOrd κ] (t : Table κ α) (k : κ) (v : α) : Table κ α :=
  ⟨insertEntry k v t.entries, insertEntry_ascending k v t.ascending⟩

/-- The table with `v` under `k` if nothing was there: the first entry stays. -/
def insertNew [DecidableEq κ] [TransOrd κ] [LawfulEqOrd κ] (t : Table κ α) (k : κ) (v : α) :
    Table κ α :=
  if t.contains k then t else t.insert k v

/-- The table with every value changed, in view of its key. -/
def mapKeyed (f : κ → α → β) (t : Table κ α) : Table κ β :=
  ⟨t.entries.map fun e => (e.1, f e.1 e.2), List.pairwise_map.2 t.ascending⟩

/-- The table with the value under one key changed, if it has one. -/
def modify [DecidableEq κ] (t : Table κ α) (k : κ) (f : α → α) : Table κ α :=
  t.mapKeyed fun j a => if j = k then f a else a

/-- The table of a list of entries, of which the last one with a key stays. -/
def ofList [TransOrd κ] [LawfulEqOrd κ] (l : List (κ × α)) : Table κ α :=
  l.foldl (fun t e => t.insert e.1 e.2) empty

/-! ## What a query sees -/

variable [DecidableEq κ]

@[simp] theorem find?_empty (k : κ) : (∅ : Table κ α).find? k = none := rfl

theorem lookup_insertEntry [TransOrd κ] [LawfulEqOrd κ] (k j : κ) (v : α) (l : List (κ × α)) :
    lookup j (insertEntry k v l) = if j = k then some v else lookup j l := by
  induction l with
  | nil => rfl
  | cons e rest ih =>
    rw [insertEntry]
    split
    · rfl
    · next hk =>
      have hk : k = e.1 := Std.LawfulEqCmp.eq_of_compare hk
      by_cases hj : j = e.1 <;> simp [lookup, hk, hj]
    · next hk =>
      have hne : e.1 ≠ k := by
        rintro rfl
        simp at hk
      by_cases hj : j = k
      · subst hj
        simp [lookup, ih, hne.symm]
      · simp [lookup, ih, hj]

theorem find?_insert [TransOrd κ] [LawfulEqOrd κ] (t : Table κ α) (k j : κ) (v : α) :
    (t.insert k v).find? j = if j = k then some v else t.find? j :=
  lookup_insertEntry k j v t.entries

theorem find?_insertNew [TransOrd κ] [LawfulEqOrd κ] (t : Table κ α) (k j : κ) (v : α) :
    (t.insertNew k v).find? j = if j = k then some ((t.find? k).getD v) else t.find? j := by
  rw [insertNew, contains]
  cases h : t.find? k with
  | none => simp [find?_insert]
  | some a =>
    by_cases hj : j = k
    · simp [hj, h]
    · simp [hj]

omit [Ord κ] in
theorem lookup_map (f : κ → α → β) (k : κ) (l : List (κ × α)) :
    lookup k (l.map fun e => (e.1, f e.1 e.2)) = (lookup k l).map (f k) := by
  induction l with
  | nil => rfl
  | cons e rest ih => by_cases h : k = e.1 <;> simp [lookup, h, ih]

theorem find?_mapKeyed (f : κ → α → β) (t : Table κ α) (k : κ) :
    (t.mapKeyed f).find? k = (t.find? k).map (f k) :=
  lookup_map f k t.entries

theorem find?_modify (t : Table κ α) (k j : κ) (f : α → α) :
    (t.modify k f).find? j = if j = k then (t.find? j).map f else t.find? j := by
  rw [modify, find?_mapKeyed]
  by_cases h : j = k <;> simp [h]

omit [DecidableEq κ] in
@[simp] theorem keys_mapKeyed (f : κ → α → β) (t : Table κ α) : (t.mapKeyed f).keys = t.keys := by
  simp [keys, mapKeyed]

/-! ## Entries and queries -/

/-- A pair is listed exactly when its key has its value. -/
theorem mem_entries_iff [TransOrd κ] (t : Table κ α) (k : κ) (a : α) :
    (k, a) ∈ t.entries ↔ t.find? k = some a := by
  obtain ⟨l, h⟩ := t
  rw [find?]
  induction l with
  | nil => simp [lookup]
  | cons e rest ih =>
    obtain ⟨he, hrest⟩ := List.pairwise_cons.1 h
    rw [lookup, List.mem_cons]
    by_cases hk : k = e.1
    · subst hk
      rw [if_pos rfl, Option.some.injEq]
      refine ⟨fun h => ?_, fun h => .inl (by rw [← h])⟩
      rcases h with h | h
      · rw [← h]
      · exact absurd (he _ h) (by simp)
    · rw [if_neg hk, ← ih hrest]
      refine ⟨fun h => ?_, .inr⟩
      rcases h with h | h
      · exact absurd (congrArg Prod.fst h) hk
      · exact h

theorem contains_iff_mem_keys [TransOrd κ] (t : Table κ α) (k : κ) :
    t.contains k = true ↔ k ∈ t.keys := by
  rw [contains, Option.isSome_iff_exists, keys, List.mem_map]
  refine ⟨fun ⟨a, h⟩ => ⟨(k, a), (t.mem_entries_iff k a).2 h, rfl⟩, ?_⟩
  rintro ⟨⟨j, a⟩, h, rfl⟩
  exact ⟨a, (t.mem_entries_iff j a).1 h⟩

omit [DecidableEq κ] in
private theorem entries_eq_of_mem_iff [TransOrd κ] {l m : List (κ × α)}
    (hl : l.Pairwise fun a b => compare a.1 b.1 = .lt)
    (hm : m.Pairwise fun a b => compare a.1 b.1 = .lt) (h : ∀ x, x ∈ l ↔ x ∈ m) : l = m := by
  induction l generalizing m with
  | nil =>
    cases m with
    | nil => rfl
    | cons y ys => simpa using (h y).2 (by simp)
  | cons x xs ih =>
    cases m with
    | nil => simpa using (h x).1 (by simp)
    | cons y ys =>
      obtain ⟨hx, hxs⟩ := List.pairwise_cons.1 hl
      obtain ⟨hy, hys⟩ := List.pairwise_cons.1 hm
      have hxy : x = y := by
        rcases List.mem_cons.1 ((h x).1 (by simp)) with e | hxm
        · exact e
        · rcases List.mem_cons.1 ((h y).2 (by simp)) with e | hyl
          · exact e.symm
          · have := Std.TransCmp.lt_trans (hx y hyl) (hy x hxm)
            simp at this
      subst hxy
      congr 1
      refine ih hxs hys fun z => ?_
      have hz := h z
      simp only [List.mem_cons] at hz
      constructor
      · intro hzx
        rcases hz.1 (.inr hzx) with e | h'
        · subst e
          exact absurd (hx _ hzx) (by simp)
        · exact h'
      · intro hzy
        rcases hz.2 (.inr hzy) with e | h'
        · subst e
          exact absurd (hy _ hzy) (by simp)
        · exact h'

/-- Tables that answer every query alike are equal. -/
theorem ext_find? [TransOrd κ] {t s : Table κ α} (h : ∀ k, t.find? k = s.find? k) : t = s := by
  refine ext_entries (entries_eq_of_mem_iff t.ascending s.ascending fun x => ?_)
  obtain ⟨k, a⟩ := x
  rw [mem_entries_iff, mem_entries_iff, h]

end Table

end EventSchema
