import EventSchema.Table
import Mathlib.Order.Defs.Unbundled

/-!
# Tables that change

`Related R t s` says that two tables have the same keys and related values under each, and
`Extends R t s` that the second one may have further keys. Changing values under their keys relates
a table to the changed one (`related_mapKeyed`, `related_modify`), and putting a value under a new
key extends a table (`extends_insert_of_fresh`). Of an antisymmetric relation `Extends` is
antisymmetric too (`Extends.antisymm`).
-/

namespace EventSchema.Table

variable {κ α β : Type} [Ord κ] [DecidableEq κ]

/-- Two tables with the same keys and, under each key, values in the relation. -/
def Related (R : α → β → Prop) (t : Table κ α) (s : Table κ β) : Prop :=
  ∀ k, Option.Rel R (t.find? k) (s.find? k)

section

variable {R : α → β → Prop} {t : Table κ α} {s : Table κ β} {k : κ}

theorem Related.of_left (h : Related R t s) {a : α} (ha : t.find? k = some a) :
    ∃ b, s.find? k = some b ∧ R a b := by
  have hk := h k
  rw [ha] at hk
  generalize s.find? k = r at hk
  cases hk with
  | some hab => exact ⟨_, rfl, hab⟩

theorem Related.of_right (h : Related R t s) {b : β} (hb : s.find? k = some b) :
    ∃ a, t.find? k = some a ∧ R a b := by
  have hk := h k
  rw [hb] at hk
  generalize t.find? k = r at hk
  cases hk with
  | some hab => exact ⟨_, rfl, hab⟩

theorem Related.of_missing (h : Related R t s) (hk : t.find? k = none) : s.find? k = none := by
  have hrel := h k
  rw [hk] at hrel
  generalize s.find? k = b at hrel
  cases hrel
  rfl

theorem Related.imp {S : α → β → Prop} (h : Related R t s) (hRS : ∀ a b, R a b → S a b) :
    Related S t s := by
  intro k
  have hk := h k
  generalize t.find? k = a, s.find? k = b at hk
  cases hk with
  | none => exact .none
  | some hab => exact .some (hRS _ _ hab)

/-- Related tables list the same keys. -/
theorem Related.keys_eq [Std.TransOrd κ] [Std.LawfulEqOrd κ] (h : Related R t s) :
    s.keys = t.keys := by
  have hunit : s.mapKeyed (fun _ _ => ()) = t.mapKeyed fun _ _ => () := by
    refine ext_find? fun k => ?_
    have hk := h k
    rw [find?_mapKeyed, find?_mapKeyed]
    generalize t.find? k = a at hk
    generalize s.find? k = b at hk
    cases hk <;> rfl
  calc s.keys = (s.mapKeyed fun _ _ => ()).keys := (keys_mapKeyed _ _).symm
    _ = (t.mapKeyed fun _ _ => ()).keys := by rw [hunit]
    _ = t.keys := keys_mapKeyed _ _

end

instance {R : α → α → Prop} [Std.Refl R] :
    Std.Refl (Related R : Table κ α → Table κ α → Prop) where
  refl t k := by
    cases t.find? k with
    | none => exact .none
    | some a => exact .some (refl_of R a)

instance {R : α → α → Prop} [IsTrans α R] :
    IsTrans (Table κ α) (Related R : Table κ α → Table κ α → Prop) where
  trans t s u hts hsu k := by
    have ht := hts k
    have hs := hsu k
    generalize t.find? k = a, s.find? k = b, u.find? k = c at ht hs
    cases ht with
    | none => exact hs
    | some hab =>
      cases hs with
      | some hbc => exact .some (trans_of R hab hbc)

theorem related_mapKeyed {R : α → β → Prop} {t : Table κ α} {f : κ → α → β}
    (h : ∀ k a, t.find? k = some a → R a (f k a)) : Related R t (t.mapKeyed f) := by
  intro k
  rw [find?_mapKeyed]
  cases hk : t.find? k with
  | none => exact .none
  | some a => exact .some (h k a hk)

theorem related_modify {R : α → α → Prop} [Std.Refl R] {t : Table κ α} {k : κ} {f : α → α}
    (h : ∀ a, t.find? k = some a → R a (f a)) : Related R t (t.modify k f) := by
  refine related_mapKeyed fun j a hj => ?_
  split
  · next hjk => exact h a (hjk ▸ hj)
  · exact refl_of R a

/-! ## Changes as insertions -/

/-- Putting a value where it is already changes nothing. -/
theorem insert_eq_self [Std.TransOrd κ] [Std.LawfulEqOrd κ] {t : Table κ α} {k : κ} {a : α}
    (h : t.find? k = some a) : t.insert k a = t := by
  refine ext_find? fun j => ?_
  rw [find?_insert]
  by_cases hj : j = k
  · rw [if_pos hj, hj, h]
  · rw [if_neg hj]

/-- Changing the value under a key puts the changed value there. -/
theorem modify_eq_insert [Std.TransOrd κ] [Std.LawfulEqOrd κ] {t : Table κ α} {k : κ} {a : α}
    (h : t.find? k = some a) (f : α → α) : t.modify k f = t.insert k (f a) := by
  refine ext_find? fun j => ?_
  rw [find?_modify, find?_insert]
  by_cases hj : j = k
  · subst hj
    simp [h]
  · simp [hj]

/-- Where nothing was under a key, the first value put there is the one that stays. -/
theorem insertNew_eq_insert [Std.TransOrd κ] [Std.LawfulEqOrd κ] {t : Table κ α} {k : κ}
    (h : t.find? k = none) (a : α) : t.insertNew k a = t.insert k a := by
  rw [insertNew, contains, h]
  rfl

theorem insertNew_eq_self [Std.TransOrd κ] [Std.LawfulEqOrd κ] {t : Table κ α} {k : κ} {b : α}
    (h : t.find? k = some b) (a : α) : t.insertNew k a = t := by
  rw [insertNew, contains, h]
  rfl

theorem contains_insertNew [Std.TransOrd κ] [Std.LawfulEqOrd κ] {t : Table κ α} {k : κ} (a : α) :
    (t.insertNew k a).contains k = true := by
  rw [contains, find?_insertNew, if_pos rfl, Option.isSome_some]

theorem insertNew_eq_self_of_contains [Std.TransOrd κ] [Std.LawfulEqOrd κ] {t : Table κ α} {k : κ}
    (h : t.contains k = true) (a : α) : t.insertNew k a = t := by
  obtain ⟨b, hb⟩ := Option.isSome_iff_exists.1 h
  exact insertNew_eq_self hb a

/-! ## Tables that grow -/

/-- Every entry of the first table is in the second one, up to the relation. -/
def Extends (R : α → β → Prop) (t : Table κ α) (s : Table κ β) : Prop :=
  ∀ k a, t.find? k = some a → ∃ b, s.find? k = some b ∧ R a b

theorem Related.extends {R : α → β → Prop} {t : Table κ α} {s : Table κ β} (h : Related R t s) :
    Extends R t s :=
  fun _ _ ha => h.of_left ha

theorem Extends.imp {R S : α → β → Prop} {t : Table κ α} {s : Table κ β} (h : Extends R t s)
    (hRS : ∀ a b, R a b → S a b) : Extends S t s := by
  intro k a ha
  obtain ⟨b, hb, hab⟩ := h k a ha
  exact ⟨b, hb, hRS a b hab⟩

theorem Extends.contains {R : α → β → Prop} {t : Table κ α} {s : Table κ β} (h : Extends R t s)
    {k : κ} (hk : t.contains k = true) : s.contains k = true := by
  obtain ⟨a, ha⟩ := Option.isSome_iff_exists.1 hk
  obtain ⟨b, hb, -⟩ := h k a ha
  exact Option.isSome_iff_exists.2 ⟨b, hb⟩

instance {R : α → α → Prop} [Std.Refl R] :
    Std.Refl (Extends R : Table κ α → Table κ α → Prop) where
  refl _ _ a ha := ⟨a, ha, refl_of R a⟩

instance {R : α → α → Prop} [IsTrans α R] :
    IsTrans (Table κ α) (Extends R : Table κ α → Table κ α → Prop) where
  trans _ _ _ hts hsu k a ha := by
    obtain ⟨b, hb, hab⟩ := hts k a ha
    obtain ⟨c, hc, hbc⟩ := hsu k b hb
    exact ⟨c, hc, trans_of R hab hbc⟩

section

variable [Std.TransOrd κ] [Std.LawfulEqOrd κ]

/-- A table grows when a value is put under a key that had none, or a later one in place of one. -/
theorem extends_insert {R : α → α → Prop} [Std.Refl R] {t : Table κ α} {k : κ} {b : α}
    (h : ∀ a, t.find? k = some a → R a b) : Extends R t (t.insert k b) := by
  intro j a ha
  rw [find?_insert]
  by_cases hj : j = k
  · subst hj
    exact ⟨b, if_pos rfl, h a ha⟩
  · exact ⟨a, by rw [if_neg hj, ha], refl_of R a⟩

theorem extends_insert_of_fresh {R : α → α → Prop} [Std.Refl R] {t : Table κ α} {k : κ} {b : α}
    (fresh : t.find? k = none) : Extends R t (t.insert k b) :=
  extends_insert fun a ha => by
    rw [fresh] at ha
    cases ha

theorem extends_insertNew {R : α → α → Prop} [Std.Refl R] {t : Table κ α} {k : κ} {b : α} :
    Extends R t (t.insertNew k b) := by
  cases h : t.find? k with
  | none =>
    rw [insertNew_eq_insert h]
    exact extends_insert_of_fresh h
  | some a =>
    rw [insertNew_eq_self h]
    exact refl_of (Extends R) t

theorem Extends.insert {R : α → β → Prop} {t : Table κ α} {s : Table κ β} (h : Extends R t s) {k : κ}
    {a : α} {b : β} (hb : s.find? k = some b) (hab : R a b) : Extends R (t.insert k a) s := by
  intro j c hc
  rw [find?_insert] at hc
  by_cases hj : j = k
  · rw [if_pos hj] at hc
    cases hc
    exact ⟨b, hj ▸ hb, hab⟩
  · rw [if_neg hj] at hc
    exact h j c hc

theorem Extends.insertNew {R : α → β → Prop} {t : Table κ α} {s : Table κ β} (h : Extends R t s)
    {k : κ} {a : α} (hk : t.find? k = none → ∃ b, s.find? k = some b ∧ R a b) :
    Extends R (t.insertNew k a) s := by
  cases hfind : t.find? k with
  | none =>
    obtain ⟨b, hb, hab⟩ := hk hfind
    rw [insertNew_eq_insert hfind]
    exact h.insert hb hab
  | some c =>
    rw [insertNew_eq_self hfind]
    exact h

end

theorem Extends.modify {R : α → β → Prop} {t : Table κ α} {s : Table κ β} (h : Extends R t s) {k : κ}
    {f : α → α} (hk : ∀ a b, t.find? k = some a → s.find? k = some b → R a b → R (f a) b) :
    Extends R (t.modify k f) s := by
  intro j c hc
  rw [find?_modify] at hc
  by_cases hj : j = k
  · subst hj
    rw [if_pos rfl] at hc
    obtain ⟨a, ha, rfl⟩ := Option.map_eq_some_iff.1 hc
    obtain ⟨b, hb, hab⟩ := h j a ha
    exact ⟨b, hb, hk a b ha hb hab⟩
  · rw [if_neg hj] at hc
    exact h j c hc

/-- Tables that extend each other are equal. -/
theorem Extends.antisymm [Std.TransOrd κ] {R : α → α → Prop} [Std.Antisymm R] {t s : Table κ α}
    (hts : Extends R t s) (hst : Extends R s t) : t = s := by
  refine ext_find? fun k => ?_
  cases ht : t.find? k with
  | none =>
    cases hs : s.find? k with
    | none => rfl
    | some b =>
      obtain ⟨a, ha, -⟩ := hst k b hs
      rw [ht] at ha
      cases ha
  | some a =>
    obtain ⟨b, hb, hab⟩ := hts k a ht
    obtain ⟨a', ha', hba⟩ := hst k b hb
    rw [ht] at ha'
    cases ha'
    rw [hb, antisymm_of R hab hba]

/-! ## Keys -/

theorem mem_keys_iff [Std.TransOrd κ] {t : Table κ α} {k : κ} :
    k ∈ t.keys ↔ ∃ a, t.find? k = some a := by
  rw [← contains_iff_mem_keys, contains, Option.isSome_iff_exists]

theorem mem_values_iff [Std.TransOrd κ] {t : Table κ α} {a : α} :
    a ∈ t.values ↔ ∃ k, t.find? k = some a := by
  rw [values, List.mem_map]
  constructor
  · rintro ⟨⟨k, _⟩, he, rfl⟩
    exact ⟨k, (t.mem_entries_iff k _).1 he⟩
  · rintro ⟨k, hk⟩
    exact ⟨(k, a), (t.mem_entries_iff k a).2 hk, rfl⟩

omit [DecidableEq κ] in
theorem keys_nodup [Std.TransOrd κ] (t : Table κ α) : t.keys.Nodup := by
  refine List.pairwise_map.2 (t.ascending.imp fun {a b} hlt heq => ?_)
  rw [heq] at hlt
  simp at hlt

/-! ## Tables from lists -/

section OfList

variable [Std.TransOrd κ] [Std.LawfulEqOrd κ]

theorem find?_foldl_insert {l : List (κ × α)} (nodup : (l.map (·.1)).Nodup) (t : Table κ α) (k : κ)
    (a : α) :
    (l.foldl (fun t e => t.insert e.1 e.2) t).find? k = some a ↔
      (k, a) ∈ l ∨ (k ∉ l.map (·.1) ∧ t.find? k = some a) := by
  induction l generalizing t with
  | nil => simp
  | cons e l ih =>
    obtain ⟨he, hl⟩ := List.nodup_cons.1 nodup
    rw [List.foldl_cons, ih hl, find?_insert, List.mem_cons, List.map_cons, List.mem_cons]
    by_cases hk : k = e.1
    · subst hk
      have hnot : (e.1, a) ∉ l := fun h => he (List.mem_map.2 ⟨_, h, rfl⟩)
      have hpair : (e.1, a) = e ↔ e.2 = a := by
        rw [Prod.ext_iff]
        simp [eq_comm]
      simp [hnot, he, hpair]
    · have hpair : (k, a) ≠ e := fun heq => hk (congrArg Prod.fst heq)
      simp [hk, hpair]

/-- The table of a list without a repeated key has the entries of the list. -/
theorem ofList_eq {l : List (κ × α)} {t : Table κ α} (nodup : (l.map (·.1)).Nodup)
    (h : ∀ e, e ∈ l ↔ e ∈ t.entries) : ofList l = t := by
  refine ext_find? fun k => Option.ext fun a => ?_
  have hempty : (empty : Table κ α).find? k = none := rfl
  rw [ofList, find?_foldl_insert nodup, h, mem_entries_iff]
  simp [hempty]

omit [DecidableEq κ] in
theorem ofList_concat (l : List (κ × α)) (e : κ × α) :
    ofList (l ++ [e]) = (ofList l).insert e.1 e.2 := by
  rw [ofList, List.foldl_append]
  rfl

end OfList

end EventSchema.Table
