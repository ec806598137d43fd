import EventSchema.Proofs.Json.ValueText
import Mathlib.Data.List.Forall2

/-!
# Values that say the same

What an object says does not depend on the order of its members, and a member that says nothing may
be left out. So one value restates another (`Restates`) if it is the same up to that, at any depth.
What a restated object holds under a key of the original is known (`Gives`).
-/

namespace EventSchema.Json

/-- Whether a value says nothing as a member of an object. -/
def saysNothing : Json → Bool
  | .null | .array [] | .object [] => true
  | _ => false

/-- `v.Restates w` if `w` is `v` with the members of its objects in any order and without some of
those that say nothing. -/
inductive Restates : Json → Json → Prop
  | refl (v : Json) : Restates v v
  | array {vs ws : List Json} (length_eq : vs.length = ws.length)
      (items : ∀ p ∈ vs.zip ws, Restates p.1 p.2) : Restates (.array vs) (.array ws)
  | object {ms ns : List (String × Json)} (nodup : (ns.map (·.1)).Nodup)
      (known : ns.map (·.1) ⊆ ms.map (·.1))
      (kept : ∀ m ∈ ms, ∀ n ∈ ns, n.1 = m.1 → Restates m.2 n.2)
      (left : ∀ m ∈ ms, m.1 ∉ ns.map (·.1) → m.2.saysNothing = true) :
    Restates (.object ms) (.object ns)

/-- What says the same as a value without foreign parts has none. -/
theorem Native.of_restates {v w : Json} (h : v.Restates w) (native : v.Native) : w.Native := by
  induction h with
  | refl => exact native
  | @array vs ws length_eq items ih =>
    cases native with
    | array hvs =>
      refine .array fun w hw => ?_
      obtain ⟨i, hi, rfl⟩ := List.mem_iff_getElem.1 hw
      have hmem : (vs[i], ws[i]) ∈ vs.zip ws :=
        List.mem_iff_getElem.2 ⟨i, by simp [length_eq, hi], by simp⟩
      exact ih _ hmem (hvs _ (List.getElem_mem _))
  | object nodup known kept left ih =>
    cases native with
    | object hms =>
      refine .object fun n hn => ?_
      obtain ⟨m, hm, hkey⟩ := List.mem_map.1 (known (List.mem_map_of_mem hn))
      exact ih m hm n hn hkey.symm (hms m hm)

theorem eq_of_restates_string {s : String} {w : Json} (h : (Json.string s).Restates w) :
    w = .string s := by
  cases h
  rfl

theorem eq_of_restates_number {n : Nat} {w : Json} (h : (Json.number n).Restates w) :
    w = .number n := by
  cases h
  rfl

theorem eq_of_restates_null {w : Json} (h : Json.null.Restates w) : w = .null := by
  cases h
  rfl

theorem restates_array {vs : List Json} {w : Json} (h : (Json.array vs).Restates w) :
    ∃ ws, w = .array ws ∧ List.Forall₂ Restates vs ws := by
  cases h with
  | refl => exact ⟨vs, rfl, List.forall₂_same.2 fun v _ => .refl v⟩
  | @array _ ws length_eq items =>
    exact ⟨ws, rfl, List.forall₂_iff_zip.2 ⟨length_eq, fun h => items _ h⟩⟩

/-! ## Members -/

theorem lookup_eq_some_of_mem {α : Type} {ms : List (String × α)} (nodup : (ms.map (·.1)).Nodup)
    {m : String × α} (h : m ∈ ms) : ms.lookup m.1 = some m.2 := by
  induction ms with
  | nil => cases h
  | cons l ms ih =>
    obtain ⟨hl, hms⟩ := List.nodup_cons.1 nodup
    rcases List.mem_cons.1 h with rfl | h
    · exact List.lookup_cons_self
    · have hne : m.1 ≠ l.1 := fun heq => hl (List.mem_map.2 ⟨m, h, heq⟩)
      rw [List.lookup_cons, beq_false_of_ne hne]
      exact ih hms h

/-- Members may be listed in another order, and left out if they say nothing. -/
theorem restates_of_subset {ms ns : List (String × Json)} (nodup : (ms.map (·.1)).Nodup)
    (hnodup : (ns.map (·.1)).Nodup) (hsubset : ns ⊆ ms)
    (left : ∀ m ∈ ms, m.1 ∉ ns.map (·.1) → m.2.saysNothing = true) :
    (Json.object ms).Restates (.object ns) := by
  refine .object hnodup (List.map_subset _ hsubset) (fun m hm n hn hkey => ?_) left
  have hlookup := lookup_eq_some_of_mem nodup (hsubset hn)
  rw [hkey, lookup_eq_some_of_mem nodup hm] at hlookup
  rw [Option.some.inj hlookup]
  exact .refl _

/-- What an object that restates another holds under the key of a member with value `v`. -/
def Gives (v : Json) (o : Option Json) : Prop :=
  (∃ w, o = some w ∧ v.Restates w) ∨ (o = none ∧ v.saysNothing = true)

/-- An object that restates another has each of its keys once, knows no other keys, and gives the
values. -/
theorem restates_object {ms : List (String × Json)} {w : Json} (h : (Json.object ms).Restates w)
    (nodup : (ms.map (·.1)).Nodup) :
    ∃ ns, w = .object ns ∧ (ns.map (·.1)).Nodup ∧ ns.map (·.1) ⊆ ms.map (·.1) ∧
      ∀ m ∈ ms, Gives m.2 (ns.lookup m.1) := by
  cases h with
  | refl =>
    exact ⟨ms, rfl, nodup, fun _ => id,
      fun m hm => .inl ⟨m.2, lookup_eq_some_of_mem nodup hm, .refl _⟩⟩
  | @object _ ns nodup known kept left =>
    refine ⟨ns, rfl, nodup, known, fun m hm => ?_⟩
    by_cases hkey : m.1 ∈ ns.map (·.1)
    · obtain ⟨n, hn, hname⟩ := List.mem_map.1 hkey
      exact .inl ⟨n.2, hname ▸ lookup_eq_some_of_mem nodup hn, kept m hm n hn hname⟩
    · refine .inr ⟨List.lookup_eq_none_iff.2 fun n hn => ?_, left m hm hkey⟩
      exact bne_iff_ne.2 fun heq => hkey (List.mem_map.2 ⟨n, hn, heq.symm⟩)

end EventSchema.Json
