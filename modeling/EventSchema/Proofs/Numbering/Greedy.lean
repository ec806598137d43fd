import EventSchema.Proofs.Numbering.CollisionFree
import EventSchema.Proofs.Numbering.Numberable

/-!
# Numbers in the order of names

Numbering gives the smallest free numbers of a space to the members without one, in the order of
their names: the one that comes `k`-th gets the `k`-th free number (`greedilyNumbered_of_numbered`).
What is free for the opcodes of a provider leaves out what is pinned in its tasks, and what is free
for those of a task leaves out all numbers of the provider's opcodes as well.
-/

namespace EventSchema.Numbering

/-- Each name has the number at its own place in a list of free numbers. -/
def Greedy (names : List String) (free : List Nat) (number : String → Option UInt32) : Prop :=
  ∀ (k : Nat) (name : String), names[k]? = some name →
    ∃ v : UInt32, number name = some v ∧ free[k]? = some v.toNat

/-- **Greedy numbers.** What numbering a provider `p` has found for the members without a number, as
they stand in `r`. -/
structure GreedilyNumbered (p r : Provider) : Prop where
  tasks : Greedy (unnumbered p.tasks) (free 1 239 (numbersIn p.tasks)) (numberIn r.tasks)
  opcodes : Greedy (unnumbered p.opcodes)
    (free 10 239 (numbersIn p.opcodes ++ numbersInTasks p)) (numberIn r.opcodes)
  taskOpcodes : ∀ task t, p.tasks.find? task = some t →
    Greedy (unnumbered t.opcodes) (free 10 239 (numbersIn r.opcodes ++ numbersInTasks p))
      (taskNumber r task)
  events : Greedy (unnumbered p.events) (free 1000 (UInt32.size - 1) (numbersIn p.events))
    (numberIn r.events)

/-- A table is supplied greedily, where there are enough free numbers and all of them are numbers of
32 bits. -/
theorem greedy_supplied {α : Type} [Numbered α] [LawfulNumbered α] {t : Table String α}
    {lo hi : Nat} {excluded : List Nat} (hhi : hi < UInt32.size)
    (fit : (unnumbered t).length ≤ (free lo hi excluded).length) :
    Greedy (unnumbered t) (free lo hi excluded)
      (numberIn (withAssigned t (supplied lo hi excluded t))) := by
  intro k name hk
  have hlt : k < (free lo hi excluded).length :=
    Nat.lt_of_lt_of_le (List.getElem?_eq_some_iff.1 hk).1 fit
  have hfree := List.getElem?_eq_getElem hlt
  have hle := (mem_free.1 (List.mem_of_getElem? hfree)).2.1
  refine ⟨UInt32.ofNat (free lo hi excluded)[k], ?_, ?_⟩
  · rw [numberIn_supplied hk, List.getElem?_map, hfree, Option.map_some]
  · rw [hfree, UInt32.toNat_ofNat_of_lt' (by omega)]

/-- The opcodes of a task are those that it had, supplied with numbers. -/
theorem taskNumber_supply {p : Provider} {task : String} {t : Task}
    (ht : p.tasks.find? task = some t) :
    taskNumber (supply p) task =
      numberIn (withAssigned t.opcodes (supplied 10 239 (excludedInTasks p) t.opcodes)) := by
  have hrelated : Table.Related Filled p.tasks (tasksSupplied p) := related_withAssigned
  obtain ⟨u, hu, hfilled⟩ := hrelated.of_left ht
  funext name
  have hfind : (supply p).tasks.find? task = some (withOpcodesSupplied (excludedInTasks p) u) := by
    rw [supply, Table.find?_mapKeyed, hu, Option.map_some]
  rw [taskNumber, hfind, Option.bind_some, withOpcodesSupplied, opcodes_of_filled hfilled]

/-- **Numbers in the order of names.** -/
theorem greedilyNumbered_of_numbered {p r : Provider} (h : p.numbered = .ok r) :
    GreedilyNumbered p r := by
  obtain ⟨needs, rfl⟩ := numbered_eq_ok_iff.1 h
  refine ⟨?_, ?_, fun task t ht => ?_, ?_⟩
  · intro k name hk
    have hfit := (length_unnumbered_le_iff needs.tasksWithin needs.tasksDistinct).2 needs.tasksFit
    obtain ⟨v, hv, hfree⟩ := greedy_supplied (by decide) hfit k name hk
    refine ⟨v, ?_, hfree⟩
    rw [numberIn, supply, Table.find?_mapKeyed, ← hv, numberIn, ← tasksSupplied]
    cases (tasksSupplied p).find? name <;> rfl
  · exact greedy_supplied (by decide) needs.opcodes.fit
  · rw [taskNumber_supply ht]
    exact greedy_supplied (by decide) (needs.taskOpcodes task t ht).fit
  · exact greedy_supplied (by decide) needs.eventsFit

theorem greedilyNumbered_mixed :
    mixed.numbered = .ok mixedNumbered ∧ GreedilyNumbered mixed mixedNumbered :=
  ⟨rfl, greedilyNumbered_of_numbered rfl⟩

end EventSchema.Numbering
