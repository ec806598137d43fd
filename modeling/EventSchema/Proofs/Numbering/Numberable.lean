import EventSchema.Proofs.Numbering.Supply

/-!
# When a provider can be numbered

A provider can be numbered exactly when its pinned numbers are allowed and apart and every space has
as many free numbers as it has members without one (`numbered_iff_numberable`). What comes out is
then determined: each table is supplied with its free numbers (`numbered_eq_ok_iff`).
-/

namespace EventSchema.Numbering

/-! ## One space -/

section

variable {α : Type} [Numbered α] {t : Table String α}

theorem length_unnumbered_add_length (t : Table String α) :
    (unnumbered t).length + (numbersIn t).length = t.size := by
  rw [unnumbered_eq, numbersIn_eq, numbers, List.length_map, Table.size, slots]
  induction t.entries with
  | nil => rfl
  | cons e rest ih =>
    rw [List.map_cons]
    cases Numbered.value e.2 with
    | none =>
      rw [vacant, pins, List.length_cons, List.length_cons]
      omega
    | some v =>
      rw [vacant, pins, List.length_cons, List.length_cons]
      omega

/-- Where all members are numbered from one range, there are enough free numbers exactly when the
range has a number for each member. -/
theorem length_unnumbered_le_iff {lo hi : Nat} (within : Within lo hi t) (distinct : Distinct t) :
    (unnumbered t).length ≤ (free lo hi (numbersIn t)).length ↔ t.size ≤ hi + 1 - lo := by
  have hsize := length_unnumbered_add_length t
  have hnodup : (numbersIn t).Nodup := numbersIn_eq t ▸ nodup_of_distinct distinct
  have hfree := length_free_add_length hnodup fun n hn => by
    obtain ⟨name, v, hv, rfl⟩ := mem_numbersIn.1 hn
    exact within name v hv
  omega

end

/-! ## What the tables become -/

/-- The tasks, supplied with numbers. -/
def tasksSupplied (p : Provider) : Table String Task :=
  withAssigned p.tasks (supplied 1 239 (numbersIn p.tasks) p.tasks)

/-- The provider with its tasks supplied. -/
def withTasksSupplied (p : Provider) : Provider := { p with tasks := tasksSupplied p }

/-- The opcodes of the provider, supplied with numbers that no task has for an opcode. -/
def opcodesSupplied (p : Provider) : Table String Opcode :=
  withAssigned p.opcodes (supplied 10 239 (numbersIn p.opcodes ++ numbersInTasks p) p.opcodes)

/-- What no opcode of a task may be supplied with: the numbers of the provider's opcodes and those
that were pinned on an opcode of any task. -/
def excludedInTasks (p : Provider) : List Nat :=
  numbersIn (opcodesSupplied p) ++ numbersInTasks p

/-- A task with its opcodes supplied with numbers. -/
def withOpcodesSupplied (excluded : List Nat) (t : Task) : Task :=
  { t with opcodes := withAssigned t.opcodes (supplied 10 239 excluded t.opcodes) }

/-- The events, supplied with numbers. -/
def eventsSupplied (p : Provider) : Table String Event :=
  withAssigned p.events (supplied 1000 (UInt32.size - 1) (numbersIn p.events) p.events)

/-- The provider with every table supplied. -/
def supply (p : Provider) : Provider := { p with
  tasks := (tasksSupplied p).mapKeyed fun _ => withOpcodesSupplied (excludedInTasks p)
  opcodes := opcodesSupplied p
  events := eventsSupplied p }

/-! ## Each pass -/

theorem checkChannels_eq_ok_iff {p q : Provider} :
    checkChannels p = .ok () q ↔ (Within 1 255 p.channels ∧ Distinct p.channels) ∧ q = p := by
  rw [checkChannels_eq_ok, claimable_iff]
  refine and_congr_left' ⟨fun ⟨hallowed, _, hdistinct⟩ => ⟨fun name v hv => ?_, hdistinct⟩,
    fun ⟨hwithin, hdistinct⟩ => ⟨fun name v hv => ?_, fun _ _ _ => List.not_mem_nil, hdistinct⟩⟩
  · exact inRange_iff.1 (hallowed name v hv)
  · exact inRange_iff.2 (hwithin name v hv)

theorem numberTasks_eq_ok_iff {p q : Provider} :
    numberTasks p = .ok () q ↔
      (Within 1 239 p.tasks ∧ Distinct p.tasks ∧ p.tasks.size ≤ 239) ∧
        q = withTasksSupplied p := by
  have asc := useAll_ascending (pins (slots p.tasks)) .nil
  have hmem := fun n => mem_useAll_slots_nil (t := p.tasks) (n := n)
  rw [numberTasks_eq_ok, claimable_iff, filling, fill_slots_assigned asc hmem,
    fill_slots_fault?_eq_none_iff asc hmem, ← and_assoc]
  refine and_congr_left' ⟨?_, ?_⟩
  · rintro ⟨⟨hallowed, -, hdistinct⟩, hfit⟩
    have hwithin : Within 1 239 p.tasks := fun name v hv => inRange_iff.1 (hallowed name v hv)
    exact ⟨hwithin, hdistinct, (length_unnumbered_le_iff hwithin hdistinct).1 hfit⟩
  · rintro ⟨hwithin, hdistinct, hsize⟩
    exact ⟨⟨fun name v hv => inRange_iff.2 (hwithin name v hv), fun _ _ _ => List.not_mem_nil,
      hdistinct⟩, (length_unnumbered_le_iff hwithin hdistinct).2 hsize⟩

/-- What the opcodes of a provider need to be numbered. -/
structure OpcodesNumberable (p : Provider) : Prop where
  within : ∀ name v, numberIn p.opcodes name = some v →
    (10 ≤ v.toNat ∧ v.toNat ≤ 239) ∨ predefinedOpcode? name = some v
  distinct : Distinct p.opcodes
  apart : ∀ task name v, taskNumber p task name = some v →
    ∀ other, numberIn p.opcodes other ≠ some v
  fit : (unnumbered p.opcodes).length ≤
    (free 10 239 (numbersIn p.opcodes ++ numbersInTasks p)).length

theorem opcodeAllowed_iff {name : String} {v : UInt32} :
    opcodeAllowed name v = true ↔
      (10 ≤ v.toNat ∧ v.toNat ≤ 239) ∨ predefinedOpcode? name = some v := by
  rw [opcodeAllowed, Bool.or_eq_true, beq_iff_eq, inRange_iff]
  exact or_comm

/-- What is in use before the opcodes of the provider are filled in. -/
theorem mem_useAll_pinnedOnTasks {p : Provider} {n : Nat} :
    n ∈ useAll (pins (slots p.opcodes)) (pinnedOnTasks p) ↔
      n ∈ numbersIn p.opcodes ++ numbersInTasks p := by
  rw [mem_useAll_slots, List.mem_append, List.mem_append, mem_pinnedOnTasks, mem_numbersInTasks]

theorem numberOpcodes_eq_ok_iff {p q : Provider} {taken : List Nat} :
    numberOpcodes p = .ok taken q ↔
      OpcodesNumberable p ∧
        taken = (filling .opcodes (pinnedOnTasks p) (slots p.opcodes)).used ∧
        q = { p with opcodes := opcodesSupplied p } := by
  have asc := useAll_ascending (pins (slots p.opcodes)) (pinnedOnTasks_ascending p)
  have hmem := fun n => mem_useAll_pinnedOnTasks (p := p) (n := n)
  rw [numberOpcodes_eq_ok, claimable_iff, filling, fill_slots_assigned asc hmem,
    fill_slots_fault?_eq_none_iff asc hmem, ← and_assoc]
  refine and_congr_left' ⟨?_, ?_⟩
  · rintro ⟨⟨hallowed, hunused, hdistinct⟩, hfit⟩
    refine ⟨fun name v hv => opcodeAllowed_iff.1 (hallowed name v hv), hdistinct, ?_, hfit⟩
    intro task name v hv other hother
    exact hunused other v hother (mem_pinnedOnTasks.2 ⟨task, name, v, hv, rfl⟩)
  · rintro ⟨hwithin, hdistinct, hapart, hfit⟩
    refine ⟨⟨fun name v hv => opcodeAllowed_iff.2 (hwithin name v hv), ?_, hdistinct⟩, hfit⟩
    intro other v hother hmem
    obtain ⟨task, name, w, hw, heq⟩ := mem_pinnedOnTasks.1 hmem
    exact hapart task name w hw other (UInt32.toNat_inj.1 heq ▸ hother)

/-- What is in use after the opcodes of the provider were numbered. -/
theorem mem_filling_opcodes_used {p : Provider} {n : Nat} :
    n ∈ (filling .opcodes (pinnedOnTasks p) (slots p.opcodes)).used ↔ n ∈ excludedInTasks p := by
  have asc := useAll_ascending (pins (slots p.opcodes)) (pinnedOnTasks_ascending p)
  have hmem := fun n => mem_useAll_pinnedOnTasks (p := p) (n := n)
  rw [filling, mem_fill_used, fill_slots_assigned asc hmem, hmem, excludedInTasks, List.mem_append,
    List.mem_append, opcodesSupplied, mem_numbersIn_supplied, or_assoc]
  rfl

/-- What the opcodes of a task need to be numbered. -/
structure TaskOpcodesNumberable (excluded : List Nat) (t : Task) : Prop where
  within : Within 10 239 t.opcodes
  distinct : Distinct t.opcodes
  fit : (unnumbered t.opcodes).length ≤ (free 10 239 excluded).length

theorem numberTaskOpcodes_eq_ok_iff {p q : Provider} {taken excluded : List Nat}
    (asc : taken.Pairwise (· < ·)) (htaken : ∀ n, n ∈ taken ↔ n ∈ excluded)
    (hpinned : ∀ n ∈ numbersInTasks p, n ∈ excluded) :
    numberTaskOpcodes taken p = .ok () q ↔
      (∀ name t, p.tasks.find? name = some t → TaskOpcodesNumberable excluded t) ∧
        q = { p with tasks := p.tasks.mapKeyed fun _ => withOpcodesSupplied excluded } := by
  have hmem : ∀ name t, p.tasks.find? name = some t →
      ∀ n, n ∈ (useAll (pins (slots t.opcodes)) []).foldr use taken ↔ n ∈ excluded := by
    intro name t ht n
    rw [mem_foldr_use, htaken, mem_useAll_slots_nil]
    refine or_iff_right_of_imp fun hn => hpinned n ?_
    exact List.mem_flatMap.2 ⟨t, Table.mem_values_iff.2 ⟨name, ht⟩, hn⟩
  have htable : p.tasks.mapKeyed (withOpcodesNumbered taken) =
      p.tasks.mapKeyed fun _ => withOpcodesSupplied excluded := by
    refine Table.ext_find? fun name => ?_
    rw [Table.find?_mapKeyed, Table.find?_mapKeyed]
    cases ht : p.tasks.find? name with
    | none => rfl
    | some t =>
      rw [Option.map_some, Option.map_some, withOpcodesNumbered, taskFilling,
        fill_slots_assigned (taskFilling_ascending asc t) (hmem name t ht)]
      rfl
  rw [numberTaskOpcodes_eq_ok, htable]
  refine and_congr_left' (forall_congr' fun name => forall_congr' fun t =>
    forall_congr' fun ht => ?_)
  rw [TaskClaimable, claimable_iff, taskFilling,
    fill_slots_fault?_eq_none_iff (taskFilling_ascending asc t) (hmem name t ht)]
  constructor
  · rintro ⟨⟨hallowed, -, hdistinct⟩, hfit⟩
    exact ⟨fun name v hv => inRange_iff.1 (hallowed name v hv), hdistinct, hfit⟩
  · rintro ⟨hwithin, hdistinct, hfit⟩
    exact ⟨⟨fun name v hv => inRange_iff.2 (hwithin name v hv), fun _ _ _ => List.not_mem_nil,
      hdistinct⟩, hfit⟩

theorem numberEvents_eq_ok_iff {p q : Provider} :
    numberEvents p = .ok () q ↔
      (Distinct p.events ∧
        (unnumbered p.events).length ≤
          (free 1000 (UInt32.size - 1) (numbersIn p.events)).length) ∧
        q = { p with events := eventsSupplied p } := by
  have asc := useAll_ascending (pins (slots p.events)) .nil
  have hmem := fun n => mem_useAll_slots_nil (t := p.events) (n := n)
  rw [numberEvents_eq_ok, claimable_iff, filling, fill_slots_assigned asc hmem,
    fill_slots_fault?_eq_none_iff asc hmem, ← and_assoc]
  refine and_congr_left' (and_congr_left' ⟨fun h => h.2.2, fun h => ?_⟩)
  exact ⟨fun _ _ _ => rfl, fun _ _ _ => List.not_mem_nil, h⟩

/-! ## All passes -/

/-- **What a provider needs to be numbered.** -/
structure Numberable (p : Provider) : Prop where
  channelsWithin : Within 1 255 p.channels
  channelsDistinct : Distinct p.channels
  tasksWithin : Within 1 239 p.tasks
  tasksDistinct : Distinct p.tasks
  tasksFit : p.tasks.size ≤ 239
  opcodes : OpcodesNumberable p
  taskOpcodes : ∀ task t, p.tasks.find? task = some t →
    TaskOpcodesNumberable (excludedInTasks p) t
  eventsDistinct : Distinct p.events
  eventsFit : (unnumbered p.events).length ≤
    (free 1000 (UInt32.size - 1) (numbersIn p.events)).length

/-! Supplying the tasks with numbers leaves their opcodes as they are. -/

theorem opcodes_of_filled {t u : Task} (h : Filled t u) : u.opcodes = t.opcodes := by
  rcases h with rfl | ⟨-, v, rfl⟩ <;> rfl

theorem numbersInTasks_withTasksSupplied (p : Provider) :
    numbersInTasks (withTasksSupplied p) = numbersInTasks p := by
  have hopcodes : (tasksSupplied p).values.map Task.opcodes = p.tasks.values.map Task.opcodes := by
    rw [tasksSupplied, withAssigned, Table.values, Table.values, Table.mapKeyed, List.map_map,
      List.map_map, List.map_map]
    refine List.map_congr_left fun e _ => ?_
    simp only [Function.comp_apply]
    split <;> rfl
  have hflat := congrArg (List.flatMap numbersIn) hopcodes
  rwa [List.flatMap_map, List.flatMap_map] at hflat

theorem opcodesNumberable_withTasksSupplied {p : Provider} :
    OpcodesNumberable (withTasksSupplied p) ↔ OpcodesNumberable p := by
  have hnumber : ∀ task name, taskNumber (withTasksSupplied p) task name = taskNumber p task name :=
    taskNumber_withAssigned _
  constructor
  · rintro ⟨hwithin, hdistinct, hapart, hfit⟩
    rw [numbersInTasks_withTasksSupplied] at hfit
    refine ⟨hwithin, hdistinct, fun task name v hv => ?_, hfit⟩
    exact hapart task name v ((hnumber _ _).trans hv)
  · rintro ⟨hwithin, hdistinct, hapart, hfit⟩
    rw [← numbersInTasks_withTasksSupplied] at hfit
    refine ⟨hwithin, hdistinct, fun task name v hv => ?_, hfit⟩
    exact hapart task name v ((hnumber _ _).symm.trans hv)

theorem opcodesSupplied_withTasksSupplied (p : Provider) :
    opcodesSupplied (withTasksSupplied p) = opcodesSupplied p := by
  rw [opcodesSupplied, numbersInTasks_withTasksSupplied]
  rfl

theorem excludedInTasks_withTasksSupplied (p : Provider) :
    excludedInTasks (withTasksSupplied p) = excludedInTasks p := by
  rw [excludedInTasks, opcodesSupplied_withTasksSupplied, numbersInTasks_withTasksSupplied,
    excludedInTasks]

theorem forall_tasksSupplied_iff {p : Provider} {excluded : List Nat} :
    (∀ name t, (tasksSupplied p).find? name = some t → TaskOpcodesNumberable excluded t) ↔
      ∀ name t, p.tasks.find? name = some t → TaskOpcodesNumberable excluded t := by
  have hrelated : Table.Related Filled p.tasks (tasksSupplied p) := related_withAssigned
  constructor
  · intro h name t ht
    obtain ⟨u, hu, hfilled⟩ := hrelated.of_left ht
    obtain ⟨hwithin, hdistinct, hfit⟩ := h name u hu
    rw [opcodes_of_filled hfilled] at hwithin hdistinct hfit
    exact ⟨hwithin, hdistinct, hfit⟩
  · intro h name u hu
    obtain ⟨t, ht, hfilled⟩ := hrelated.of_right hu
    obtain ⟨hwithin, hdistinct, hfit⟩ := h name t ht
    rw [← opcodes_of_filled hfilled] at hwithin hdistinct hfit
    exact ⟨hwithin, hdistinct, hfit⟩

/-- The last two passes, after the tasks and the opcodes of the provider were supplied. -/
theorem numberTaskOpcodes_supplied_eq_ok_iff {p q : Provider} :
    numberTaskOpcodes
        (filling .opcodes (pinnedOnTasks (withTasksSupplied p)) (slots p.opcodes)).used
        { withTasksSupplied p with opcodes := opcodesSupplied p } = .ok () q ↔
      (∀ name t, p.tasks.find? name = some t → TaskOpcodesNumberable (excludedInTasks p) t) ∧
        q = { supply p with events := p.events } := by
  have asc : (filling .opcodes (pinnedOnTasks (withTasksSupplied p))
      (slots p.opcodes)).used.Pairwise (· < ·) :=
    fill_used_ascending (useAll_ascending _ (pinnedOnTasks_ascending _))
  have htaken : ∀ n, n ∈ (filling .opcodes (pinnedOnTasks (withTasksSupplied p))
      (slots p.opcodes)).used ↔ n ∈ excludedInTasks p := fun n =>
    mem_filling_opcodes_used.trans (by rw [excludedInTasks_withTasksSupplied])
  refine (numberTaskOpcodes_eq_ok_iff asc htaken fun n hn => ?_).trans
    (and_congr_left' forall_tasksSupplied_iff)
  exact List.mem_append_right _ (numbersInTasks_withTasksSupplied p ▸ hn)

/-- **Numbering supplies every table, if the provider can be numbered at all.** -/
theorem numbered_eq_ok_iff {p r : Provider} : p.numbered = .ok r ↔ Numberable p ∧ r = supply p := by
  rw [numbered_eq_ok, numberAll_eq_ok]
  constructor
  · rintro ⟨p₁, p₂, p₃, taken, hchannels, htasks, hopcodes, htaskOpcodes, hevents⟩
    obtain ⟨⟨hchannelsWithin, hchannelsDistinct⟩, -⟩ := checkChannels_eq_ok_iff.1 hchannels
    obtain ⟨⟨htasksWithin, htasksDistinct, htasksFit⟩, rfl⟩ := numberTasks_eq_ok_iff.1 htasks
    obtain ⟨hneeds, rfl, rfl⟩ := numberOpcodes_eq_ok_iff.1 hopcodes
    rw [opcodesSupplied_withTasksSupplied] at htaskOpcodes
    obtain ⟨htaskNeeds, rfl⟩ := numberTaskOpcodes_supplied_eq_ok_iff.1 htaskOpcodes
    obtain ⟨⟨heventsDistinct, heventsFit⟩, rfl⟩ := numberEvents_eq_ok_iff.1 hevents
    exact ⟨⟨hchannelsWithin, hchannelsDistinct, htasksWithin, htasksDistinct, htasksFit,
      opcodesNumberable_withTasksSupplied.1 hneeds, htaskNeeds, heventsDistinct, heventsFit⟩, rfl⟩
  · rintro ⟨h, rfl⟩
    refine ⟨_, _, { supply p with events := p.events }, _,
      checkChannels_eq_ok_iff.2 ⟨⟨h.channelsWithin, h.channelsDistinct⟩, rfl⟩,
      numberTasks_eq_ok_iff.2 ⟨⟨h.tasksWithin, h.tasksDistinct, h.tasksFit⟩, rfl⟩,
      numberOpcodes_eq_ok_iff.2 ⟨opcodesNumberable_withTasksSupplied.2 h.opcodes, rfl, rfl⟩, ?_,
      numberEvents_eq_ok_iff.2 ⟨⟨h.eventsDistinct, h.eventsFit⟩, rfl⟩⟩
    rw [opcodesSupplied_withTasksSupplied]
    exact numberTaskOpcodes_supplied_eq_ok_iff.2 ⟨h.taskOpcodes, rfl⟩

/-- **When a provider can be numbered.** There is no other fault than one of its contents. -/
theorem numbered_iff_numberable (p : Provider) :
    ((∃ r, p.numbered = .ok r) ↔ Numberable p) ∧
      (¬ Numberable p → ∃ e, p.numbered = .error e ∧ e.kind = .invalidContent) := by
  have hiff : (∃ r, p.numbered = .ok r) ↔ Numberable p :=
    ⟨fun ⟨r, hr⟩ => (numbered_eq_ok_iff.1 hr).1, fun h => ⟨_, numbered_eq_ok_iff.2 ⟨h, rfl⟩⟩⟩
  refine ⟨hiff, fun hnot => ?_⟩
  rw [← hiff] at hnot
  rw [Provider.numbered] at hnot ⊢
  generalize numberAll p = result at hnot ⊢
  cases result with
  | ok u r => exact absurd ⟨r, rfl⟩ hnot
  | error fault r => exact ⟨_, rfl, rfl⟩

end EventSchema.Numbering
