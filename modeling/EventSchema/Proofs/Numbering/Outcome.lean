import EventSchema.Proofs.Numbering.Passes

/-!
# What each pass has established

For each pass over a provider, what holds after it has succeeded: `ChannelsChecked`,
`TasksNumbered`, `OpcodesNumbered`, `TaskOpcodesNumbered` and `EventsNumbered`. A provider that is
numbered has gone through all of them in turn (`passes_of_numbered`).
-/

namespace EventSchema.Numbering

/-! ## One space -/

/-- Every number in a table lies in a range. -/
def Within {α : Type} [Numbered α] (lo hi : Nat) (t : Table String α) : Prop :=
  ∀ name v, numberIn t name = some v → lo ≤ v.toNat ∧ v.toNat ≤ hi

section

variable {α : Type} [Numbered α] {space : NumberSpace} {taken : List Nat}
  {t : Table String α} {allowed : String → UInt32 → Bool}

theorem inRange_iff {v : UInt32} :
    inRange space v = true ↔ space.first ≤ v.toNat ∧ v.toNat ≤ space.last := by
  rw [inRange, decide_eq_true_iff]

theorem mem_useAll_pins {name : String} {v : UInt32} (h : numberIn t name = some v) :
    v.toNat ∈ useAll (pins (slots t)) taken :=
  mem_useAll.2 (.inl (mem_numbers_slots.2 ⟨name, h⟩))

/-- What is found for a space is in its range and was neither pinned in it nor taken. -/
theorem fresh_of_mem_filling (asc : taken.Pairwise (· < ·)) {name : String} {v : UInt32}
    (h : (name, v) ∈ (filling space taken (slots t)).assigned) :
    space.first ≤ v.toNat ∧ v.toNat ≤ space.last ∧ v.toNat ∉ taken := by
  obtain ⟨lo, hi, hfree⟩ := fresh_of_mem_assigned (useAll_ascending _ asc) h
  exact ⟨lo, hi, fun hmem => hfree (mem_useAll.2 (.inr hmem))⟩

theorem distinct_filling [LawfulNumbered α] (asc : taken.Pairwise (· < ·))
    (claimable : Claimable allowed taken (slots t)) :
    Distinct (withAssigned t (filling space taken (slots t)).assigned) :=
  distinct_withAssigned (distinct_of_nodup claimable.nodup) (useAll_ascending _ asc)
    fun _ _ h => mem_useAll_pins h

/-- Every number is then in use. -/
theorem mem_filling_used [LawfulNumbered α] {name : String} {v : UInt32}
    (h : numberIn (withAssigned t (filling space taken (slots t)).assigned) name = some v) :
    v.toNat ∈ (filling space taken (slots t)).used := by
  rw [filling, mem_fill_used]
  rcases numberIn_withAssigned_cases h with h | ⟨-, h⟩
  · exact .inr (mem_useAll_pins h)
  · exact .inl (mem_numbers.2 ⟨name, v, h, rfl⟩)

theorem allowed_of_numberIn (claimable : Claimable allowed taken (slots t)) {name : String}
    {v : UInt32} (h : numberIn t name = some v) : allowed name v = true :=
  claimable.allowed (name, v) (mem_pins_slots.2 h)

theorem mem_filling_used_of_taken {n : Nat} (h : n ∈ taken) :
    n ∈ (filling space taken (slots t)).used :=
  mem_fill_used.2 (.inr (mem_useAll.2 (.inr h)))

/-- No number is one that was taken before. -/
theorem not_mem_taken [LawfulNumbered α] (asc : taken.Pairwise (· < ·))
    (claimable : Claimable allowed taken (slots t)) {name : String} {v : UInt32}
    (h : numberIn (withAssigned t (filling space taken (slots t)).assigned) name = some v) :
    v.toNat ∉ taken := by
  rcases numberIn_withAssigned_cases h with h | ⟨-, h⟩
  · exact claimable.unused _ (mem_numbers_slots.2 ⟨name, h⟩)
  · exact (fresh_of_mem_filling asc h).2.2

/-- Where only numbers in range may be pinned, all numbers are in range. -/
theorem within_filling [LawfulNumbered α] (asc : taken.Pairwise (· < ·))
    (claimable : Claimable (fun _ v => inRange space v) taken (slots t)) :
    Within space.first space.last (withAssigned t (filling space taken (slots t)).assigned) := by
  intro name v h
  rcases numberIn_withAssigned_cases h with h | ⟨-, h⟩
  · exact inRange_iff.1 (allowed_of_numberIn claimable h)
  · obtain ⟨lo, hi, -⟩ := fresh_of_mem_filling asc h
    exact ⟨lo, hi⟩

end

/-! ## Numbers pinned in tasks -/

/-- The numbers pinned on the opcodes of some tasks. -/
theorem mem_pinnedOn {tasks : List Task} {n : Nat} :
    n ∈ tasks.foldr (fun t used =>
        (t.opcodes.values.filterMap Opcode.value).foldr (fun v => use v.toNat) used) [] ↔
      ∃ t ∈ tasks, ∃ name v, numberIn t.opcodes name = some v ∧ v.toNat = n := by
  induction tasks with
  | nil => simp
  | cons t rest ih =>
    have hown : n ∈ (t.opcodes.values.filterMap Opcode.value).map UInt32.toNat ↔
        ∃ name v, numberIn t.opcodes name = some v ∧ v.toNat = n := by
      simp only [List.mem_map, List.mem_filterMap, Table.mem_values_iff, numberIn,
        Option.bind_eq_some_iff]
      constructor
      · rintro ⟨v, ⟨o, ⟨name, ho⟩, hv⟩, rfl⟩
        exact ⟨name, v, ⟨o, ho, hv⟩, rfl⟩
      · rintro ⟨name, v, ⟨o, ho, hv⟩, rfl⟩
        exact ⟨v, ⟨o, ⟨name, ho⟩, hv⟩, rfl⟩
    rw [List.foldr_cons, ← List.foldr_map, mem_foldr_use, hown, ih]
    simp only [List.mem_cons, exists_eq_or_imp]

theorem mem_pinnedOnTasks {p : Provider} {n : Nat} :
    n ∈ pinnedOnTasks p ↔ ∃ task name v, taskNumber p task name = some v ∧ v.toNat = n := by
  rw [pinnedOnTasks, mem_pinnedOn]
  constructor
  · rintro ⟨t, ht, name, v, hv, rfl⟩
    obtain ⟨task, ht⟩ := Table.mem_values_iff.1 ht
    exact ⟨task, name, v, Option.bind_eq_some_iff.2 ⟨t, ht, hv⟩, rfl⟩
  · rintro ⟨task, name, v, hv, rfl⟩
    obtain ⟨t, ht, hv⟩ := Option.bind_eq_some_iff.1 hv
    exact ⟨t, Table.mem_values_iff.2 ⟨task, ht⟩, name, v, hv, rfl⟩

theorem pinnedOnTasks_ascending (p : Provider) : (pinnedOnTasks p).Pairwise (· < ·) := by
  rw [pinnedOnTasks]
  induction p.tasks.values with
  | nil => exact .nil
  | cons t rest ih =>
    rw [List.foldr_cons, ← List.foldr_map]
    exact foldr_use_ascending _ ih

/-- Numbering the tasks themselves leaves their opcodes as they are. -/
theorem taskNumber_withAssigned {p : Provider} (assigned : List (String × UInt32))
    (task name : String) :
    taskNumber { p with tasks := withAssigned p.tasks assigned } task name =
      taskNumber p task name := by
  rw [taskNumber, taskNumber, withAssigned, Table.find?_mapKeyed]
  cases p.tasks.find? task with
  | none => rfl
  | some t =>
    simp only [Option.map_some, Option.bind_some]
    split <;> rfl

/-! ## The opcodes of a task -/

section

variable {taken : List Nat} {task : String} {t : Task}

theorem taskFilling_ascending (asc : taken.Pairwise (· < ·)) (t : Task) :
    ((useAll (pins (slots t.opcodes)) []).foldr use taken).Pairwise (· < ·) :=
  foldr_use_ascending _ asc

/-- What is found in a task is in range and was neither pinned in it nor taken. -/
theorem fresh_of_mem_taskFilling (asc : taken.Pairwise (· < ·)) {name : String} {v : UInt32}
    (h : (name, v) ∈ (taskFilling taken task t).assigned) :
    10 ≤ v.toNat ∧ v.toNat ≤ 239 ∧ v.toNat ∉ taken := by
  obtain ⟨lo, hi, hfree⟩ := fresh_of_mem_assigned (taskFilling_ascending asc t) h
  exact ⟨lo, hi, fun hmem => hfree (mem_foldr_use.2 (.inr hmem))⟩

theorem distinct_withOpcodesNumbered (asc : taken.Pairwise (· < ·))
    (claimable : TaskClaimable task t) : Distinct (withOpcodesNumbered taken task t).opcodes :=
  distinct_withAssigned (distinct_of_nodup claimable.nodup) (taskFilling_ascending asc t)
    fun _ _ h => mem_foldr_use.2 (.inl (mem_useAll_pins h))

theorem within_withOpcodesNumbered (asc : taken.Pairwise (· < ·))
    (claimable : TaskClaimable task t) :
    Within 10 239 (withOpcodesNumbered taken task t).opcodes := by
  intro name v h
  rcases numberIn_withAssigned_cases h with h | ⟨-, h⟩
  · exact inRange_iff.1 (allowed_of_numberIn claimable h)
  · obtain ⟨lo, hi, -⟩ := fresh_of_mem_taskFilling asc h
    exact ⟨lo, hi⟩

/-- Where the number of a task's opcode comes from. -/
theorem taskNumber_cases {p : Provider} {name : String} {v : UInt32}
    (h : taskNumber { p with tasks := p.tasks.mapKeyed (withOpcodesNumbered taken) } task name =
      some v) :
    taskNumber p task name = some v ∨
      taskNumber p task name = none ∧ ∃ t, (name, v) ∈ (taskFilling taken task t).assigned := by
  obtain ⟨u, hu, hv⟩ := Option.bind_eq_some_iff.1 h
  rw [Table.find?_mapKeyed] at hu
  obtain ⟨t, ht, rfl⟩ := Option.map_eq_some_iff.1 hu
  rw [taskNumber, ht, Option.bind_some]
  rcases numberIn_withAssigned_cases hv with hv | ⟨hnone, hv⟩
  · exact .inl hv
  · exact .inr ⟨hnone, t, hv⟩

/-- Numbering the opcodes of tasks leaves the numbers of the tasks as they are. -/
theorem numberIn_mapKeyed_withOpcodesNumbered (tasks : Table String Task) (name : String) :
    numberIn (tasks.mapKeyed (withOpcodesNumbered taken)) name = numberIn tasks name := by
  rw [numberIn, numberIn, Table.find?_mapKeyed]
  cases tasks.find? name <;> rfl

end

/-! ## Each pass -/

/-- What checking the channels has established. -/
structure ChannelsChecked (p : Provider) : Prop where
  distinct : Distinct p.channels
  within : Within 1 255 p.channels

theorem channelsChecked_of_ok {p q : Provider} (h : checkChannels p = .ok () q) :
    ChannelsChecked p := by
  obtain ⟨claimable, -⟩ := checkChannels_eq_ok.1 h
  exact ⟨distinct_of_nodup claimable.nodup,
    fun name v hv => inRange_iff.1 (allowed_of_numberIn claimable hv)⟩

/-- What numbering the tasks leads to. -/
structure TasksNumbered (p q : Provider) : Prop where
  rest : q = { p with tasks := q.tasks }
  complete : Complete q.tasks
  distinct : Distinct q.tasks
  within : Within 1 239 q.tasks
  taskNumber_eq : ∀ task name, taskNumber q task name = taskNumber p task name

theorem tasksNumbered_of_ok {p q : Provider} (h : numberTasks p = .ok () q) :
    TasksNumbered p q := by
  obtain ⟨claimable, hfault, rfl⟩ := numberTasks_eq_ok.1 h
  exact {
    rest := rfl
    complete := complete_withAssigned hfault
    distinct := distinct_filling .nil claimable
    within := within_filling .nil claimable
    taskNumber_eq := taskNumber_withAssigned _ }

/-- What numbering the opcodes of the provider leads to. -/
structure OpcodesNumbered (taken : List Nat) (p q : Provider) : Prop where
  rest : q = { p with opcodes := q.opcodes }
  complete : Complete q.opcodes
  distinct : Distinct q.opcodes
  within : ∀ name v, numberIn q.opcodes name = some v →
    (10 ≤ v.toNat ∧ v.toNat ≤ 239) ∨ predefinedOpcode? name = some v
  ascending : taken.Pairwise (· < ·)
  taken_opcode : ∀ name v, numberIn q.opcodes name = some v → v.toNat ∈ taken
  taken_pinned : ∀ task name v, taskNumber p task name = some v → v.toNat ∈ taken
  apart : ∀ task name v, taskNumber p task name = some v → ∀ other, numberIn q.opcodes other ≠ some v

theorem opcodesNumbered_of_ok {p q : Provider} {taken : List Nat}
    (h : numberOpcodes p = .ok taken q) : OpcodesNumbered taken p q := by
  obtain ⟨claimable, hfault, rfl, rfl⟩ := numberOpcodes_eq_ok.1 h
  have asc := pinnedOnTasks_ascending p
  have hpinned : ∀ task name v, taskNumber p task name = some v → v.toNat ∈ pinnedOnTasks p :=
    fun task name v hv => mem_pinnedOnTasks.2 ⟨task, name, v, hv, rfl⟩
  refine {
    rest := rfl
    complete := complete_withAssigned hfault
    distinct := distinct_filling asc claimable
    within := fun name v hv => ?_
    ascending := fill_used_ascending (useAll_ascending _ asc)
    taken_opcode := fun name v hv => mem_filling_used hv
    taken_pinned := fun task name v hv => mem_filling_used_of_taken (hpinned task name v hv)
    apart := fun task name v hv other hother =>
      not_mem_taken asc claimable hother (hpinned task name v hv) }
  rcases numberIn_withAssigned_cases hv with hv | ⟨-, hv⟩
  · have hallowed := allowed_of_numberIn claimable hv
    rw [opcodeAllowed, Bool.or_eq_true, beq_iff_eq, inRange_iff] at hallowed
    exact hallowed.symm
  · obtain ⟨lo, hi, -⟩ := fresh_of_mem_filling asc hv
    exact .inl ⟨lo, hi⟩

/-- What numbering the opcodes of the tasks leads to. -/
structure TaskOpcodesNumbered (taken : List Nat) (p q : Provider) : Prop where
  rest : q = { p with tasks := q.tasks }
  keys_eq : q.tasks.keys = p.tasks.keys
  numberIn_eq : ∀ task, numberIn q.tasks task = numberIn p.tasks task
  complete : ∀ task t, q.tasks.find? task = some t → Complete t.opcodes
  distinct : ∀ task t, q.tasks.find? task = some t → Distinct t.opcodes
  within : ∀ task t, q.tasks.find? task = some t → Within 10 239 t.opcodes
  origin : ∀ task name v, taskNumber q task name = some v →
    taskNumber p task name = some v ∨ taskNumber p task name = none ∧ v.toNat ∉ taken

theorem taskOpcodesNumbered_of_ok {p q : Provider} {taken : List Nat}
    (asc : taken.Pairwise (· < ·)) (h : numberTaskOpcodes taken p = .ok () q) :
    TaskOpcodesNumbered taken p q := by
  obtain ⟨hall, rfl⟩ := numberTaskOpcodes_eq_ok.1 h
  have htask : ∀ task t, (p.tasks.mapKeyed (withOpcodesNumbered taken)).find? task = some t →
      ∃ u, TaskClaimable task u ∧ (taskFilling taken task u).fault? = none ∧
        t = withOpcodesNumbered taken task u := by
    intro task t ht
    rw [Table.find?_mapKeyed] at ht
    obtain ⟨u, hu, rfl⟩ := Option.map_eq_some_iff.1 ht
    obtain ⟨claimable, hfault⟩ := hall task u hu
    exact ⟨u, claimable, hfault, rfl⟩
  refine {
    rest := rfl
    keys_eq := Table.keys_mapKeyed _ _
    numberIn_eq := numberIn_mapKeyed_withOpcodesNumbered _
    complete := fun task t ht => ?_
    distinct := fun task t ht => ?_
    within := fun task t ht => ?_
    origin := fun task name v hv => ?_ }
  · obtain ⟨u, -, hfault, rfl⟩ := htask task t ht
    exact complete_withAssigned hfault
  · obtain ⟨u, claimable, -, rfl⟩ := htask task t ht
    exact distinct_withOpcodesNumbered asc claimable
  · obtain ⟨u, claimable, -, rfl⟩ := htask task t ht
    exact within_withOpcodesNumbered asc claimable
  · rcases taskNumber_cases hv with hv | ⟨hnone, t, ht⟩
    · exact .inl hv
    · exact .inr ⟨hnone, (fresh_of_mem_taskFilling asc ht).2.2⟩

/-- What numbering the events leads to. -/
structure EventsNumbered (p q : Provider) : Prop where
  rest : q = { p with events := q.events }
  complete : Complete q.events
  distinct : Distinct q.events
  fresh : ∀ name v, numberIn p.events name = none → numberIn q.events name = some v →
    1000 ≤ v.toNat

theorem eventsNumbered_of_ok {p q : Provider} (h : numberEvents p = .ok () q) :
    EventsNumbered p q := by
  obtain ⟨claimable, hfault, rfl⟩ := numberEvents_eq_ok.1 h
  refine ⟨rfl, complete_withAssigned hfault, distinct_filling .nil claimable, ?_⟩
  intro name v hnone hv
  rcases numberIn_withAssigned_cases hv with hv | ⟨-, hv⟩
  · rw [hnone] at hv
    cases hv
  · exact (fresh_of_mem_filling .nil hv).1

/-! ## All passes -/

theorem numbered_eq_ok {p r : Provider} : p.numbered = .ok r ↔ numberAll p = .ok () r := by
  rw [Provider.numbered]
  cases numberAll p <;> simp

theorem filled_of_numbered {p r : Provider} (h : p.numbered = .ok r) : ProviderFilled p r := by
  have hfilled := numberAll_leads p
  rwa [stateAfter_of_ok (numbered_eq_ok.1 h)] at hfilled

/-- A provider that is numbered has gone through every pass. -/
theorem passes_of_numbered {p r : Provider} (h : p.numbered = .ok r) :
    ∃ p₁ p₂ p₃ taken, ChannelsChecked p ∧ TasksNumbered p p₁ ∧ OpcodesNumbered taken p₁ p₂ ∧
      TaskOpcodesNumbered taken p₂ p₃ ∧ EventsNumbered p₃ r := by
  obtain ⟨p₁, p₂, p₃, taken, hchannels, htasks, hopcodes, htaskOpcodes, hevents⟩ :=
    numberAll_eq_ok.1 (numbered_eq_ok.1 h)
  have opcodes : OpcodesNumbered taken p₁ p₂ := opcodesNumbered_of_ok hopcodes
  exact ⟨p₁, p₂, p₃, taken, channelsChecked_of_ok hchannels, tasksNumbered_of_ok htasks, opcodes,
    taskOpcodesNumbered_of_ok opcodes.ascending htaskOpcodes, eventsNumbered_of_ok hevents⟩

end EventSchema.Numbering
