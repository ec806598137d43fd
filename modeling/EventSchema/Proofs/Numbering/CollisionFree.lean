import EventSchema.Proofs.Numbering.Outcome

/-!
# Numbers without collisions

A provider that could be numbered has a number for every task, opcode and event, and no two members
that share a number space have the same one (`collisionFree_of_numbered`). The spaces of opcodes
overlap: the numbers pinned in tasks are taken for the opcodes of the provider, and all of these and
all numbers of the provider's opcodes are taken for what is found in a task.
-/

namespace EventSchema.Numbering

/-- What numbering a provider `p` has led to in `r`. -/
structure CollisionFree (p r : Provider) : Prop where
  channelsEq : r.channels = p.channels
  channelsDistinct : Distinct r.channels
  channelsWithin : Within 1 255 r.channels
  tasksComplete : Complete r.tasks
  tasksDistinct : Distinct r.tasks
  tasksWithin : Within 1 239 r.tasks
  opcodesComplete : Complete r.opcodes
  opcodesDistinct : Distinct r.opcodes
  opcodesWithin : ∀ name v, numberIn r.opcodes name = some v →
    (10 ≤ v.toNat ∧ v.toNat ≤ 239) ∨ predefinedOpcode? name = some v
  taskOpcodesComplete : ∀ task t, r.tasks.find? task = some t → Complete t.opcodes
  taskOpcodesDistinct : ∀ task t, r.tasks.find? task = some t → Distinct t.opcodes
  taskOpcodesWithin : ∀ task t, r.tasks.find? task = some t → Within 10 239 t.opcodes
  /-- No opcode of a task has the number of an opcode of the provider. -/
  taskOpcodesApart : ∀ task name v, taskNumber r task name = some v →
    ∀ other, numberIn r.opcodes other ≠ some v
  /-- A number that was found in a task was not pinned in any task. -/
  taskOpcodesFresh : ∀ task name v, taskNumber p task name = none →
    taskNumber r task name = some v → ∀ task' name', taskNumber p task' name' ≠ some v
  eventsComplete : Complete r.events
  eventsDistinct : Distinct r.events
  eventsFresh : ∀ name v, numberIn p.events name = none → numberIn r.events name = some v →
    1000 ≤ v.toNat
  /-- What was pinned is kept, and only numbers that were missing are new. -/
  filled : ProviderFilled p r

/-- **Numbers without collisions.** -/
theorem collisionFree_of_numbered {p r : Provider} (h : p.numbered = .ok r) : CollisionFree p r := by
  obtain ⟨p₁, p₂, p₃, taken, channels, tasks, opcodes, taskOpcodes, events⟩ := passes_of_numbered h
  -- no pass touches what another one numbers
  have rTasks : r.tasks = p₃.tasks := by rw [events.rest]
  have rOpcodes : r.opcodes = p₂.opcodes := by rw [events.rest, taskOpcodes.rest]
  have rChannels : r.channels = p.channels := by
    rw [events.rest, taskOpcodes.rest, opcodes.rest, tasks.rest]
  have tasks₂ : p₂.tasks = p₁.tasks := by rw [opcodes.rest]
  have events₃ : p₃.events = p.events := by rw [taskOpcodes.rest, opcodes.rest, tasks.rest]
  have number : ∀ task, numberIn r.tasks task = numberIn p₁.tasks task := fun task => by
    rw [rTasks, taskOpcodes.numberIn_eq, tasks₂]
  have pinned : ∀ task name, taskNumber p₂ task name = taskNumber p task name :=
    fun task name => by
      rw [← tasks.taskNumber_eq, taskNumber, taskNumber, tasks₂]
  have origin : ∀ task name v, taskNumber r task name = some v →
      taskNumber p task name = some v ∨ taskNumber p task name = none ∧ v.toNat ∉ taken := by
    intro task name v hv
    rw [taskNumber, rTasks] at hv
    rw [← pinned]
    exact taskOpcodes.origin task name v hv
  exact {
    channelsEq := rChannels
    channelsDistinct := rChannels ▸ channels.distinct
    channelsWithin := rChannels ▸ channels.within
    tasksComplete := by
      intro task htask
      rw [rTasks, taskOpcodes.keys_eq, tasks₂] at htask
      rw [number]
      exact tasks.complete task htask
    tasksDistinct := by
      intro a b v ha hb
      rw [number] at ha hb
      exact tasks.distinct a b v ha hb
    tasksWithin := by
      intro task v hv
      rw [number] at hv
      exact tasks.within task v hv
    opcodesComplete := rOpcodes ▸ opcodes.complete
    opcodesDistinct := rOpcodes ▸ opcodes.distinct
    opcodesWithin := rOpcodes ▸ opcodes.within
    taskOpcodesComplete := rTasks ▸ taskOpcodes.complete
    taskOpcodesDistinct := rTasks ▸ taskOpcodes.distinct
    taskOpcodesWithin := rTasks ▸ taskOpcodes.within
    taskOpcodesApart := by
      intro task name v hv other hother
      rw [rOpcodes] at hother
      rcases origin task name v hv with hv | ⟨-, hfree⟩
      · rw [← tasks.taskNumber_eq] at hv
        exact opcodes.apart task name v hv other hother
      · exact hfree (opcodes.taken_opcode other v hother)
    taskOpcodesFresh := by
      intro task name v hnone hv task' name' hpinned
      rcases origin task name v hv with hv | ⟨-, hfree⟩
      · rw [hnone] at hv
        cases hv
      · rw [← tasks.taskNumber_eq] at hpinned
        exact hfree (opcodes.taken_pinned task' name' v hpinned)
    eventsComplete := events.complete
    eventsDistinct := events.distinct
    eventsFresh := by
      intro name v hnone hv
      rw [← events₃] at hnone
      exact events.fresh name v hnone hv
    filled := filled_of_numbered h }

/-- A provider with pinned and missing numbers in every space that has both. -/
def mixed : Provider where
  channels := .ofList
    [("Admin", { id := "Admin", name := "Admin", type := .admin, value := some 16 })]
  tasks := .ofList [
    ("Disk", { name := "Disk", opcodes := .ofList [("Read", { name := "Read" })] }),
    ("Net", {
      name := "Net"
      value := some 1
      opcodes := .ofList
        [("Read", { name := "Read", value := some 10 }), ("Send", { name := "Send" })] })]
  opcodes := .ofList
    [("Flush", { name := "Flush" }), ("Start", { name := "Start", value := some 1 })]
  events := .ofList [("srv_Disk_Read", {
    name := "srv_Disk_Read"
    subsystem := "srv"
    severity := .success
    level := .informational
    channel := "Admin"
    task := "Disk"
    opcode := .ofTask "Read" })]

/-- The same provider with its numbers: 10 is taken by a task, 11 by the provider. -/
def mixedNumbered : Provider where
  channels := mixed.channels
  tasks := .ofList [
    ("Disk", {
      name := "Disk"
      value := some 2
      opcodes := .ofList [("Read", { name := "Read", value := some 12 })] }),
    ("Net", {
      name := "Net"
      value := some 1
      opcodes := .ofList [("Read", { name := "Read", value := some 10 }),
        ("Send", { name := "Send", value := some 12 })] })]
  opcodes := .ofList [("Flush", { name := "Flush", value := some 11 }),
    ("Start", { name := "Start", value := some 1 })]
  events := mixed.events.modify "srv_Disk_Read" fun e => { e with value := some 1000 }

theorem collisionFree_mixed :
    mixed.numbered = .ok mixedNumbered ∧ CollisionFree mixed mixedNumbered :=
  ⟨rfl, collisionFree_of_numbered rfl⟩

end EventSchema.Numbering
