import EventSchema.Draft.Basic

/-!
Numbering the members of a provider once all of its schema has been read. Pinned numbers are
checked and kept; every other task, opcode and event gets the smallest number that is free in its
space, in the order of names. Channels are not numbered.

The opcodes of the provider take no number that is pinned on an opcode of any task, and the opcodes
of a task take none that the provider uses, nor any that is pinned on an opcode of any task.

Main statements: `firstFree` is the smallest number from its start on that is not in use
(`firstFree_not_mem`, `firstFree_least`).
-/

namespace EventSchema

/-- What has a number that may be missing. -/
class Numbered (α : Type) where
  value : α → Option UInt32
  withValue : α → UInt32 → α

instance : Numbered Channel := ⟨Channel.value, fun c v => { c with value := some v }⟩
instance : Numbered Task := ⟨Task.value, fun t v => { t with value := some v }⟩
instance : Numbered Opcode := ⟨Opcode.value, fun o v => { o with value := some v }⟩
instance : Numbered Event := ⟨Event.value, fun e v => { e with value := some v }⟩

namespace Numbering

/-! ## Numbers in use -/

/-- Adds a number to an ascending list of numbers in use. -/
def use (n : Nat) : List Nat → List Nat
  | [] => [n]
  | u :: rest =>
    if n < u then n :: u :: rest
    else if n = u then u :: rest
    else u :: use n rest

/-- The smallest number from `candidate` on that an ascending list does not hold. -/
def firstFree (candidate : Nat) : List Nat → Nat
  | [] => candidate
  | u :: rest =>
    if u < candidate then firstFree candidate rest
    else if u = candidate then firstFree (candidate + 1) rest
    else candidate

theorem mem_use (n m : Nat) (used : List Nat) : m ∈ use n used ↔ m = n ∨ m ∈ used := by
  induction used with
  | nil => simp [use]
  | cons u rest ih =>
    rw [use]
    split
    · simp
    · split
      · next h => simp [h]
      · simp only [List.mem_cons, ih]
        exact or_left_comm

theorem use_ascending (n : Nat) {used : List Nat} (h : used.Pairwise (· < ·)) :
    (use n used).Pairwise (· < ·) := by
  induction used with
  | nil => simp [use]
  | cons u rest ih =>
    obtain ⟨hu, hrest⟩ := List.pairwise_cons.1 h
    rw [use]
    split
    · next hn =>
      refine List.pairwise_cons.2 ⟨fun m hm => ?_, h⟩
      rcases List.mem_cons.1 hm with rfl | hm
      · exact hn
      · exact Nat.lt_trans hn (hu m hm)
    · split
      · exact h
      · refine List.pairwise_cons.2 ⟨fun m hm => ?_, ih hrest⟩
        rcases (mem_use n m rest).1 hm with rfl | hm
        · omega
        · exact hu m hm

theorem le_firstFree (candidate : Nat) (used : List Nat) :
    candidate ≤ firstFree candidate used := by
  induction used generalizing candidate with
  | nil => exact Nat.le_refl _
  | cons u rest ih =>
    rw [firstFree]
    split
    · exact ih candidate
    · split
      · exact Nat.le_of_succ_le (ih (candidate + 1))
      · exact Nat.le_refl _

/-- The number found is not in use. -/
theorem firstFree_not_mem (candidate : Nat) {used : List Nat} (h : used.Pairwise (· < ·)) :
    firstFree candidate used ∉ used := by
  induction used generalizing candidate with
  | nil => simp
  | cons u rest ih =>
    obtain ⟨hu, hrest⟩ := List.pairwise_cons.1 h
    rw [firstFree, List.mem_cons, not_or]
    split
    · have := le_firstFree candidate rest
      exact ⟨by omega, ih candidate hrest⟩
    · split
      · have := le_firstFree (candidate + 1) rest
        exact ⟨by omega, ih (candidate + 1) hrest⟩
      · refine ⟨by omega, fun hm => ?_⟩
        have := hu _ hm
        omega

/-- Every smaller number from `candidate` on is in use. -/
theorem firstFree_least (candidate : Nat) (used : List Nat) {n : Nat} (lo : candidate ≤ n)
    (hi : n < firstFree candidate used) : n ∈ used := by
  induction used generalizing candidate with
  | nil =>
    rw [firstFree] at hi
    omega
  | cons u rest ih =>
    rw [firstFree] at hi
    rw [List.mem_cons]
    split at hi
    · exact .inr (ih candidate lo hi)
    · split at hi
      · by_cases hn : n = u
        · exact .inl hn
        · exact .inr (ih (candidate + 1) (by omega) hi)
      · omega

/-! ## Claiming and filling -/

/-- The members of a table by name, with their numbers. -/
def slots {α : Type} [Numbered α] (t : Table String α) : List (String × Option UInt32) :=
  t.entries.map fun e => (e.1, Numbered.value e.2)

/-- Whether a number lies in the range of a space. -/
def inRange (space : NumberSpace) (value : UInt32) : Bool :=
  decide (space.first ≤ value.toNat ∧ value.toNat ≤ space.last)

/-- Takes the pinned numbers of some members into use. Each has to be allowed and not yet taken. -/
def claim (space : NumberSpace) (allowed : String → UInt32 → Bool) :
    List Nat → List (String × Option UInt32) → Except NumberingFault (List Nat)
  | used, [] => .ok used
  | used, (_, none) :: rest => claim space allowed used rest
  | used, (owner, some value) :: rest =>
    if !allowed owner value then .error (.outOfRange space owner value)
    else if value.toNat ∈ used then .error (.reused space owner value)
    else claim space allowed (use value.toNat used) rest

/-- Numbers that were found for members of a space. -/
structure Filling where
  /-- The members that got a number, in order. -/
  assigned : List (String × UInt32) := []
  used : List Nat
  /-- Why the members after them got none. -/
  fault? : Option NumberingFault := none

/-- Finds a number for each member without one: the smallest free one, in order. -/
def fill (space : NumberSpace) : List Nat → List (String × Option UInt32) → Filling
  | used, [] => { used }
  | used, (_, some _) :: rest => fill space used rest
  | used, (owner, none) :: rest =>
    let n := firstFree space.first used
    if n ≤ space.last then
      let more := fill space (use n used) rest
      { more with assigned := (owner, UInt32.ofNat n) :: more.assigned }
    else { used, fault? := some (.exhausted space owner) }

/-- The table with the numbers that were found in place of missing ones. -/
def withAssigned {α : Type} [Numbered α] (t : Table String α) (assigned : List (String × UInt32)) :
    Table String α :=
  t.mapKeyed fun name a =>
    match Numbered.value a, assigned.lookup name with
    | none, some value => Numbered.withValue a value
    | _, _ => a

/-! ## The passes over a provider -/

/-- A pass over a provider. What it has assigned before a fault stays. -/
abbrev Pass := EStateM NumberingFault Provider

/-- Takes pinned numbers into use, or ends the pass. -/
def claimPinned (space : NumberSpace) (allowed : String → UInt32 → Bool) (used : List Nat)
    (members : List (String × Option UInt32)) : Pass (List Nat) :=
  match claim space allowed used members with
  | .ok used => pure used
  | .error fault => throw fault

/-- Ends the pass if a filling was not complete. -/
def finish (filling : Filling) : Pass (List Nat) :=
  match filling.fault? with
  | none => pure filling.used
  | some fault => throw fault

/-- Channels are pinned or stay without a number. -/
def checkChannels : Pass Unit := do
  let p ← get
  discard (claimPinned .channels (fun _ v => inRange .channels v) [] (slots p.channels))

/-- Numbers the members of a space. Their pinned numbers come into use besides those that are taken
already, and what is found for the other members is stored. The result is what is in use then. -/
def numberMembers (space : NumberSpace) (allowed : String → UInt32 → Bool) (taken : List Nat)
    (members : List (String × Option UInt32))
    (store : List (String × UInt32) → Provider → Provider) : Pass (List Nat) := do
  let used ← claimPinned space allowed taken members
  let filling := fill space used members
  modify (store filling.assigned)
  finish filling

/-- Numbers the tasks. -/
def numberTasks : Pass Unit := do
  let p ← get
  discard <| numberMembers .tasks (fun _ v => inRange .tasks v) [] (slots p.tasks)
    fun assigned p => { p with tasks := withAssigned p.tasks assigned }

/-- The numbers that are pinned on an opcode of any task. -/
def pinnedOnTasks (p : Provider) : List Nat :=
  p.tasks.values.foldr
    (fun t used => (t.opcodes.values.filterMap Opcode.value).foldr (fun v => use v.toNat) used) []

/-- An opcode of the provider may also have the number that is predefined for its name. -/
def opcodeAllowed (name : String) (value : UInt32) : Bool :=
  predefinedOpcode? name == some value || inRange .opcodes value

/-- Numbers the opcodes of the provider. The result is what no task may use. -/
def numberOpcodes : Pass (List Nat) := do
  let p ← get
  numberMembers .opcodes opcodeAllowed (pinnedOnTasks p) (slots p.opcodes)
    fun assigned p => { p with opcodes := withAssigned p.opcodes assigned }

/-- Numbers the opcodes of one task. Its pinned numbers have to differ from each other. -/
def numberOpcodesOf (taken : List Nat) (name : String) (t : Task) : Pass Unit := do
  let space := NumberSpace.taskOpcodes name
  let pinned ← claimPinned space (fun _ v => inRange space v) [] (slots t.opcodes)
  let filling := fill space (pinned.foldr use taken) (slots t.opcodes)
  modify fun p => { p with
    tasks := p.tasks.modify name fun t =>
      { t with opcodes := withAssigned t.opcodes filling.assigned } }
  discard (finish filling)

/-- Numbers the opcodes of every task. The numbers taken are those that no task may use. -/
def numberTaskOpcodes (taken : List Nat) : Pass Unit := do
  (← get).tasks.entries.forM fun e => numberOpcodesOf taken e.1 e.2

/-- Numbers the events. Any number may be pinned. -/
def numberEvents : Pass Unit := do
  let p ← get
  discard <| numberMembers .events (fun _ _ => true) [] (slots p.events)
    fun assigned p => { p with events := withAssigned p.events assigned }

/-- All passes, in order. -/
def numberAll : Pass Unit := do
  checkChannels
  numberTasks
  let taken ← numberOpcodes
  numberTaskOpcodes taken
  numberEvents

end Numbering

/-- The provider with every number assigned. -/
def Provider.numbered (p : Provider) : Except Error Provider :=
  match Numbering.numberAll p with
  | .ok () p' => .ok p'
  | .error fault _ => .error (.numbering fault)

/-- Numbers the provider of a draft. Numbers assigned before a fault stay. -/
def Build.assignNumbers : Build Unit := fun d =>
  match Numbering.numberAll (d.provider.getD {}) with
  | .ok () p => .ok () { d with provider := some p }
  | .error fault p => .error (.numbering fault) { d with provider := some p }

end EventSchema
