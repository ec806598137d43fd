import EventSchema.Text.Numeral

/-!
The number spaces of a provider. Channels, tasks, opcodes and events are numbered separately, each
from a range of its own.
-/

namespace EventSchema

/-- What shares one range of numbers. -/
inductive NumberSpace
  | channels
  | tasks
  /-- The opcodes that belong to no task. -/
  | opcodes
  | taskOpcodes (task : String)
  | events
  deriving DecidableEq

namespace NumberSpace

/-- What a member of the space is called in a message. -/
def noun : NumberSpace → String
  | .channels => "channel"
  | .tasks => "task"
  | .opcodes => "opcode"
  | .taskOpcodes task => s!"opcode of task `{task}`"
  | .events => "event"

/-- The first number that is assigned or, for channels, allowed. -/
def first : NumberSpace → Nat
  | .channels => 1
  | .tasks => 1
  | .opcodes => 10
  | .taskOpcodes _ => 10
  | .events => 1000

/-- The last number, where it is not the largest number of 32 bits. -/
def last? : NumberSpace → Option Nat
  | .channels => some 255
  | .tasks => some 239
  | .opcodes => some 239
  | .taskOpcodes _ => some 239
  | .events => none

/-- The largest number of the space. -/
def last (s : NumberSpace) : Nat := s.last?.getD (UInt32.size - 1)

end NumberSpace

/-- Why the members of a provider cannot be numbered. -/
inductive NumberingFault
  /-- A pinned number lies outside of its range. -/
  | outOfRange (space : NumberSpace) (owner : String) (value : UInt32)
  /-- A pinned number is pinned twice. -/
  | reused (space : NumberSpace) (owner : String) (value : UInt32)
  /-- No number is left to assign. -/
  | exhausted (space : NumberSpace) (owner : String)
  deriving DecidableEq

end EventSchema
