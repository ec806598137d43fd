import EventSchema.Text.Utf8

/-!
What a program needs of a file system, in any monad.
-/

namespace EventSchema

/-- Why a path leads to no contents. -/
inductive PathFault
  | missing
  /-- Something on the way is not a directory. -/
  | notDirectory
  /-- The path leads to a directory. -/
  | isDirectory
  | nameTooLong
  | zeroCharacter
  | other (text : String)
  deriving DecidableEq, Repr

/-- The wording of a fault, with its usual number. -/
def PathFault.message : PathFault → String
  | .missing => "No such file or directory (os error 2)"
  | .notDirectory => "Not a directory (os error 20)"
  | .isDirectory => "Is a directory (os error 21)"
  | .nameTooLong => "File name too long (os error 36)"
  | .zeroCharacter => "file name contained an unexpected NUL byte"
  | .other text => text

/-- The operations of a file system. Paths are texts. An operation other than reading that fails
reports only that. -/
structure FileSystem (m : Type → Type) where
  /-- The contents of a file. -/
  read : String → m (Except PathFault Bytes)
  isDirectory : String → m Bool
  /-- Whether there is a file or a directory. -/
  hasEntry : String → m Bool
  /-- Makes a directory and all directories above it that are missing. -/
  makeDirectories : String → m Bool
  /-- Makes a file with these contents, in place of a file that is there. -/
  write : String → Bytes → m Bool

end EventSchema
