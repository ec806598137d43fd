import EventSchema.Program

/-!
The program on the file system of the machine.
-/

namespace EventSchema.Program

/-- Whether an action ends without an exception. -/
def succeeds (action : IO Unit) : IO Bool := do
  try
    action
    return true
  catch _ => return false

/-- The fault that an exception reports. -/
def pathFault : IO.Error → PathFault
  | .noFileOrDirectory .. => .missing
  | e => .other e.toString

/-- The file system of the machine. -/
def machineFiles : FileSystem IO where
  read path := do
    try
      return .ok (← IO.FS.readBinFile path).toList
    catch e => return .error (pathFault e)
  isDirectory path := do
    try
      (← IO.FS.realPath path).isDir
    catch _ => return false
  hasEntry path := succeeds (discard (IO.FS.realPath path))
  makeDirectories path := succeeds (IO.FS.createDirAll path)
  write path contents := succeeds (IO.FS.writeBinFile path contents.toByteArray)

/-- More files than a run can get through. -/
def ampleBound : Nat := UInt64.size

/-- Writes a note to the error output. -/
def showNote (note : Note) : IO Unit := do
  (← IO.getStderr).putStrLn (note.level.heading ++ note.text)

end EventSchema.Program

open EventSchema in
/-- Runs the program on the file system of the machine. -/
def main (args : List String) : IO UInt32 := do
  match ← Program.run Program.machineFiles Program.showNote Program.ampleBound args with
  | none => return 1
  | some outcome =>
    (← IO.getStdout).putStr outcome.output
    for line in outcome.errors do
      (← IO.getStderr).putStrLn line
    return UInt32.ofNat outcome.code
