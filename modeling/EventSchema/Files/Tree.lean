import EventSchema.Files.Path
import EventSchema.Files.System
import EventSchema.Table

/-!
A file tree as a value: directories and files by their place, with a working directory. A path is
walked step by step, and every step, even an empty one, needs a directory to start from.

Main statement: reading, and looking for entries, leaves the tree as it is (`fileSystem_read` and
the lemmas after it).
-/

namespace EventSchema

/-- What is found at a place. -/
inductive Node
  | directory
  | file (contents : Bytes)
  deriving DecidableEq

/-- A file tree. The root directory is always there. -/
structure FileTree where
  /-- What is there, by the names on the way from the root. -/
  nodes : Table (List String) Node := ∅
  workingDirectory : List String := []
  deriving DecidableEq

namespace FileTree

/-! ## Places -/

/-- What is at a place. -/
def node? (t : FileTree) (place : List String) : Option Node :=
  if place.isEmpty then some .directory else t.nodes.find? place

/-- Whether a directory is at a place. -/
def isDirectoryAt (t : FileTree) (place : List String) : Bool := t.node? place == some .directory

/-- The place that one step leads to. -/
def step (place : List String) (name : String) : List String :=
  if name = "" ∨ name = "." then place
  else if name = ".." then place.dropLast
  else place ++ [name]

/-- The place that steps lead to. There has to be a directory before each of them. -/
def walk (t : FileTree) (place : List String) : List String → Except PathFault (List String)
  | [] => .ok place
  | name :: rest =>
    match t.node? place with
    | none => .error .missing
    | some (.file _) => .error .notDirectory
    | some .directory =>
      if Path.nameLimit < name.utf8ByteSize then .error .nameTooLong
      else t.walk (step place name) rest

/-- Where the steps of a path start. -/
def origin (t : FileTree) (path : String) : List String :=
  if Path.isAbsolute path then [] else t.workingDirectory

/-- What keeps a text from being a path at all. -/
def textFault? (path : String) : Option PathFault :=
  if path.toList.contains '\x00' then some .zeroCharacter
  else if Path.pathLimit < path.utf8ByteSize then some .nameTooLong
  else none

/-- The place of a path, which may be free. The empty path has none. -/
def locate (t : FileTree) (path : String) : Except PathFault (List String) :=
  match textFault? path with
  | some fault => .error fault
  | none => if path.isEmpty then .error .missing else t.walk (t.origin path) (Path.steps path)

/-- What is found at a path. -/
def find (t : FileTree) (path : String) : Except PathFault Node :=
  match t.locate path with
  | .error fault => .error fault
  | .ok place =>
    match t.node? place with
    | some node => .ok node
    | none => .error .missing

/-! ## Operations -/

/-- The contents of the file at a path. -/
def read (t : FileTree) (path : String) : Except PathFault Bytes :=
  match t.find path with
  | .ok (.file contents) => .ok contents
  | .ok .directory => .error .isDirectory
  | .error fault => .error fault

/-- Whether a directory is at a path. -/
def isDirectory (t : FileTree) (path : String) : Bool :=
  match t.find path with
  | .ok .directory => true
  | _ => false

/-- Whether anything is at a path. -/
def hasEntry (t : FileTree) (path : String) : Bool := (t.find path).isOk

/-- Walks steps and makes the directories that are missing; the walk ends at a file. -/
def makeWay (t : FileTree) (place : List String) : List String → FileTree × Bool
  | [] => (t, true)
  | name :: rest =>
    let next := step place name
    if Path.nameLimit < name.utf8ByteSize then (t, false)
    else match t.node? next with
    | some .directory => t.makeWay next rest
    | some _ => (t, false)
    | none => makeWay { t with nodes := t.nodes.insert next .directory } next rest

/-- Makes the directories of a path. Those made before a failure stay. -/
def makeDirectories (t : FileTree) (path : String) : FileTree × Bool :=
  if (textFault? path).isSome then (t, false)
  else t.makeWay (t.origin path) (Path.steps path)

/-- Makes a file. -/
def write (t : FileTree) (path : String) (contents : Bytes) : FileTree × Bool :=
  match t.locate path with
  | .error _ => (t, false)
  | .ok place =>
    if t.isDirectoryAt place then (t, false)
    else ({ t with nodes := t.nodes.insert place (.file contents) }, true)

/-! ## A tree as a file system -/

variable {m : Type → Type} [Monad m]

/-- An operation that changes the tree. -/
def changing (change : FileTree → FileTree × Bool) : StateT FileTree m Bool := fun t =>
  pure ((change t).2, (change t).1)

/-- The operations on a tree that is kept as a state. -/
def fileSystem : FileSystem (StateT FileTree m) where
  read path := fun t => pure (t.read path, t)
  isDirectory path := fun t => pure (t.isDirectory path, t)
  hasEntry path := fun t => pure (t.hasEntry path, t)
  makeDirectories path := changing (·.makeDirectories path)
  write path contents := changing (·.write path contents)

theorem fileSystem_read (path : String) (t : FileTree) :
    ((fileSystem (m := m)).read path).run t = pure (t.read path, t) := rfl

theorem fileSystem_isDirectory (path : String) (t : FileTree) :
    ((fileSystem (m := m)).isDirectory path).run t = pure (t.isDirectory path, t) := rfl

theorem fileSystem_hasEntry (path : String) (t : FileTree) :
    ((fileSystem (m := m)).hasEntry path).run t = pure (t.hasEntry path, t) := rfl

end FileTree

end EventSchema
