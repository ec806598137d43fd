/-!
Paths as texts. Components are separated by slashes; a repeated slash, and a component that is a
single dot, add nothing. A path that starts with a slash is absolute.
-/

namespace EventSchema.Path

/-- Splits a text at its slashes. -/
def split : List Char → List (List Char)
  | [] => [[]]
  | c :: rest =>
    if c = '/' then [] :: split rest
    else
      match split rest with
      | [] => [[c]]
      | first :: others => (c :: first) :: others

/-- Whether a path starts at the root. -/
def isAbsolute (path : String) : Bool := path.toList.head? == some '/'

/-- Everything between the slashes of a path, empty texts and dots included. -/
def steps (path : String) : List String := (split path.toList).map String.ofList

/-- A path that is seen from a base directory. -/
def join (base path : String) : String :=
  if isAbsolute path || base.isEmpty then path
  else if base.toList.getLast? == some '/' then base ++ path
  else base ++ "/" ++ path

/-- A text, last character first, without the slashes and single dots that add nothing at the end of
a path. The root and a leading dot stay. -/
def trimReversed : List Char → List Char
  | [] => []
  | [c] => [c]
  | '/' :: c :: rest => trimReversed (c :: rest)
  | '.' :: '/' :: rest => if rest.isEmpty then ['/'] else trimReversed ('/' :: rest)
  | c :: rest => c :: rest

/-- The last component of a path and what stands before it; nothing for the empty path and the
root. -/
def lastSplit? (path : String) : Option (String × String) :=
  match trimReversed path.toList.reverse with
  | [] => none
  | ['/'] => none
  | t =>
    let last := t.takeWhile (· ≠ '/')
    let parent := trimReversed (t.drop last.length)
    some (String.ofList parent.reverse, String.ofList last.reverse)

/-- The path without its last component. -/
def parent? (path : String) : Option String := (lastSplit? path).map (·.1)

/-- The last component of a path, if it is a name. -/
def fileName? (path : String) : Option String :=
  ((lastSplit? path).map (·.2)).filter fun name => name ≠ "." ∧ name ≠ ".."

/-! ## Limits -/

/-- The most bytes that one name may have. -/
def nameLimit : Nat := 255

/-- The most bytes that a path may have. -/
def pathLimit : Nat := 4095

end EventSchema.Path
