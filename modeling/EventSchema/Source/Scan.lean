import EventSchema.Source.Context

/-!
Finding clauses in a source text. Outside comments, directives and literals, each occurrence of the
marker is followed by a clause, which ends with the parenthesis that closes its first group.

Main statements: a group that was read and what follows it make up the text (`closeGroup_append`),
and a marker takes at least one byte (`afterMarker?_length_lt`), so a scan ends.
-/

namespace EventSchema.Source

/-- Why a marker is not followed by a clause. Lines count from one. -/
inductive ScanFault
  /-- A `)` stands before any `(`, in this line. -/
  | closeBeforeOpen (line : Nat)
  /-- The clause that starts in this line has no `(`. -/
  | noGroup (line : Nat)
  /-- The clause that starts in this line lacks its closing `)`. -/
  | unclosedGroup (line : Nat)
  deriving DecidableEq, Repr

/-- The number of line ends in a text. -/
def newlines (t : Bytes) : Nat := t.count newline

/-- Reads up to the `)` that closes the first group, of which `depth` parentheses are open so far.
The clause started in line `start`, and the text begins in line `line`. -/
def closeGroup (start line depth : Nat) (t : Bytes) : Except ScanFault (Bytes × Bytes) :=
  match _h : skip? t with
  | some s =>
    (closeGroup start (line + newlines s.text) depth s.rest).map fun r => (s.text ++ r.1, r.2)
  | none =>
    match t with
    | [] => .error (if depth = 0 then .noGroup start else .unclosedGroup start)
    | b :: rest =>
      if b = leftParen then
        (closeGroup start line (depth + 1) rest).map fun r => (b :: r.1, r.2)
      else if b = rightParen then
        match depth with
        | 0 => .error (.closeBeforeOpen line)
        | 1 => .ok ([b], rest)
        | n + 2 => (closeGroup start line (n + 1) rest).map fun r => (b :: r.1, r.2)
      else
        (closeGroup start (line + newlines [b]) depth rest).map fun r => (b :: r.1, r.2)
termination_by t.length
decreasing_by
  · exact skip?_length_lt _h
  all_goals simp

/-- What is read of a group and what is left make up the text. -/
theorem closeGroup_append {start line depth : Nat} {t : Bytes} {r : Bytes × Bytes}
    (h : closeGroup start line depth t = .ok r) : r.1 ++ r.2 = t := by
  fun_induction closeGroup start line depth t generalizing r with
  | case1 line depth t s hs ih =>
    obtain ⟨q, hq, rfl⟩ := map_eq_ok h
    rw [List.append_assoc, ih hq, skip?_append hs]
  | case2 => simp at h
  | case3 line depth rest hs ih =>
    obtain ⟨q, hq, rfl⟩ := map_eq_ok h
    rw [List.cons_append, ih hq]
  | case4 => simp at h
  | case5 =>
    cases h
    rfl
  | case6 line rest n hs _ ih =>
    obtain ⟨q, hq, rfl⟩ := map_eq_ok h
    rw [List.cons_append, ih hq]
  | case7 line depth b rest hs hl hr ih =>
    obtain ⟨q, hq, rfl⟩ := map_eq_ok h
    rw [List.cons_append, ih hq]

theorem closeGroup_length_le {start line depth : Nat} {t : Bytes} {r : Bytes × Bytes}
    (h : closeGroup start line depth t = .ok r) : r.2.length ≤ t.length := by
  have := congrArg List.length (closeGroup_append h)
  rw [List.length_append] at this
  omega

/-- What follows the marker, where a text starts with it. The empty marker occurs nowhere. -/
def afterMarker? (marker t : Bytes) : Option Bytes :=
  if marker ≠ [] ∧ marker <+: t then some (t.drop marker.length) else none

theorem afterMarker?_length_lt {marker t body : Bytes} (h : afterMarker? marker t = some body) :
    body.length < t.length := by
  rw [afterMarker?] at h
  split at h
  · next hm =>
    cases h
    have h1 := List.length_pos_iff.2 hm.1
    have h2 := hm.2.length_le
    rw [List.length_drop]
    omega
  · cases h

/-- The clauses of a text that begins in line `line`, up to the first fault. -/
def clausesFrom (marker : Bytes) (line : Nat) (t : Bytes) : List Bytes × Option ScanFault :=
  match _h : skip? t with
  | some s => clausesFrom marker (line + newlines s.text) s.rest
  | none =>
    match _h' : afterMarker? marker t with
    | some body =>
      let start := line + newlines marker
      match _h'' : closeGroup start start 0 body with
      | .error fault => ([], some fault)
      | .ok (clause, rest) =>
        let more := clausesFrom marker (start + newlines clause) rest
        (clause :: more.1, more.2)
    | none =>
      match t with
      | [] => ([], none)
      | b :: rest => clausesFrom marker (line + newlines [b]) rest
termination_by t.length
decreasing_by
  · exact skip?_length_lt _h
  · exact Nat.lt_of_le_of_lt (closeGroup_length_le _h'') (afterMarker?_length_lt _h')
  · simp

/-- The clauses of a source text, each as the text between its marker and the end of its group, and
the fault that ended the scan, if one did. -/
def scan (marker text : String) : List String × Option ScanFault :=
  let found := clausesFrom (Text.Utf8.encode marker) 1 (Text.Utf8.encode text)
  (found.1.map Text.Utf8.decodeLossy, found.2)

/-- The marker of schema clauses unless another one is chosen. -/
def defaultMarker : String := "EVT_SCHEMA_"

end EventSchema.Source
