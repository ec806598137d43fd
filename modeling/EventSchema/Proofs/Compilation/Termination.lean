import EventSchema.Compilation.Drain
import EventSchema.Proofs.Table

/-!
# Compiling comes to an end

Where contents that were read before are skipped, compiling a schema from finitely many files ends,
however these include each other (`compile_ends`). Files may put as much into the queue as they
like, but each file that is taken from it either has contents that had not been read yet, and from
then on they have, or leaves the queue shorter and what was read as it was (`workLeft_decreases`).
-/

namespace EventSchema.Compilation

variable {hash : Bytes → String} {contents : List Bytes} {marker : String}

/-! ## What is left to do -/

/-- Those of some contents that have not been read yet. -/
def unread (hash : Bytes → String) (contents : List Bytes) (seen : Seen) : List Bytes :=
  contents.filter fun c => !seen.has hash c

/-- Remembering contents leaves fewer that have not been read. -/
theorem length_unread_lt {seen seen' : Seen} {c : Bytes} (hc : c ∈ contents)
    (h : remember? hash seen c = some seen') :
    (unread hash contents seen').length < (unread hash contents seen).length := by
  have hnew : seen.has hash c = false := by
    rw [← Bool.not_eq_true, ← remember?_isNone_iff, h]
    exact Bool.false_ne_true
  have hfilter : unread hash contents seen' = (unread hash contents seen).filter (· ≠ c) := by
    rw [unread, unread, List.filter_filter]
    refine List.filter_congr fun other _ => ?_
    rw [has_of_remember? h, Bool.not_or, decide_not]
  rw [hfilter, List.length_filter_lt_length_iff_exists]
  exact ⟨c, List.mem_filter.2 ⟨hc, by rw [hnew, Bool.not_false]⟩, by simp⟩

/-- How many contents have not been read yet, and how many files wait. -/
def workLeft (hash : Bytes → String) (contents : List Bytes) (r : Run) : Nat × Nat :=
  ((unread hash contents r.seen).length, r.draft.queue.size)

/-! ## One file -/

/-- A file that was taken without an error was skipped, or its contents are remembered now. -/
theorem takeFile_cases {r r' : Run} {path : String} {contents? : Option Bytes}
    (h : takeFile { marker, skipDuplicates := true } hash r path contents? = .ok r') :
    ∃ c, contents? = some c ∧
      (r' = { r with skipped := r.skipped ++ [path] } ∨
        remember? hash r.seen c = some r'.seen) := by
  cases contents? with
  | none => cases h
  | some c =>
    refine ⟨c, rfl, ?_⟩
    simp only [takeFile, if_true] at h
    cases hseen : remember? hash r.seen c with
    | none =>
      rw [hseen] at h
      exact .inl (Except.ok.inj h).symm
    | some seen =>
      rw [hseen] at h
      refine .inr ?_
      cases hdraft : draftAfter (takeText marker path (Text.Utf8.decodeLossy c)) r.draft with
      | error e =>
        rw [hdraft] at h
        cases h
      | ok d =>
        rw [hdraft] at h
        cases h
        rfl

/-- The next file is no longer in the queue, and nothing else has changed. -/
theorem nextFile?_eq_some {r r' : Run} {path : String} (h : nextFile? r = some (path, r')) :
    r'.seen = r.seen ∧ r'.draft.queue.size < r.draft.queue.size := by
  obtain ⟨⟨next, queue⟩, hpop, hr⟩ := Option.map_eq_some_iff.1 h
  obtain ⟨rfl, rfl⟩ := Prod.mk.inj hr
  refine ⟨rfl, ?_⟩
  rw [WorkQueue.size, WorkQueue.size, WorkQueue.pop?_eq_some_iff.1 hpop, List.length_cons]
  exact Nat.lt_succ_self _

/-- **Each file leaves less to do**: fewer contents that have not been read or, with as many of
these, fewer files that wait. -/
theorem workLeft_decreases {load : String → Option Bytes}
    (hload : ∀ path c, load path = some c → c ∈ contents) {r r' r'' : Run} {path : String}
    (hnext : nextFile? r = some (path, r'))
    (htake : takeFile { marker, skipDuplicates := true } hash r' path (load path) = .ok r'') :
    Prod.Lex (· < ·) (· < ·) (workLeft hash contents r'') (workLeft hash contents r) := by
  obtain ⟨hseen, hsize⟩ := nextFile?_eq_some hnext
  obtain ⟨c, hc, rfl | hremember⟩ := takeFile_cases htake
  · rw [workLeft, workLeft, hseen]
    exact .right _ hsize
  · rw [hseen] at hremember
    exact .left _ _ (length_unread_lt (hload path c hc) hremember)

/-! ## The whole run -/

/-- The queue becomes empty or a file has an error, and a larger bound changes nothing. -/
theorem drain_ends (hash : Bytes → String) (marker : String) {load : String → Option Bytes}
    (hload : ∀ path c, load path = some c → c ∈ contents) (r : Run) :
    ∃ bound result, ∀ n, bound ≤ n →
      drain (m := Id) load (fun _ => pure ()) { marker, skipDuplicates := true } hash n r =
        some result := by
  cases hnext : nextFile? r with
  | none => exact ⟨0, .ok r, fun n _ => drain_of_empty hnext⟩
  | some next =>
    obtain ⟨path, r'⟩ := next
    cases htake : takeFile { marker, skipDuplicates := true } hash r' path (load path) with
    | error e =>
      refine ⟨1, .error e, fun n hn => ?_⟩
      obtain ⟨n, rfl⟩ := Nat.exists_eq_add_of_le' hn
      rw [drain_of_next hnext, htake]
    | ok r'' =>
      have hless := workLeft_decreases hload hnext htake
      obtain ⟨bound, result, h⟩ := drain_ends hash marker hload r''
      refine ⟨bound + 1, result, fun n hn => ?_⟩
      obtain ⟨n, rfl⟩ := Nat.exists_eq_add_of_le' (Nat.le_trans (Nat.le_add_left 1 bound) hn)
      rw [drain_of_next hnext, htake]
      exact h n (Nat.le_of_succ_le_succ hn)
termination_by workLeft hash contents r
decreasing_by exact hless

/-- Compiling comes to an end where only finitely many contents can be read. -/
theorem compile_ends_of_mem {load : String → Option Bytes}
    (hload : ∀ path c, load path = some c → c ∈ contents) (marker : String) (hash : Bytes → String)
    (root : String) :
    ∃ bound result, ∀ n, bound ≤ n →
      compile load { marker, skipDuplicates := true } hash n root = some result := by
  cases hstart : start hash root (load root) with
  | error e => exact ⟨0, .error e, fun n _ => by rw [compile_eq, hstart]⟩
  | ok r =>
    obtain ⟨bound, result, h⟩ := drain_ends hash marker hload r
    refine ⟨bound, result.bind finish, fun n hn => ?_⟩
    simp only [compile_eq, hstart, h n hn, Option.map_some]

/-- **Compiling finitely many files comes to an end**: from some number of files that may be taken
on, there is a result, and always the same one. -/
theorem compile_ends (files : Table String Bytes) (marker : String) (hash : Bytes → String)
    (root : String) :
    ∃ bound result, ∀ n, bound ≤ n →
      compile files.find? { marker, skipDuplicates := true } hash n root = some result := by
  have hload : ∀ path c, files.find? path = some c → c ∈ files.values :=
    fun path c h => Table.mem_values_iff.2 ⟨path, h⟩
  exact compile_ends_of_mem hload marker hash root

end EventSchema.Compilation
