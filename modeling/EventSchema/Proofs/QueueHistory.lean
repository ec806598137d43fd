import EventSchema.WorkQueue
import Mathlib.Tactic.Common

/-!
# What a queue gives back

A path goes into the queue in front of the others, if it is included, or behind them, and comes out
when it is the first. `History` keeps what a queue has given back and what waits in it, with the
file that named each path and the order in which the paths came in. Whatever is done to the queue, a
path that waits is passed only by paths that are included later, by the file that is being read or
by one that has come out since (`includedFirst_after`), and sources come out in the order in which
they came in (`SourcesInOrder.after`). Both follow by induction on the operations from what one of
them does.
-/

namespace EventSchema

/-! ## Operations -/

/-- What is done to a queue. -/
inductive QueueOp
  /-- The first path comes out and is read. -/
  | take
  /-- Included paths go in front of all others. -/
  | front (paths : List String)
  /-- A source goes behind all others. -/
  | back (path : String)
  deriving DecidableEq

/-- The queue after an operation. -/
def QueueOp.apply (q : WorkQueue) : QueueOp → WorkQueue
  | .take =>
    match q.pop? with
    | some (_, rest) => rest
    | none => q
  | .front paths => q.pushFrontAll paths
  | .back path => q.pushBack path

/-- A path in the queue or out of it, and how it came there. -/
structure Queued where
  path : String
  included : Bool
  /-- The number of the file that named it. The first file is number 0, and the others count as they
  come out of the queue. -/
  file : Nat
  /-- How many paths had come into the queue before. -/
  serial : Nat
  deriving DecidableEq

/-- Included paths that a file names after some others. -/
def includedBy (file : Nat) : Nat → List String → List Queued
  | _, [] => []
  | serial, path :: rest =>
    { path, included := true, file, serial } :: includedBy file (serial + 1) rest

theorem map_path_includedBy (file serial : Nat) (paths : List String) :
    (includedBy file serial paths).map (·.path) = paths := by
  induction paths generalizing serial with
  | nil => rfl
  | cons path rest ih => exact congrArg (path :: ·) (ih (serial + 1))

theorem of_mem_includedBy {file serial : Nat} {paths : List String} {x : Queued}
    (h : x ∈ includedBy file serial paths) :
    x.included = true ∧ x.file = file ∧ serial ≤ x.serial ∧ x.serial < serial + paths.length := by
  induction paths generalizing serial with
  | nil => exact (List.not_mem_nil h).elim
  | cons path rest ih =>
    rw [List.length_cons]
    rcases List.mem_cons.1 h with rfl | h
    · exact ⟨rfl, rfl, Nat.le_refl _, Nat.lt_add_of_pos_right (Nat.succ_pos _)⟩
    · obtain ⟨hincluded, hfile, hlower, hupper⟩ := ih h
      exact ⟨hincluded, hfile, by omega, by omega⟩

/-- What has happened to a queue. -/
structure History where
  /-- The paths that have come out, in order. -/
  taken : List Queued := []
  /-- The paths in the queue, the next one first. -/
  waiting : List Queued := []
  /-- How many paths have come in. -/
  queued : Nat := 0
  deriving DecidableEq

namespace History

/-- The history with one more operation. -/
def step (h : History) : QueueOp → History
  | .take =>
    match h.waiting with
    | [] => h
    | next :: rest => { h with taken := h.taken ++ [next], waiting := rest }
  | .front paths => { h with
    waiting := includedBy h.taken.length h.queued paths ++ h.waiting
    queued := h.queued + paths.length }
  | .back path => { h with
    waiting := h.waiting ++
      [{ path, included := false, file := h.taken.length, serial := h.queued }]
    queued := h.queued + 1 }

/-- The history of further operations. -/
def after (h : History) (ops : List QueueOp) : History := ops.foldl step h

theorem after_append (h : History) (ops ops' : List QueueOp) :
    h.after (ops ++ ops') = (h.after ops).after ops' := List.foldl_append

/-- The queue at the end of a history. -/
def queue (h : History) : WorkQueue := ⟨h.waiting.map (·.path)⟩

theorem step_take_of_nil {h : History} (hnil : h.waiting = []) : h.step .take = h := by
  rw [step, hnil]

theorem step_take_of_cons {h : History} {next : Queued} {rest : List Queued}
    (hcons : h.waiting = next :: rest) :
    h.step .take = { h with taken := h.taken ++ [next], waiting := rest } := by
  rw [step, hcons]

/-- A history keeps the queue as the operations make it. -/
theorem queue_step (h : History) (op : QueueOp) : (h.step op).queue = op.apply h.queue := by
  cases op with
  | take =>
    cases hwaiting : h.waiting with
    | nil =>
      rw [step_take_of_nil hwaiting]
      simp only [QueueOp.apply, WorkQueue.pop?, queue, hwaiting, List.map_nil]
    | cons next rest =>
      rw [step_take_of_cons hwaiting]
      simp only [QueueOp.apply, WorkQueue.pop?, queue, hwaiting, List.map_cons]
  | front paths =>
    refine congrArg WorkQueue.mk ?_
    change (includedBy _ _ paths ++ h.waiting).map (·.path) = (h.queue.pushFrontAll paths).pending
    rw [List.map_append, map_path_includedBy, WorkQueue.pending_pushFrontAll]
    rfl
  | back path => exact congrArg WorkQueue.mk List.map_append

theorem queue_after (h : History) (ops : List QueueOp) :
    (h.after ops).queue = ops.foldl QueueOp.apply h.queue := by
  induction ops generalizing h with
  | nil => rfl
  | cons op rest ih =>
    change ((h.step op).after rest).queue = _
    rw [ih, queue_step]
    rfl

/-! ## Included paths come out first -/

/-- A path that has been included since some moment, by the file that was being read then or by one
that has come out since; `file` bounds the number of the latter. -/
structure IncludedSince (h : History) (file : Nat) (x : Queued) : Prop where
  included : x.included = true
  /-- It was not in the queue at that moment. -/
  new : h.queued ≤ x.serial
  current : h.taken.length ≤ x.file
  earlier : x.file ≤ file

theorem IncludedSince.mono {h : History} {file file' : Nat} {x : Queued}
    (hx : h.IncludedSince file x) (hfile : file ≤ file') : h.IncludedSince file' x :=
  ⟨hx.included, hx.new, hx.current, Nat.le_trans hx.earlier hfile⟩

/-- Paths that come out after some moment, each of them included since, by the file that was being
read then or by one of those before it. As a file, the path at place `i` has the number
`h.taken.length + i + 1`. -/
def PassedBy (h : History) (between : List Queued) : Prop :=
  ∀ i x, between[i]? = some x → h.IncludedSince (h.taken.length + i) x

theorem PassedBy.concat {h : History} {between : List Queued} {x : Queued}
    (hbetween : h.PassedBy between)
    (hx : h.IncludedSince (h.taken.length + between.length) x) :
    h.PassedBy (between ++ [x]) := by
  intro i y hy
  rw [List.getElem?_append] at hy
  split at hy
  · exact hbetween i y hy
  · next hi =>
    have hlast : i - between.length = 0 := by
      have hlt := (List.getElem?_eq_some_iff.1 hy).1
      rw [List.length_singleton] at hlt
      omega
    rw [hlast] at hy
    cases hy
    exact hx.mono (by omega)

/-- What may have happened since a moment at which some path was the next: it still waits, behind
paths that have been included since, or it has come out after such paths. -/
inductive Since (h : History) (next : Queued) (rest : List Queued) (h' : History) : Prop
  | waits (between front back : List Queued) (queued : h.queued ≤ h'.queued)
      (taken : h'.taken = h.taken ++ between)
      (waiting : h'.waiting = front ++ next :: rest ++ back)
      (passed : h.PassedBy between)
      (ahead : ∀ x ∈ front, h.IncludedSince h'.taken.length x)
  | out (between later : List Queued) (taken : h'.taken = h.taken ++ between ++ next :: later)
      (passed : h.PassedBy between)

theorem since_refl {h : History} {next : Queued} {rest : List Queued}
    (hwaiting : h.waiting = next :: rest) : h.Since next rest h :=
  .waits [] [] [] (Nat.le_refl _) (List.append_nil _).symm
    (hwaiting.trans (List.append_nil _).symm) nofun nofun

section

variable {h h' : History} {next : Queued} {rest : List Queued}

theorem Since.step_take (hsince : h.Since next rest h') : h.Since next rest (h'.step .take) := by
  cases hsince with
  | waits between front back queued taken waiting passed ahead =>
    cases front with
    | nil =>
      rw [step_take_of_cons waiting]
      exact .out between [] (taken ▸ rfl) passed
    | cons x front =>
      -- the path that comes out was included by a file with a smaller number than it gets now
      rw [step_take_of_cons waiting]
      have hnumber : h'.taken.length = h.taken.length + between.length := by
        rw [taken, List.length_append]
      refine .waits (between ++ [x]) front back queued ?_ rfl ?_ fun y hy => ?_
      · rw [taken, List.append_assoc]
      · exact passed.concat (hnumber ▸ ahead x List.mem_cons_self)
      · refine (ahead y (List.mem_cons_of_mem _ hy)).mono ?_
        exact List.length_append ▸ Nat.le_add_right _ _
  | out between later taken passed =>
    cases hwaiting : h'.waiting with
    | nil =>
      rw [step_take_of_nil hwaiting]
      exact .out between later taken passed
    | cons x waiting =>
      rw [step_take_of_cons hwaiting]
      refine .out between (later ++ [x]) ?_ passed
      rw [taken, List.append_assoc]
      rfl

theorem Since.step_front (hsince : h.Since next rest h') (paths : List String) :
    h.Since next rest (h'.step (.front paths)) := by
  cases hsince with
  | waits between front back queued taken waiting passed ahead =>
    refine .waits between (includedBy h'.taken.length h'.queued paths ++ front) back
      (Nat.le_add_right_of_le queued) taken ?_ passed fun x hx => ?_
    · change _ ++ h'.waiting = _
      rw [waiting]
      simp only [List.append_assoc]
    · rcases List.mem_append.1 hx with hx | hx
      · obtain ⟨hincluded, hfile, hserial, -⟩ := of_mem_includedBy hx
        have hcurrent : h.taken.length ≤ h'.taken.length := by
          rw [taken, List.length_append]
          exact Nat.le_add_right _ _
        exact ⟨hincluded, Nat.le_trans queued hserial, hfile ▸ hcurrent, Nat.le_of_eq hfile⟩
      · exact ahead x hx
  | out between later taken passed => exact .out between later taken passed

theorem Since.step_back (hsince : h.Since next rest h') (path : String) :
    h.Since next rest (h'.step (.back path)) := by
  cases hsince with
  | waits between front back queued taken waiting passed ahead =>
    refine .waits between front
      (back ++ [{ path, included := false, file := h'.taken.length, serial := h'.queued }])
      (Nat.le_succ_of_le queued) taken ?_ passed ahead
    change h'.waiting ++ _ = _
    rw [waiting, List.append_assoc]
  | out between later taken passed => exact .out between later taken passed

/-- **One operation** keeps what has happened since a moment. -/
theorem Since.step (hsince : h.Since next rest h') (op : QueueOp) :
    h.Since next rest (h'.step op) := by
  cases op with
  | take => exact hsince.step_take
  | front paths => exact hsince.step_front paths
  | back path => exact hsince.step_back path

theorem Since.after (hsince : h.Since next rest h') (ops : List QueueOp) :
    h.Since next rest (h'.after ops) := by
  induction ops generalizing h' with
  | nil => exact hsince
  | cons op ops ih => exact ih (hsince.step op)

end

/-- Until the next path of some moment comes out, the paths that do have been included since, by the
file that was being read or by files that have come out since. -/
def IncludedFirst (h h' : History) : Prop :=
  ∀ next rest, h.waiting = next :: rest →
    ∃ between later, h'.taken = h.taken ++ between ++ later ∧
      (later = [] ∨ later.head? = some next) ∧ h.PassedBy between

theorem includedFirst_after (h : History) (ops : List QueueOp) : h.IncludedFirst (h.after ops) := by
  intro next rest hwaiting
  cases (since_refl hwaiting).after ops with
  | waits between _ _ _ taken _ passed =>
    exact ⟨between, [], taken.trans (List.append_nil _).symm, .inl rfl, passed⟩
  | out between later taken passed => exact ⟨between, next :: later, taken, .inr rfl, passed⟩

/-! ## Sources come out in their order -/

/-- The paths that came in as sources and that have come out or will, in that order. -/
def sources (h : History) : List Queued := (h.taken ++ h.waiting).filter (!·.included)

/-- Sources come out in the order in which they came in, and all paths came in before now. -/
structure SourcesInOrder (h : History) : Prop where
  ordered : h.sources.Pairwise (·.serial < ·.serial)
  numbered : ∀ x ∈ h.taken ++ h.waiting, x.serial < h.queued

theorem SourcesInOrder.step {h : History} (inOrder : h.SourcesInOrder) (op : QueueOp) :
    (h.step op).SourcesInOrder := by
  cases op with
  | take =>
    cases hwaiting : h.waiting with
    | nil => rwa [step_take_of_nil hwaiting]
    | cons next rest =>
      have hsame : h.taken ++ [next] ++ rest = h.taken ++ h.waiting := by
        rw [hwaiting, List.append_assoc]
        rfl
      rw [step_take_of_cons hwaiting]
      refine ⟨?_, ?_⟩
      · unfold sources
        dsimp only
        rw [hsame]
        exact inOrder.ordered
      · dsimp only
        rw [hsame]
        exact inOrder.numbered
  | front paths =>
    have hentering : (includedBy h.taken.length h.queued paths).filter (!·.included) = [] :=
      List.filter_eq_nil_iff.2 fun x hx => by simp [(of_mem_includedBy hx).1]
    refine ⟨?_, fun x hx => ?_⟩
    · have hsources : (h.step (.front paths)).sources = h.sources := by
        unfold sources History.step
        simp only [List.filter_append, hentering, List.nil_append]
      exact hsources ▸ inOrder.ordered
    · have hcases : x ∈ h.taken ++ h.waiting ∨ x ∈ includedBy h.taken.length h.queued paths := by
        change x ∈ h.taken ++ (includedBy h.taken.length h.queued paths ++ h.waiting) at hx
        simp only [List.mem_append] at hx ⊢
        tauto
      rcases hcases with hold | hnew
      · exact Nat.lt_of_lt_of_le (inOrder.numbered x hold) (Nat.le_add_right _ _)
      · exact (of_mem_includedBy hnew).2.2.2
  | back path =>
    let last : Queued := { path, included := false, file := h.taken.length, serial := h.queued }
    have happend : (h.step (.back path)).taken ++ (h.step (.back path)).waiting =
        h.taken ++ h.waiting ++ [last] := (List.append_assoc ..).symm
    refine ⟨?_, fun x hx => ?_⟩
    · have hsources : (h.step (.back path)).sources = h.sources ++ [last] := by
        rw [sources, happend, List.filter_append]
        rfl
      rw [hsources]
      refine List.pairwise_append.2
        ⟨inOrder.ordered, List.pairwise_singleton .., fun x hx y hy => ?_⟩
      rw [List.mem_singleton.1 hy]
      exact inOrder.numbered x (List.mem_filter.1 hx).1
    · rw [happend] at hx
      rcases List.mem_append.1 hx with hold | hnew
      · exact Nat.lt_succ_of_lt (inOrder.numbered x hold)
      · rw [List.mem_singleton.1 hnew]
        exact Nat.lt_succ_self _

theorem SourcesInOrder.after {h : History} (inOrder : h.SourcesInOrder) (ops : List QueueOp) :
    (h.after ops).SourcesInOrder := by
  induction ops generalizing h with
  | nil => exact inOrder
  | cons op ops ih => exact ih (inOrder.step op)

end History

/-! ## Any operations -/

/-- The order in which paths come out, at every moment of some operations on an empty queue. -/
structure InOrder (ops : List QueueOp) : Prop where
  /-- Whatever is the next path at some moment, only paths that have been included since come out
  before it. -/
  included : ∀ before since after, ops = before ++ since ++ after →
    (History.after {} before).IncludedFirst (History.after {} (before ++ since))
  /-- Sources come out in the order in which they came in. -/
  sources : ∀ before after, ops = before ++ after →
    (History.after {} before).sources.Pairwise (·.serial < ·.serial)

/-- **The order in which paths come out**, whatever is done to the queue. -/
theorem inOrder (ops : List QueueOp) : InOrder ops where
  included before since after _ := by
    rw [History.after_append]
    exact History.includedFirst_after _ since
  sources before after _ := by
    have hempty : History.SourcesInOrder {} := ⟨List.Pairwise.nil, nofun⟩
    exact (hempty.after before).ordered

end EventSchema
