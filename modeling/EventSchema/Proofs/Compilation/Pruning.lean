import EventSchema.Compilation.Basic
import Mathlib.Data.Set.Insert

/-!
# Queues of files with the same contents

Two runs that treat repeated contents differently have different queues. `Pruned` relates them: the
shorter queue is the longer one without some of the files whose contents are known when their turn
comes. `Before` says what stands in a queue in front of the first file with some contents.
-/

namespace EventSchema.Compilation

variable {load : String → Option Bytes}

/-! ## Queues without known contents -/

/-- The second queue is the first one without some files whose contents are known by then, from the
start or from files that stand before them. -/
inductive Pruned (load : String → Option Bytes) :
    Set (Option Bytes) → List String → List String → Prop
  | nil {known : Set (Option Bytes)} : Pruned load known [] []
  | keep {known : Set (Option Bytes)} {path : String} {rest rest' : List String}
      (pruned : Pruned load (insert (load path) known) rest rest') :
      Pruned load known (path :: rest) (path :: rest')
  | drop {known : Set (Option Bytes)} {path : String} {rest rest' : List String}
      (contents : load path ∈ known) (pruned : Pruned load known rest rest') :
      Pruned load known (path :: rest) rest'

namespace Pruned

variable {known : Set (Option Bytes)} {queue queue' : List String}

protected theorem refl (load : String → Option Bytes) (known : Set (Option Bytes))
    (queue : List String) : Pruned load known queue queue := by
  induction queue generalizing known with
  | nil => exact .nil
  | cons path rest ih => exact .keep (ih _)

/-- More may be known. -/
theorem mono (h : Pruned load known queue queue') {known' : Set (Option Bytes)}
    (more : known ⊆ known') : Pruned load known' queue queue' := by
  induction h generalizing known' with
  | nil => exact .nil
  | keep _ ih => exact .keep (ih (Set.insert_subset_insert more))
  | drop contents _ ih => exact .drop (more contents) (ih more)

/-- Files are put in front of both queues. -/
theorem prepend (h : Pruned load known queue queue') (paths : List String) :
    Pruned load known (paths ++ queue) (paths ++ queue') := by
  induction paths generalizing known with
  | nil => exact h
  | cons path rest ih => exact .keep (ih (h.mono (Set.subset_insert _ _)))

/-- Files are put behind both queues. -/
theorem append (h : Pruned load known queue queue') (paths : List String) :
    Pruned load known (queue ++ paths) (queue' ++ paths) := by
  induction h with
  | nil => exact .refl load _ paths
  | keep _ ih => exact .keep ih
  | drop contents _ ih => exact .drop contents ih

/-- Files with known contents may be missing in front. -/
theorem prepend_known (h : Pruned load known queue queue') {paths : List String}
    (contents : ∀ path ∈ paths, load path ∈ known) : Pruned load known (paths ++ queue) queue' := by
  induction paths with
  | nil => exact h
  | cons path rest ih =>
    exact .drop (contents path List.mem_cons_self)
      (ih fun other hother => contents other (List.mem_cons_of_mem _ hother))

/-- Files behind a queue may be missing if their contents are known, or will be after the queue. -/
theorem append_known (h : Pruned load known queue queue') {paths : List String}
    (contents : ∀ path ∈ paths, load path ∈ known ∨ ∃ other ∈ queue, load other = load path) :
    Pruned load known (queue ++ paths) queue' := by
  induction h with
  | nil =>
    refine List.append_nil paths ▸ prepend_known .nil fun path hpath => ?_
    exact (contents path hpath).resolve_right fun ⟨_, hother, _⟩ => List.not_mem_nil hother
  | @keep known first rest rest' _ ih =>
    refine .keep (ih fun path hpath => ?_)
    rcases contents path hpath with hknown | ⟨other, hother, heq⟩
    · exact .inl (.inr hknown)
    · rcases List.mem_cons.1 hother with rfl | hrest
      · exact .inl (.inl heq.symm)
      · exact .inr ⟨other, hrest, heq⟩
  | @drop known first rest rest' hfirst _ ih =>
    refine .drop hfirst (ih fun path hpath => ?_)
    rcases contents path hpath with hknown | ⟨other, hother, heq⟩
    · exact .inl hknown
    · rcases List.mem_cons.1 hother with rfl | hrest
      · exact .inl (heq ▸ hfirst)
      · exact .inr ⟨other, hrest, heq⟩

theorem eq_nil (h : Pruned load known [] queue') : queue' = [] := by
  cases h
  rfl

end Pruned

/-! ## What comes first -/

/-- A file with some contents waits, and only files of a kind stand before it. -/
inductive Before (load : String → Option Bytes) (kind : Option Bytes → Prop)
    (contents : Option Bytes) : List String → Prop
  | here {path : String} {rest : List String} (h : load path = contents) :
      Before load kind contents (path :: rest)
  | there {path : String} {rest : List String} (h : kind (load path))
      (before : Before load kind contents rest) : Before load kind contents (path :: rest)

namespace Before

variable {kind : Option Bytes → Prop} {contents : Option Bytes} {queue : List String}

theorem append (h : Before load kind contents queue) (paths : List String) :
    Before load kind contents (queue ++ paths) := by
  induction h with
  | here h => exact .here h
  | there h _ ih => exact .there h ih

theorem prepend (h : Before load kind contents queue) {paths : List String}
    (hkind : ∀ path ∈ paths, kind (load path)) : Before load kind contents (paths ++ queue) := by
  induction paths with
  | nil => exact h
  | cons path rest ih =>
    exact .there (hkind path List.mem_cons_self)
      (ih fun other hother => hkind other (List.mem_cons_of_mem _ hother))

theorem of_mem {paths : List String} (hkind : ∀ path ∈ paths, kind (load path)) {path : String}
    (hpath : path ∈ paths) : Before load kind (load path) paths := by
  induction paths with
  | nil => exact (List.not_mem_nil hpath).elim
  | cons first rest ih =>
    rcases List.mem_cons.1 hpath with rfl | hrest
    · exact .here rfl
    · exact .there (hkind first List.mem_cons_self)
        (ih (fun other hother => hkind other (List.mem_cons_of_mem _ hother)) hrest)

end Before

end EventSchema.Compilation
