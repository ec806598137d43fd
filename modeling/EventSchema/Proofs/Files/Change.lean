import EventSchema.Files.Tree
import EventSchema.Proofs.Table

/-!
# What the operations on a tree change

A file that has been written is read back from its path (`read_of_write`), because the way to a
place that is no directory does not go through it. Apart from that place no file is changed
(`sameFiles_write`), and none by making directories (`sameFiles_makeDirectories`). Only finitely
many contents can be read from a tree (`mem_contents_of_read`).
-/

namespace EventSchema.FileTree

variable {t t' : FileTree} {place : List String}

/-! ## Single places -/

theorem node?_nil (t : FileTree) : t.node? [] = some .directory := rfl

theorem ne_nil_of_not_directory (h : t.isDirectoryAt place = false) : place ≠ [] := by
  rintro rfl
  cases h

/-- What is put at a place other than the root is found there, and nothing else changes. -/
theorem node?_insert (h : place ≠ []) (n : Node) (other : List String) :
    node? { t with nodes := t.nodes.insert place n } other =
      if other = place then some n else t.node? other := by
  rw [node?, node?, Table.find?_insert]
  by_cases hroot : other = []
  · subst hroot
    simp only [List.isEmpty_nil, if_true, if_neg h.symm]
  · have hnot : ¬ other.isEmpty = true := by rwa [List.isEmpty_iff]
    rw [if_neg hnot, if_neg hnot]

/-! ## Writing -/

/-- The way to a place stays when something is put where no directory was. -/
theorem walk_insert (h : t.isDirectoryAt place = false) (n : Node) {start : List String}
    {names : List String} {goal : List String} (hwalk : t.walk start names = .ok goal) :
    walk { t with nodes := t.nodes.insert place n } start names = .ok goal := by
  induction names generalizing start with
  | nil => exact hwalk
  | cons name names ih =>
    have hstart : t.node? start = some .directory := by
      rw [walk] at hwalk
      split at hwalk
      · cases hwalk
      · cases hwalk
      · assumption
    -- A walk goes on from directories only, so it never goes on from the changed place.
    have hne : start ≠ place := by
      rintro rfl
      rw [isDirectoryAt, hstart] at h
      cases h
    rw [walk, hstart] at hwalk
    rw [walk, node?_insert (ne_nil_of_not_directory h), if_neg hne, hstart]
    dsimp only at hwalk ⊢
    split at hwalk
    · cases hwalk
    · next hshort =>
      rw [if_neg hshort]
      exact ih hwalk

/-- A file is written at the place of its path, which is no directory. -/
theorem write_eq_true {path : String} {contents : Bytes} (h : t.write path contents = (t', true)) :
    ∃ place, t.locate path = .ok place ∧ t.isDirectoryAt place = false ∧
      t' = { t with nodes := t.nodes.insert place (.file contents) } := by
  rw [write] at h
  split at h
  · cases h
  · next place hlocate =>
    split at h
    · cases h
    · next hdirectory =>
      cases h
      exact ⟨place, hlocate, by rwa [Bool.not_eq_true] at hdirectory, rfl⟩

theorem write_of_locate {path : String} (hlocate : t.locate path = .ok place)
    (hdirectory : t.isDirectoryAt place = false) (contents : Bytes) :
    (t.write path contents).2 = true := by
  rw [write, hlocate]
  simp only [hdirectory, Bool.false_eq_true, if_false]

theorem isDirectory_of_locate {path : String} (hlocate : t.locate path = .ok place)
    (hdirectory : t.isDirectoryAt place = false) : t.isDirectory path = false := by
  rw [isDirectoryAt] at hdirectory
  simp only [isDirectory, find, hlocate]
  rcases hnode : t.node? place with _ | _ | contents
  · rfl
  · rw [hnode] at hdirectory
    cases hdirectory
  · rfl

theorem write_eq_false {path : String} {contents : Bytes}
    (h : t.write path contents = (t', false)) : t' = t := by
  rw [write] at h
  split at h
  · cases h
    rfl
  · split at h <;> cases h
    rfl

/-- A path leads to the same place when it has been written to. -/
theorem locate_of_write {path : String} {contents : Bytes}
    (h : t.write path contents = (t', true)) (hlocate : t.locate path = .ok place) :
    t'.locate path = .ok place := by
  obtain ⟨place', hlocate', hdirectory, rfl⟩ := write_eq_true h
  obtain rfl : place = place' := Except.ok.inj (hlocate.symm.trans hlocate')
  rw [locate] at hlocate ⊢
  split at hlocate
  · cases hlocate
  · split at hlocate
    · cases hlocate
    · next htext hpath =>
      rw [if_neg hpath]
      exact walk_insert hdirectory _ hlocate

/-- **A file that has been written is read back.** -/
theorem read_of_write {path : String} {contents : Bytes} (h : t.write path contents = (t', true)) :
    t'.read path = .ok contents := by
  obtain ⟨place, hlocate, hdirectory, ht'⟩ := write_eq_true h
  have hnode : t'.node? place = some (.file contents) := by
    rw [ht', node?_insert (ne_nil_of_not_directory hdirectory), if_pos rfl]
  simp only [read, find, locate_of_write h hlocate, hnode]

/-! ## Files -/

/-- Two trees have the same files at some places. -/
def SameFiles (t t' : FileTree) (among : List String → Prop) : Prop :=
  ∀ place, among place → ∀ contents,
    t'.node? place = some (.file contents) ↔ t.node? place = some (.file contents)

theorem sameFiles_refl (t : FileTree) (among : List String → Prop) : SameFiles t t among :=
  fun _ _ _ => .rfl

theorem SameFiles.trans {t'' : FileTree} {among : List String → Prop} (h : SameFiles t t' among)
    (h' : SameFiles t' t'' among) : SameFiles t t'' among :=
  fun place hplace contents => (h' place hplace contents).trans (h place hplace contents)

theorem SameFiles.mono {among among' : List String → Prop} (h : SameFiles t t' among)
    (himp : ∀ place, among' place → among place) : SameFiles t t' among' :=
  fun place hplace => h place (himp place hplace)

theorem sameFiles_makeWay (t : FileTree) (place : List String) (names : List String) :
    SameFiles t (t.makeWay place names).1 fun _ => True := by
  induction names generalizing t place with
  | nil => exact sameFiles_refl t _
  | cons name names ih =>
    rw [makeWay]
    split
    · exact sameFiles_refl t _
    · split
      · exact ih t _
      · exact sameFiles_refl t _
      · next hfree =>
        refine SameFiles.trans (fun other _ contents => ?_) (ih _ _)
        have hne : step place name ≠ [] := by
          intro hroot
          rw [hroot, node?_nil] at hfree
          cases hfree
        rw [node?_insert hne]
        split
        · next heq =>
          subst heq
          rw [hfree]
          simp
        · rfl

/-- Making directories changes no file. -/
theorem sameFiles_makeDirectories (t : FileTree) (path : String) :
    SameFiles t (t.makeDirectories path).1 fun _ => True := by
  rw [makeDirectories]
  split
  · exact sameFiles_refl t _
  · exact sameFiles_makeWay t _ _

/-- Writing a file changes no other. -/
theorem sameFiles_write {path : String} {contents : Bytes}
    (h : t.write path contents = (t', true)) :
    ∃ place, t'.locate path = .ok place ∧ SameFiles t t' (· ≠ place) := by
  obtain ⟨place, hlocate, hdirectory, ht'⟩ := write_eq_true h
  refine ⟨place, locate_of_write h hlocate, fun other hother contents => ?_⟩
  rw [ht', node?_insert (ne_nil_of_not_directory hdirectory), if_neg hother]

/-! ## All contents -/

/-- The contents of the files of a tree. -/
def contents (t : FileTree) : List Bytes :=
  t.nodes.values.filterMap fun
    | .directory => none
    | .file c => some c

theorem mem_contents_of_read {path : String} {c : Bytes} (h : t.read path = .ok c) :
    c ∈ t.contents := by
  have hfind : t.find path = .ok (.file c) := by
    rw [read] at h
    split at h <;> cases h
    assumption
  obtain ⟨place, hnode⟩ : ∃ place, t.node? place = some (.file c) := by
    rw [find] at hfind
    split at hfind
    · cases hfind
    · next place _ =>
      split at hfind <;> cases hfind
      exact ⟨place, by assumption⟩
  have hnodes : t.nodes.find? place = some (.file c) := by
    rw [node?] at hnode
    split at hnode
    · cases hnode
    · exact hnode
  exact List.mem_filterMap.2 ⟨_, Table.mem_values_iff.2 ⟨place, hnodes⟩, rfl⟩

end EventSchema.FileTree
