import EventSchema.Compilation.Basic
import EventSchema.Proofs.Draft.Repetition
import Mathlib.Data.Set.Insert

/-!
# Contents that say everything

The path of a file decides how the file is read only where it has the suffix of JSON files and the
contents are something else. All other files are read as their contents say (`takeContents`), and
where these define no alias, they name the same files whenever they are read (`nonempty_naming`).
-/

namespace EventSchema.Compilation

variable {load : String → Option Bytes} {marker : String}

/-! ## Contents without a path -/

/-- Takes contents whose path does not matter. -/
def takeContents (marker : String) (c : Bytes) : Build Unit :=
  takeText marker "" (Text.Utf8.decodeLossy c)

/-- Contents that define no alias, whatever their path. -/
def NoAlias (marker : String) (c : Bytes) : Prop :=
  ¬ DefinesAlias marker "" (Text.Utf8.decodeLossy c)

/-- A file that is read as its contents alone say, and that defines no alias. -/
structure Plain (load : String → Option Bytes) (marker path : String) : Prop where
  json : ∀ c, load path = some c → hasJsonSuffix path = true →
    isJson (Text.Utf8.decodeLossy c) = true
  noAlias : ∀ c, load path = some c → ¬ DefinesAlias marker path (Text.Utf8.decodeLossy c)

theorem parse_eq_ok_iff_of_json {path text : String} {documents : List Document}
    (json : isJson text = true) :
    Document.parse path text = .ok documents ↔
      Document.listOfJson? (Text.trimStart text) = some documents := by
  rw [Document.parse, if_pos json]
  cases Document.listOfJson? (Text.trimStart text) <;> simp

theorem parse_eq_ok_of_json {path other text : String} {documents : List Document}
    (json : isJson text = true) (h : Document.parse path text = .ok documents) :
    Document.parse other text = .ok documents :=
  (parse_eq_ok_iff_of_json json).2 ((parse_eq_ok_iff_of_json json).1 h)

theorem mergeDocuments_of_json {path other text : String} {d e : Draft} (json : isJson text = true)
    (h : mergeDocuments path text d = .ok () e) : mergeDocuments other text d = .ok () e := by
  obtain ⟨documents, hparse, hmerge⟩ := Build.ofExcept_bind_eq_ok.1 h
  exact Build.ofExcept_bind_eq_ok.2 ⟨documents, parse_eq_ok_of_json json hparse, hmerge⟩

theorem isDocumentFile_empty (text : String) : isDocumentFile "" text = isJson text := rfl

theorem isDocumentFile_eq_isJson {path text : String}
    (json : hasJsonSuffix path = true → isJson text = true) :
    isDocumentFile path text = isJson text := by
  rw [isDocumentFile]
  cases hsuffix : hasJsonSuffix path with
  | false => rfl
  | true => rw [json hsuffix, Bool.or_true]

theorem takeText_eq_ok_iff {path : String} {c : Bytes} {d e : Draft}
    (json : hasJsonSuffix path = true → isJson (Text.Utf8.decodeLossy c) = true) :
    takeText marker path (Text.Utf8.decodeLossy c) d = .ok () e ↔
      takeContents marker c d = .ok () e := by
  unfold takeContents takeText
  rw [isDocumentFile_eq_isJson json, isDocumentFile_empty]
  split
  · next hjson => exact ⟨mergeDocuments_of_json hjson, mergeDocuments_of_json hjson⟩
  · rfl

theorem noAlias_of_plain {path : String} {c : Bytes} (h : Plain load marker path)
    (contents : load path = some c) : NoAlias marker c := by
  have hpath := h.noAlias c contents
  unfold NoAlias
  unfold DefinesAlias at hpath ⊢
  rw [isDocumentFile_eq_isJson (h.json c contents)] at hpath
  rw [isDocumentFile_empty]
  split
  · next hjson =>
    rw [if_pos hjson] at hpath
    rintro ⟨documents, hparse, hdefines⟩
    exact hpath ⟨documents, parse_eq_ok_of_json hjson hparse, hdefines⟩
  · next hsource =>
    rwa [if_neg hsource] at hpath

theorem madeOf_takeContents {c : Bytes} (h : NoAlias marker c) :
    MadeOf (· ≠ .aliases) (takeContents marker c) :=
  madeOf_takeText h

/-! ## Files that contents name -/

/-- What contents name, in front of the files that wait and behind them. -/
structure Naming (marker : String) where
  front : Option Bytes → List String
  back : Option Bytes → List String
  queue : ∀ c d e, NoAlias marker c → d.AliasFree → takeContents marker c d = .ok () e →
    e.queue.pending = front (some c) ++ d.queue.pending ++ back (some c)

/-- Without aliases contents name the same files whenever they are read. -/
theorem nonempty_naming (marker : String) : Nonempty (Naming marker) := by
  have named (contents : Option Bytes) : ∃ front back : List String, ∀ c d e, contents = some c →
      NoAlias marker c → d.AliasFree → takeContents marker c d = .ok () e →
        e.queue.pending = front ++ d.queue.pending ++ back := by
    by_cases h : ∃ c, contents = some c ∧ NoAlias marker c
    · obtain ⟨c, rfl, hc⟩ := h
      obtain ⟨_, front, back, halike⟩ := (madeOf_takeContents hc).queues_alike
      refine ⟨front, back, fun c' d e heq _ hd htake => ?_⟩
      cases heq
      exact (halike d () e hd htake).2
    · exact ⟨[], [], fun c _ _ heq hc => (h ⟨c, heq, hc⟩).elim⟩
  choose front back hqueue using named
  exact ⟨⟨front, back, fun c d e => hqueue (some c) c d e rfl⟩⟩

section

variable (n : Naming marker) {c : Bytes} {d e : Draft} {rest : List String}

/-- What reading contents does when some files wait. -/
theorem Naming.read (noAlias : NoAlias marker c) (aliasFree : d.AliasFree)
    (text : takeContents marker c { d with queue := ⟨rest⟩ } = .ok () e) :
    e.AliasFree ∧ d.Grown e ∧ e.queue.pending = n.front (some c) ++ rest ++ n.back (some c) := by
  have aliasFree' : ({ d with queue := ⟨rest⟩ } : Draft).AliasFree := aliasFree
  have made := madeOf_takeContents noAlias
  have grown : ({ d with queue := ⟨rest⟩ } : Draft).Grown e := made.grown_of_ok text
  exact ⟨made.aliasFree_of_ok aliasFree' text, grown, n.queue c _ e noAlias aliasFree' text⟩

end

/-- Contents include others if they name a file with these in front. -/
def Naming.Includes (n : Naming marker) (load : String → Option Bytes) (x y : Option Bytes) :
    Prop :=
  ∃ path ∈ n.front x, load path = y

/-- The contents of some files. -/
def known (load : String → Option Bytes) (files : List String) : Set (Option Bytes) :=
  { x | ∃ file ∈ files, load file = x }

theorem known_concat (files : List String) (path : String) :
    known load (files ++ [path]) = insert (load path) (known load files) := by
  ext x
  simp only [known, Set.mem_ofPred_eq, Set.mem_insert_iff, List.mem_append, List.mem_singleton]
  constructor
  · rintro ⟨file, hfile | rfl, rfl⟩
    · exact .inr ⟨file, hfile, rfl⟩
    · exact .inl rfl
  · rintro (rfl | ⟨file, hfile, rfl⟩)
    · exact ⟨path, .inr rfl, rfl⟩
    · exact ⟨file, .inl hfile, rfl⟩

end EventSchema.Compilation
