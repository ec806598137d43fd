import EventSchema.Proofs.Document.Recording

/-!
# The paths that elements give

An element of paths gives the path in its attribute, or else its character content. The content
comes in pieces, between which there are comments and sections, and every piece is a path of its
own; a section is none at all (`paths_of_elements`). So an element gives one path where its
content is in one piece.

Whose content a piece is, is not read off the elements that are open: the last tag that begins or
ends an element of paths decides, unless it has its path in the attribute (`listAfter`). The
paths of a document come from its parts one by one (`paths_of_run`).
-/

namespace EventSchema.Document

open EventSchema.Markup (Part Tag)

variable {list : PathList} {r r' : Partial} {parts before : List Part}

/-! ## Elements of paths -/

/-- The list that an element of some name gives paths to. -/
def pathList? (name : String) : Option PathList :=
  if name = "include" then some .includes
  else if name = "source" then some .sources
  else none

/-- The paths of a list. -/
def PathList.of (list : PathList) (d : Document) : List String :=
  match list with
  | .includes => d.includes
  | .sources => d.sources

/-- The path in the attribute of a tag. -/
def path? (tag : Tag) : Option String := tag.attributes.lookup "path"

/-- The list that the content behind a part belongs to, if the part decides that. -/
def decides? : Part → Option (Option PathList)
  | .opening tag => if (path? tag).isSome then none else (pathList? tag.name).map some
  | .closing name => (pathList? name).map fun _ => none
  | _ => none

/-- The list that the content behind some parts belongs to. -/
def listAfter (before : List Part) : Option PathList := (before.filterMap decides?).getLast?.join

/-- The paths that a part adds to a list. -/
def added (list : PathList) (before : List Part) : Part → List String
  | .opening tag | .empty tag => if pathList? tag.name = some list then (path? tag).toList else []
  | .content s => if listAfter before = some list then [Text.trim s] else []
  | _ => []

/-- The paths that parts behind others add to a list, one part after the other. -/
def addedFrom (list : PathList) (before : List Part) : List Part → List String
  | [] => []
  | p :: rest => added list before p ++ addedFrom list (before ++ [p]) rest

theorem listAfter_concat (before : List Part) (p : Part) :
    listAfter (before ++ [p]) = (decides? p).getD (listAfter before) := by
  rw [listAfter, List.filterMap_append, listAfter]
  cases h : decides? p with
  | none => rw [List.filterMap_cons_none h, List.filterMap_nil, List.append_nil]; rfl
  | some l => rw [List.filterMap_cons_some h, List.filterMap_nil, List.getLast?_concat]; rfl

theorem addedFrom_append (list : PathList) (before ps qs : List Part) :
    addedFrom list before (ps ++ qs) =
      addedFrom list before ps ++ addedFrom list (before ++ ps) qs := by
  induction ps generalizing before with
  | nil => rw [List.nil_append, List.append_nil]; rfl
  | cons p ps ih =>
    rw [List.cons_append, addedFrom, addedFrom, ih, List.append_assoc, List.append_assoc]
    rfl

/-! ## Reading parts -/

theorem of_addPath (r : Partial) (other : PathList) (path : String) :
    list.of (r.addPath other path).document =
      list.of r.document ++ if other = list then [path] else [] := by
  cases list <;> cases other <;> simp [Partial.addPath, PathList.of]

theorem pathList_addPath (r : Partial) (other : PathList) (path : String) :
    (r.addPath other path).pathList = r.pathList := by
  cases other <;> rfl

/-- A part adds its paths, and decides what the content behind it belongs to. -/
structure AddsPaths (list : PathList) (r : Partial) (paths : List String)
    (decided : Option (Option PathList)) (r' : Partial) : Prop where
  paths : list.of r'.document = list.of r.document ++ paths
  pathList : r'.pathList = decided.getD r.pathList

theorem addsPaths_nil (h : list.of r'.document = list.of r.document)
    (hlist : r'.pathList = r.pathList) : AddsPaths list r [] none r' :=
  ⟨by rw [h, List.append_nil], hlist⟩

theorem addsPaths_takePath {other : PathList} {tag : Tag} (hname : pathList? tag.name = some other)
    (isEmpty : Bool) :
    AddsPaths list r (if other = list then (path? tag).toList else [])
      (if isEmpty then none else decides? (.opening tag)) (r.takePath other tag isEmpty) := by
  unfold Partial.takePath
  cases hpath : tag.attributes.lookup "path" with
  | some path =>
    constructor
    · simp only [path?, hpath, Option.toList_some]
      exact of_addPath r other path
    · simp only [decides?, path?, hpath, Option.isSome_some, if_true, ite_self, Option.getD_none]
      exact pathList_addPath r other path
  | none =>
    constructor
    · simp only [path?, hpath, Option.toList_none, ite_self, List.append_nil]
      cases isEmpty <;> rfl
    · cases isEmpty with
      | true => rfl
      | false => simp [decides?, path?, hpath, hname]

/-- Elements of other names have no paths. -/
theorem addsPaths_otherTag {tag : Tag} {isEmpty : Bool} (h : r.takeTag tag isEmpty = .ok r')
    (hinclude : tag.name ≠ "include") (hsource : tag.name ≠ "source") :
    AddsPaths list r [] none r' := by
  unfold Partial.takeTag at h
  simp only [bind, Except.bind, pure, Except.pure] at h
  split at h
  case h_2 name => exact absurd name hinclude
  case h_3 name => exact absurd name hsource
  all_goals
    repeat' split at h
    all_goals cases h
    all_goals exact addsPaths_nil (by cases list <;> rfl) rfl

theorem addsPaths_takeTag {tag : Tag} {isEmpty : Bool} (h : r.takeTag tag isEmpty = .ok r') :
    AddsPaths list r (if pathList? tag.name = some list then (path? tag).toList else [])
      (if isEmpty then none else decides? (.opening tag)) r' := by
  have hpaths {other : PathList} (hname : pathList? tag.name = some other)
      (h : r.takePath other tag isEmpty = r') :
      AddsPaths list r (if pathList? tag.name = some list then (path? tag).toList else [])
        (if isEmpty then none else decides? (.opening tag)) r' := by
    rw [← h]
    simp only [hname, Option.some.injEq]
    exact addsPaths_takePath hname isEmpty
  by_cases hinclude : tag.name = "include"
  · simp only [Partial.takeTag, hinclude, Except.ok.injEq] at h
    exact hpaths (by simp [pathList?, hinclude]) h
  by_cases hsource : tag.name = "source"
  · simp only [Partial.takeTag, hsource, Except.ok.injEq] at h
    exact hpaths (by simp [pathList?, hsource]) h
  have hname : pathList? tag.name = none := by simp [pathList?, hinclude, hsource]
  simpa [hname, decides?] using @addsPaths_otherTag list _ _ _ _ h hinclude hsource

theorem addsPaths_takeClosing (name : String) :
    AddsPaths list r [] (decides? (.closing name)) (r.takeClosing name) := by
  unfold Partial.takeClosing
  split
  · split <;> exact addsPaths_nil (by cases list <;> rfl) rfl
  · split <;> exact addsPaths_nil (by cases list <;> rfl) rfl
  · exact ⟨(List.append_nil _).symm, rfl⟩
  · exact ⟨(List.append_nil _).symm, rfl⟩
  · next hinclude hsource =>
    have hname : pathList? name = none := by rw [pathList?, if_neg hinclude, if_neg hsource]
    simp only [decides?, hname, Option.map_none]
    exact addsPaths_nil rfl rfl

/-- **One part** adds its paths. -/
theorem addsPaths_take {p : Part} (h : r.take p = .ok r') (hlist : r.pathList = listAfter before) :
    AddsPaths list r (added list before p) (decides? p) r' := by
  cases p with
  | opening tag => exact addsPaths_takeTag h
  | empty tag => exact addsPaths_takeTag h
  | closing name =>
    cases h
    exact addsPaths_takeClosing name
  | content s =>
    rw [Partial.take] at h
    cases hafter : listAfter before with
    | none =>
      rw [hlist, hafter] at h
      cases h
      simp only [added, hafter, reduceCtorEq, if_false]
      exact addsPaths_nil rfl rfl
    | some other =>
      rw [hlist, hafter] at h
      cases h
      simp only [added, hafter, Option.some.injEq]
      exact ⟨of_addPath r other _, pathList_addPath r other _⟩
  | _ =>
    cases h
    exact addsPaths_nil rfl rfl

/-- **All parts** add their paths, one after the other. -/
theorem paths_of_run (run : parts.foldlM Partial.take r = .ok r')
    (hlist : r.pathList = listAfter before) :
    list.of r'.document = list.of r.document ++ addedFrom list before parts := by
  induction parts generalizing r before with
  | nil =>
    cases run
    exact (List.append_nil _).symm
  | cons p rest ih =>
    rw [List.foldlM_cons] at run
    cases hstep : r.take p with
    | error e =>
      rw [hstep] at run
      cases run
    | ok m =>
      rw [hstep] at run
      obtain ⟨hpaths, hdecided⟩ := @addsPaths_take list _ _ _ _ hstep hlist
      have hafter : m.pathList = listAfter (before ++ [p]) := by
        rw [listAfter_concat, hdecided, hlist]
      rw [ih run hafter, hpaths, List.append_assoc, addedFrom]

/-! ## Character content -/

/-- Whether a part begins or ends an element. -/
def isTag : Part → Bool
  | .opening _ | .empty _ | .closing _ => true
  | _ => false

/-- The characters of a part, if it is character content or a section of it. -/
def characters? : Part → Option String
  | .content s | .characterData s => some s
  | _ => none

/-- Character content, with its sections and without the comments. -/
def characters (inside : List Part) : String := String.join (inside.filterMap characters?)

/-- The path that a part is read as, behind a tag whose content is read. -/
def piece? : Part → Option String
  | .content s => some (Text.trim s)
  | _ => none

/-- The pieces of character content that are read as paths. -/
def pieces (inside : List Part) : List String := inside.filterMap piece?

/-- Character content is all in one piece. -/
def InOnePiece (inside : List Part) : Prop :=
  ∃ s, inside.filter (fun p => (characters? p).isSome) = [.content s]

/-- Parts that are no tags add the pieces among them. -/
theorem addedFrom_of_untagged {inside : List Part} (h : ∀ p ∈ inside, isTag p = false) :
    addedFrom list before inside = if listAfter before = some list then pieces inside else [] := by
  induction inside generalizing before with
  | nil => exact (ite_self _).symm
  | cons p rest ih =>
    obtain ⟨hp, hrest⟩ := List.forall_mem_cons.1 h
    have hdecides : decides? p = none := by
      cases p with
      | opening | closing => cases hp
      | _ => rfl
    rw [addedFrom, ih hrest, listAfter_concat, hdecides, Option.getD_none]
    cases p with
    | opening | empty | closing => cases hp
    | content s =>
      rw [added]
      split <;> rfl
    | _ => rfl

/-- Content that is in one piece gives one path, which is all of it. -/
theorem pieces_of_inOnePiece {inside : List Part} (h : InOnePiece inside) :
    pieces inside = [Text.trim (characters inside)] := by
  obtain ⟨s, hs⟩ := h
  -- parts that have no characters are neither pieces nor content
  have hfilter (f : Part → Option String) (hf : ∀ p, characters? p = none → f p = none) :
      (inside.filter fun p => (characters? p).isSome).filterMap f = inside.filterMap f := by
    rw [List.filterMap_filter]
    refine congrArg (List.filterMap · inside) (funext fun p => ?_)
    cases hp : characters? p with
    | none => simp [hf p hp]
    | some s => rfl
  have hpieces : pieces inside = [Text.trim s] := by
    rw [pieces, ← hfilter piece?, hs]
    · rfl
    · intro p hp
      cases p <;> first | rfl | cases hp
  have hcharacters : characters inside = s := by
    rw [characters, ← hfilter characters? fun _ => id, hs]
    exact String.empty_append
  rw [hpieces, hcharacters]

/-! ## Elements -/

/-- The tag that begins an element. -/
def startPart (tag : Tag) (isEmpty : Bool) : Part := if isEmpty then .empty tag else .opening tag

/-- An element of paths among some parts, with its content up to the next tag. -/
structure PathElement (list : PathList) (parts : List Part) where
  before : List Part
  tag : Tag
  isEmpty : Bool
  inside : List Part
  after : List Part
  split : parts = before ++ startPart tag isEmpty :: inside ++ after
  named : pathList? tag.name = some list
  untagged : ∀ p ∈ inside, isTag p = false
  ends : ∀ p, after.head? = some p → isTag p = true
  inside_of_isEmpty : isEmpty = true → inside = []

namespace PathElement

/-- An element that should give a path: by its attribute, or by its content if it has no elements
inside. -/
def Gives (e : PathElement list parts) : Prop :=
  (path? e.tag).isSome = true ∨
    Text.trim (characters e.inside) ≠ "" ∧ ∀ tag isEmpty, e.after.head? ≠ some (startPart tag isEmpty)

/-- The path that an element should give. -/
def path (e : PathElement list parts) : String :=
  (path? e.tag).getD (Text.trim (characters e.inside))

/-- The paths of an element. With an attribute, its content is read for the element around it. -/
def own (e : PathElement list parts) : List String :=
  match path? e.tag with
  | some path => path :: if listAfter e.before = some list then pieces e.inside else []
  | none => pieces e.inside

/-- The paths of what stands in front of an element. -/
def front (e : PathElement list parts) : List String := addedFrom list [] e.before

/-- The paths of what stands behind an element. -/
def back (e : PathElement list parts) : List String :=
  addedFrom list (e.before ++ startPart e.tag e.isEmpty :: e.inside) e.after

/-- The content is in one piece, or there is none that is read besides the attribute. -/
def IsWhole (e : PathElement list parts) : Prop :=
  if (path? e.tag).isSome then listAfter e.before = some list → pieces e.inside = []
  else InOnePiece e.inside

theorem own_of_isWhole {e : PathElement list parts} (h : e.IsWhole) : e.own = [e.path] := by
  unfold IsWhole at h
  unfold own path
  cases hpath : path? e.tag with
  | some path =>
    rw [hpath, if_pos (Option.isSome_some)] at h
    by_cases hlist : listAfter e.before = some list
    · simp [h hlist]
    · simp [hlist]
  | none =>
    rw [hpath, if_neg (by simp)] at h
    exact pieces_of_inOnePiece h

/-- An element adds its own paths. -/
theorem addedFrom_eq_own (e : PathElement list parts) :
    addedFrom list e.before (startPart e.tag e.isEmpty :: e.inside) = e.own := by
  have hadded : added list e.before (startPart e.tag e.isEmpty) = (path? e.tag).toList := by
    unfold startPart
    split <;> simp [added, e.named]
  rw [addedFrom, hadded, addedFrom_of_untagged e.untagged, listAfter_concat, own]
  cases hpath : path? e.tag with
  | some path =>
    have hdecides : decides? (startPart e.tag e.isEmpty) = none := by
      unfold startPart
      split <;> simp [decides?, hpath]
    rw [hdecides]
    rfl
  | none =>
    cases hempty : e.isEmpty with
    | true =>
      rw [e.inside_of_isEmpty hempty]
      exact ite_self _
    | false => simp [startPart, decides?, hpath, e.named]

theorem addedFrom_eq (e : PathElement list parts) :
    addedFrom list [] parts = e.front ++ e.own ++ e.back := by
  have happend := addedFrom_append list [] e.before (startPart e.tag e.isEmpty :: e.inside)
  rw [List.nil_append, e.addedFrom_eq_own] at happend
  have hsplit := addedFrom_append list [] (e.before ++ startPart e.tag e.isEmpty :: e.inside) e.after
  rw [← e.split, List.nil_append, happend] at hsplit
  exact hsplit

end PathElement

/-! ## Texts -/

/-- **The paths of a markup text** come from its parts, in order. An element gives the path of its
attribute, or else the pieces of its content one by one; so it gives its path and nothing else
where its content is in one piece. -/
theorem paths_of_elements {path text : String} {d : Document} (hmarkup : isJson text = false)
    (h : parse path text = .ok [d]) (list : PathList) :
    list.of d = addedFrom list [] (Markup.read text).parts ∧
      ∀ e : PathElement list (Markup.read text).parts,
        list.of d = e.front ++ e.own ++ e.back ∧ (e.IsWhole → e.own = [e.path]) := by
  obtain ⟨r, run, rfl⟩ := exists_run_of_parse hmarkup h
  have hpaths : list.of r.document = addedFrom list [] (Markup.read text).parts := by
    have hnone : list.of ({} : Partial).document = [] := by cases list <;> rfl
    have hrun : list.of r.document =
        list.of ({} : Partial).document ++ addedFrom list [] (Markup.read text).parts :=
      paths_of_run run rfl
    rwa [hnone, List.nil_append] at hrun
  exact ⟨hpaths, fun e => ⟨hpaths.trans e.addedFrom_eq, PathElement.own_of_isWhole⟩⟩

/-- A text with an attribute, with content in one piece and in two, and with a section. -/
def piecesText : String :=
  "<include path='a.h'/><source> b.c <!-- b --></source><include>c<!-- d -->e</include>" ++
    "<source><![CDATA[f]]></source>"

/-- What it is read as. -/
def piecesDocument : Document where
  includes := ["a.h", "c", "e"]
  sources := ["b.c"]

theorem paths_of_elements_pieces :
    parse "doc" piecesText = .ok [piecesDocument] ∧
      (∃ e : PathElement .sources (Markup.read piecesText).parts, e.IsWhole ∧ e.own = ["b.c"] ∧
        piecesDocument.sources = e.front ++ e.own ++ e.back) ∧
      ∃ e : PathElement .includes (Markup.read piecesText).parts, e.own = ["c", "e"] ∧
        piecesDocument.includes = e.front ++ e.own ++ e.back := by
  have hmarkup : isJson piecesText = false := by decide +kernel
  have hparse : parse "doc" piecesText = .ok [piecesDocument] := by decide +kernel
  obtain ⟨-, hsources⟩ := paths_of_elements hmarkup hparse .sources
  obtain ⟨-, hincludes⟩ := paths_of_elements hmarkup hparse .includes
  let whole : PathElement .sources (Markup.read piecesText).parts := {
    before := [.empty ⟨"include", [("path", "a.h")]⟩]
    tag := { name := "source" }
    isEmpty := false
    inside := [.content "b.c", .comment " b "]
    after := .closing "source" :: .opening { name := "include" } :: .content "c" ::
      .comment " d " :: .content "e" :: .closing "include" :: .opening { name := "source" } ::
      .characterData "f" :: [.closing "source"]
    split := by decide +kernel
    named := rfl
    untagged := by decide
    ends := by rintro _ ⟨⟩; rfl
    inside_of_isEmpty := nofun }
  let broken : PathElement .includes (Markup.read piecesText).parts := {
    before := .empty ⟨"include", [("path", "a.h")]⟩ :: .opening { name := "source" } ::
      .content "b.c" :: .comment " b " :: [.closing "source"]
    tag := { name := "include" }
    isEmpty := false
    inside := [.content "c", .comment " d ", .content "e"]
    after := .closing "include" :: .opening { name := "source" } :: .characterData "f" ::
      [.closing "source"]
    split := by decide +kernel
    named := rfl
    untagged := by decide
    ends := by rintro _ ⟨⟩; rfl
    inside_of_isEmpty := nofun }
  have hwhole : whole.IsWhole := ⟨"b.c", rfl⟩
  refine ⟨hparse, ⟨whole, hwhole, ?_, (hsources whole).1⟩, broken, rfl, (hincludes broken).1⟩
  rw [(hsources whole).2 hwhole]
  decide +kernel

/-- An element whose content is a section gives no path at all. -/
theorem exists_path_lost :
    ¬ ∀ (path text : String) (d : Document), isJson text = false → parse path text = .ok [d] →
      ∀ (list : PathList) (e : PathElement list (Markup.read text).parts), e.Gives →
        ∃ front back, list.of d = front ++ [e.path] ++ back := by
  intro all
  let text := "<include><![CDATA[a]]></include>"
  let e : PathElement .includes (Markup.read text).parts := {
    before := []
    tag := { name := "include" }
    isEmpty := false
    inside := [.characterData "a"]
    after := [.closing "include"]
    split := by decide +kernel
    named := rfl
    untagged := by decide
    ends := by rintro _ ⟨⟩; rfl
    inside_of_isEmpty := nofun }
  have hgives : e.Gives := by
    refine .inr ⟨by decide +kernel, fun tag isEmpty => ?_⟩
    cases isEmpty <;> exact nofun
  obtain ⟨front, back, hpaths⟩ :=
    all "doc" text {} (by decide +kernel) (by decide +kernel) .includes e hgives
  have hlength := congrArg List.length hpaths
  simp [PathList.of] at hlength

end EventSchema.Document
