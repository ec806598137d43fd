import EventSchema.Document.Parse
import Mathlib.Tactic.Common

/-!
# Tasks and events that are recorded

A task or an event that is no empty element is set aside at its start tag and recorded at the next
end tag of its kind, and only one of each kind is set aside at a time. So the tags of a text and
what is recorded of them are the same exactly where every start tag is closed before the next one
of its kind (`recorded_closedTags`). A start tag that is not is forgotten, and the text is read all
the same.

Tasks and events are kinds of elements that are treated alike (`Kind.Lawful`). What will have been
recorded at the end of some parts is not changed by reading one of them
(`Kind.Lawful.outcome_take`), so it is what is recorded there (`Kind.Lawful.recorded_of_run`).
-/

namespace EventSchema.Document

open EventSchema.Markup (Part Tag)

/-! ## Tags of a name -/

/-- The tag of a part that begins an element of some name. -/
def beginning? (name : String) : Part → Option Tag
  | .opening tag | .empty tag => if tag.name = name then some tag else none
  | _ => none

/-- The start tags and the empty-element tags of some name. -/
def tagsNamed (name : String) (parts : List Part) : List Tag := parts.filterMap (beginning? name)

/-- An end tag of some name comes before any start tag of that name. -/
def ClosesFirst (name : String) (parts : List Part) : Prop :=
  ∃ inside after, parts = inside ++ .closing name :: after ∧
    ∀ tag, .opening tag ∈ inside → tag.name ≠ name

theorem not_closesFirst_nil (name : String) : ¬ ClosesFirst name [] := by
  rintro ⟨inside, after, h, -⟩
  exact absurd h.symm (List.append_ne_nil_of_right_ne_nil _ (List.cons_ne_nil _ _))

theorem closesFirst_closing (name : String) (rest : List Part) :
    ClosesFirst name (.closing name :: rest) :=
  ⟨[], rest, rfl, nofun⟩

/-- A part that is no end tag of the name decides only if it is a start tag. -/
theorem closesFirst_cons {name : String} {p : Part} {rest : List Part} (hp : p ≠ .closing name) :
    ClosesFirst name (p :: rest) ↔
      (∀ tag, p = .opening tag → tag.name ≠ name) ∧ ClosesFirst name rest := by
  constructor
  · rintro ⟨inside, after, h, apart⟩
    cases inside with
    | nil => exact absurd (List.cons.inj h).1 hp
    | cons q inside =>
      obtain ⟨rfl, hrest⟩ := List.cons.inj h
      exact ⟨fun tag htag => apart tag (htag ▸ List.mem_cons_self),
        inside, after, hrest, fun tag htag => apart tag (List.mem_cons_of_mem _ htag)⟩
  · rintro ⟨hother, inside, after, rfl, apart⟩
    refine ⟨p :: inside, after, rfl, fun tag htag => ?_⟩
    rcases List.mem_cons.1 htag with heq | htag
    · exact hother tag heq.symm
    · exact apart tag htag

instance decidableClosesFirst (name : String) : ∀ parts, Decidable (ClosesFirst name parts)
  | [] => isFalse (not_closesFirst_nil name)
  | p :: rest =>
    if hp : p = .closing name then isTrue (hp ▸ closesFirst_closing name rest)
    else
      have := decidableClosesFirst name rest
      have : Decidable (∀ tag, p = .opening tag → tag.name ≠ name) :=
        match p with
        | .opening tag => decidable_of_iff (tag.name ≠ name)
            ⟨fun h _ heq => Part.opening.inj heq ▸ h, fun h => h tag rfl⟩
        | .empty _ | .closing _ | .content _ | .characterData _ | .comment _ | .instruction _
        | .doctype _ => isTrue nofun
      decidable_of_iff _ (closesFirst_cons hp).symm

/-- Every start tag of some name is closed before the next one of that name. -/
def ClosedInTurn (name : String) (parts : List Part) : Prop :=
  ∀ before tag after, parts = before ++ .opening tag :: after → tag.name = name →
    ClosesFirst name after

/-- The tags of some name, without the start tags that are not closed before the next one. -/
def closedTags (name : String) : List Part → List Tag
  | [] => []
  | .opening tag :: rest =>
    if tag.name = name ∧ ClosesFirst name rest then tag :: closedTags name rest
    else closedTags name rest
  | p :: rest => (beginning? name p).toList ++ closedTags name rest

theorem closedInTurn_cons {name : String} {p : Part} {rest : List Part} :
    ClosedInTurn name (p :: rest) ↔
      (∀ tag, p = .opening tag → tag.name = name → ClosesFirst name rest) ∧
        ClosedInTurn name rest := by
  constructor
  · intro h
    refine ⟨fun tag htag => h [] tag rest (htag ▸ rfl), fun before tag after hsplit => ?_⟩
    exact h (p :: before) tag after (hsplit ▸ rfl)
  · rintro ⟨hfirst, hrest⟩ before tag after hsplit hname
    cases before with
    | nil =>
      obtain ⟨rfl, rfl⟩ := List.cons.inj hsplit
      exact hfirst tag rfl hname
    | cons q before =>
      obtain ⟨-, rfl⟩ := List.cons.inj hsplit
      exact hrest before tag after rfl hname

theorem tagsNamed_cons (name : String) (p : Part) (rest : List Part) :
    tagsNamed name (p :: rest) = (beginning? name p).toList ++ tagsNamed name rest := by
  rw [tagsNamed, List.filterMap_cons]
  cases beginning? name p <;> rfl

theorem closedTags_sublist (name : String) (parts : List Part) :
    (closedTags name parts).Sublist (tagsNamed name parts) := by
  fun_induction closedTags name parts with
  | case1 => exact .refl _
  | case2 tag rest h ih =>
    rw [tagsNamed_cons, beginning?, if_pos h.1]
    exact ih.cons_cons tag
  | case3 tag rest h ih =>
    rw [tagsNamed_cons]
    exact ih.trans (List.sublist_append_right _ _)
  | case4 p rest _ ih =>
    rw [tagsNamed_cons]
    exact ih.append_left _

theorem closedTags_eq_iff {name : String} {parts : List Part} :
    closedTags name parts = tagsNamed name parts ↔ ClosedInTurn name parts := by
  fun_induction closedTags name parts with
  | case1 =>
    refine iff_of_true rfl fun before tag after h => ?_
    exact absurd h.symm (List.append_ne_nil_of_right_ne_nil _ (List.cons_ne_nil _ _))
  | case2 tag rest h ih =>
    rw [tagsNamed_cons, beginning?, if_pos h.1, closedInTurn_cons, ← ih]
    simp [h.2]
  | case3 tag rest h ih =>
    rw [tagsNamed_cons, beginning?, closedInTurn_cons]
    by_cases hname : tag.name = name
    · have hopen : ¬ ClosesFirst name rest := fun hcloses => h ⟨hname, hcloses⟩
      rw [if_pos hname]
      refine iff_of_false (fun heq => ?_) fun hturn => hopen (hturn.1 tag rfl hname)
      have hlength := (closedTags_sublist name rest).length_le
      rw [heq] at hlength
      exact absurd hlength (Nat.not_succ_le_self _)
    · rw [if_neg hname, Option.toList_none, List.nil_append, ih]
      refine (and_iff_right fun other heq hother => ?_).symm
      exact absurd (Part.opening.inj heq ▸ hother) hname
  | case4 p rest hp ih =>
    rw [tagsNamed_cons, List.append_cancel_left_eq, ih, closedInTurn_cons]
    exact (and_iff_right fun tag htag => absurd htag (hp tag)).symm

/-! ## Parts that decide nothing -/

section

variable {name : String} {p : Part} {rest : List Part}

theorem beginning?_eq_some {tag : Tag} :
    beginning? name p = some tag ↔ (p = .opening tag ∨ p = .empty tag) ∧ tag.name = name := by
  cases p with
  | opening other | empty other =>
    rw [beginning?, Option.ite_none_right_eq_some, Option.some.injEq]
    constructor
    · rintro ⟨hname, rfl⟩
      simp [hname]
    · rintro ⟨heq, hname⟩
      simp only [Part.opening.injEq, Part.empty.injEq, reduceCtorEq, or_false, false_or] at heq
      exact ⟨heq ▸ hname, heq⟩
  | _ => simp [beginning?]

theorem closesFirst_of_not_opening (hclosing : p ≠ .closing name)
    (hopening : ∀ tag, p = .opening tag → tag.name ≠ name) :
    ClosesFirst name (p :: rest) ↔ ClosesFirst name rest :=
  (closesFirst_cons hclosing).trans (and_iff_right hopening)

theorem closedTags_of_beginning?_none (h : beginning? name p = none) :
    closedTags name (p :: rest) = closedTags name rest := by
  cases p with
  | opening tag =>
    have hname : tag.name ≠ name := fun hname => by
      rw [beginning?, if_pos hname] at h
      cases h
    rw [closedTags, if_neg fun hboth => hname hboth.1]
  | _ => simp only [closedTags, h, Option.toList_none, List.nil_append]

end

/-! ## Kinds of elements -/

/-- A kind of elements that are set aside and recorded, by what is seen of them. -/
structure Kind (γ : Type) where
  name : String
  recorded : Document → List γ
  aside : Partial → Option γ
  /-- What the tag of an element says. -/
  said : Tag → γ

namespace Kind

variable {γ : Type}

/-- States in which a kind looks the same. -/
structure Same (k : Kind γ) (r r' : Partial) : Prop where
  recorded : k.recorded r'.document = k.recorded r.document
  aside : k.aside r' = k.aside r

/-- What the parts of a text do to a kind of elements: a start tag sets what it says aside, and an
end tag records it. -/
structure Lawful (k : Kind γ) : Prop where
  opening : ∀ (r r' : Partial) (tag : Tag), tag.name = k.name → r.take (.opening tag) = .ok r' →
    k.recorded r'.document = k.recorded r.document ∧ k.aside r' = some (k.said tag)
  empty : ∀ (r r' : Partial) (tag : Tag), tag.name = k.name → r.take (.empty tag) = .ok r' →
    k.recorded r'.document = k.recorded r.document ++ [k.said tag] ∧ k.aside r' = k.aside r
  closing : ∀ r : Partial,
    k.recorded (r.takeClosing k.name).document = k.recorded r.document ++ (k.aside r).toList ∧
      k.aside (r.takeClosing k.name) = none
  other : ∀ (r r' : Partial) (p : Part), beginning? k.name p = none → p ≠ .closing k.name →
    r.take p = .ok r' → k.Same r r'

/-- What will have been recorded at the end of some parts: what has been by now, what is set aside
if it is closed before the next start tag, and the tags that are closed in turn. -/
def outcome (k : Kind γ) (r : Partial) (parts : List Part) : List γ :=
  k.recorded r.document ++ (if ClosesFirst k.name parts then (k.aside r).toList else []) ++
    (closedTags k.name parts).map k.said

variable {k : Kind γ} {r m r' : Partial}

theorem Lawful.outcome_closing (h : k.Lawful) (r : Partial) (rest : List Part) :
    k.outcome (r.takeClosing k.name) rest = k.outcome r (.closing k.name :: rest) := by
  obtain ⟨hrecorded, haside⟩ := h.closing r
  have htags : closedTags k.name (.closing k.name :: rest) = closedTags k.name rest :=
    closedTags_of_beginning?_none rfl
  unfold outcome
  rw [hrecorded, haside, htags, if_pos (closesFirst_closing k.name rest), Option.toList_none,
    ite_self, List.append_nil]

theorem Lawful.outcome_other (h : k.Lawful) {p : Part} (hbeginning : beginning? k.name p = none)
    (hclosing : p ≠ .closing k.name) (hstep : r.take p = .ok m) (rest : List Part) :
    k.outcome m rest = k.outcome r (p :: rest) := by
  obtain ⟨hrecorded, haside⟩ := h.other r m p hbeginning hclosing hstep
  have hopening : ∀ tag, p = .opening tag → tag.name ≠ k.name := fun tag htag hname => by
    rw [beginning?_eq_some.2 ⟨.inl htag, hname⟩] at hbeginning
    cases hbeginning
  unfold outcome
  rw [hrecorded, haside, closedTags_of_beginning?_none hbeginning]
  simp only [closesFirst_of_not_opening hclosing hopening]

/-- What was set aside before a start tag is forgotten. -/
theorem Lawful.outcome_opening (h : k.Lawful) {tag : Tag} (hname : tag.name = k.name)
    (hstep : r.take (.opening tag) = .ok m) (rest : List Part) :
    k.outcome m rest = k.outcome r (.opening tag :: rest) := by
  obtain ⟨hrecorded, haside⟩ := h.opening r m tag hname hstep
  have hclosing : Part.opening tag ≠ .closing k.name := nofun
  have hforgotten : ¬ ClosesFirst k.name (.opening tag :: rest) := fun hcloses =>
    ((closesFirst_cons hclosing).1 hcloses).1 tag rfl hname
  unfold outcome
  rw [hrecorded, haside, if_neg hforgotten, List.append_nil, closedTags]
  by_cases hcloses : ClosesFirst k.name rest
  · rw [if_pos hcloses, if_pos ⟨hname, hcloses⟩, List.append_assoc]
    rfl
  · rw [if_neg hcloses, if_neg fun hboth => hcloses hboth.2, List.append_nil]

/-- An empty element is recorded at once, before what is set aside. -/
theorem Lawful.outcome_empty (h : k.Lawful) {tag : Tag} (hname : tag.name = k.name)
    (hstep : r.take (.empty tag) = .ok m) (rest : List Part) :
    (k.outcome m rest).Perm (k.outcome r (.empty tag :: rest)) := by
  obtain ⟨hrecorded, haside⟩ := h.empty r m tag hname hstep
  have hsame : ClosesFirst k.name (.empty tag :: rest) ↔ ClosesFirst k.name rest :=
    closesFirst_of_not_opening nofun nofun
  have htags : closedTags k.name (.empty tag :: rest) = tag :: closedTags k.name rest := by
    rw [closedTags, beginning?, if_pos hname]
    · rfl
    · exact nofun
  unfold outcome
  simp only [hrecorded, haside, hsame, htags, List.append_assoc, List.singleton_append,
    List.map_cons]
  exact List.perm_middle.symm.append_left _

/-- **One part** does not change what will have been recorded at the end. -/
theorem Lawful.outcome_take (h : k.Lawful) {p : Part} (hstep : r.take p = .ok m)
    (rest : List Part) : (k.outcome m rest).Perm (k.outcome r (p :: rest)) := by
  by_cases hclosing : p = .closing k.name
  · subst hclosing
    cases hstep
    exact .of_eq (h.outcome_closing r rest)
  · cases hbeginning : beginning? k.name p with
    | none => exact .of_eq (h.outcome_other hbeginning hclosing hstep rest)
    | some tag =>
      obtain ⟨rfl | rfl, hname⟩ := beginning?_eq_some.1 hbeginning
      · exact .of_eq (h.outcome_opening hname hstep rest)
      · exact h.outcome_empty hname hstep rest

/-- **All parts** record what they will have recorded. -/
theorem Lawful.recorded_of_run (h : k.Lawful) {parts : List Part}
    (run : parts.foldlM Partial.take r = .ok r') :
    (k.recorded r'.document).Perm (k.outcome r parts) := by
  induction parts generalizing r with
  | nil =>
    cases run
    rw [outcome, if_neg (not_closesFirst_nil k.name), closedTags, List.map_nil, List.append_nil,
      List.append_nil]
  | cons p rest ih =>
    rw [List.foldlM_cons] at run
    cases hstep : r.take p with
    | error e =>
      rw [hstep] at run
      cases run
    | ok m =>
      rw [hstep] at run
      exact (ih run).trans (h.outcome_take hstep rest)

/-- A document has one element of a kind for each tag of its name. -/
def RecordsAll (k : Kind γ) (parts : List Part) (d : Document) : Prop :=
  (k.recorded d).Perm ((tagsNamed k.name parts).map k.said)

/-- A document has one element of a kind for each tag that is closed before the next start tag of
the kind, and these are all tags exactly where each is closed in turn. -/
structure RecordsClosed (k : Kind γ) (parts : List Part) (d : Document) : Prop where
  kept : (k.recorded d).Perm ((closedTags k.name parts).map k.said)
  all_iff : k.RecordsAll parts d ↔ ClosedInTurn k.name parts

theorem Lawful.recordsClosed (h : k.Lawful) {parts : List Part}
    (hrecorded : k.recorded r.document = []) (haside : k.aside r = none)
    (run : parts.foldlM Partial.take r = .ok r') : k.RecordsClosed parts r'.document := by
  have kept : (k.recorded r'.document).Perm ((closedTags k.name parts).map k.said) := by
    simpa [outcome, hrecorded, haside] using h.recorded_of_run run
  refine ⟨kept, ⟨fun all => ?_, fun hturn => ?_⟩⟩
  · -- as many tags are closed in turn as there are
    have hlength := (kept.symm.trans all).length_eq
    rw [List.length_map, List.length_map] at hlength
    exact closedTags_eq_iff.1 ((closedTags_sublist k.name parts).eq_of_length hlength)
  · rwa [RecordsAll, ← closedTags_eq_iff.2 hturn]

end Kind

/-! ## Tasks and events -/

/-- States that agree in the tasks and the events that are recorded and set aside. -/
structure Partial.Agrees (r r' : Partial) : Prop where
  tasks : r'.document.tasks = r.document.tasks
  events : r'.document.events = r.document.events
  task : r'.task = r.task
  event : r'.event = r.event

theorem agrees_addPath (r : Partial) (list : PathList) (path : String) :
    r.Agrees (r.addPath list path) := by
  cases list <;> exact ⟨rfl, rfl, rfl, rfl⟩

theorem agrees_takePath (r : Partial) (list : PathList) (tag : Tag) (isEmpty : Bool) :
    r.Agrees (r.takePath list tag isEmpty) := by
  unfold Partial.takePath
  split
  · exact agrees_addPath r list _
  · split <;> exact ⟨rfl, rfl, rfl, rfl⟩

/-- What a start tag or an empty-element tag does to tasks and events. -/
inductive TakesTag (r : Partial) (tag : Tag) (isEmpty : Bool) : Partial → Prop
  | task {t : TaskEntry} (name : tag.name = "task") (said : taskOfTag tag = .ok t) :
    TakesTag r tag isEmpty (if isEmpty then r.addTask t else { r with task := some t })
  | event {e : EventDecl} (name : tag.name = "event") (said : eventOfTag tag = .ok e) :
    TakesTag r tag isEmpty (if isEmpty then r.addEvent e else { r with event := some e })
  | opcode {t : TaskEntry} (name : tag.name = "opcode") (open_ : r.task = some t)
      (o : OpcodeEntry) :
    TakesTag r tag isEmpty { r with task := some { t with opcodes := t.opcodes ++ [o] } }
  | param {e : EventDecl} (name : tag.name = "param") (open_ : r.event = some e)
      (p : String × String) :
    TakesTag r tag isEmpty { r with event := some { e with params := e.params ++ [p] } }
  | other {r' : Partial} (noTask : tag.name ≠ "task") (noEvent : tag.name ≠ "event")
      (agrees : r.Agrees r') : TakesTag r tag isEmpty r'

theorem takesTag_of_ok {r r' : Partial} {tag : Tag} {isEmpty : Bool}
    (h : r.takeTag tag isEmpty = .ok r') : TakesTag r tag isEmpty r' := by
  unfold Partial.takeTag at h
  simp only [bind, Except.bind, pure, Except.pure] at h
  split at h
  case h_1 name | h_4 name | h_5 name | h_6 name =>
    repeat' split at h
    all_goals cases h
    all_goals exact .other (by simp [name]) (by simp [name]) ⟨rfl, rfl, rfl, rfl⟩
  case h_2 name | h_3 name =>
    cases h
    exact .other (by simp [name]) (by simp [name]) (agrees_takePath r _ tag isEmpty)
  case h_7 name =>
    split at h
    · cases h
    · next t said =>
      cases h
      exact .task name said
  case h_8 name =>
    split at h
    · cases h
    next o _ =>
    split at h
    · next t open_ =>
      cases h
      exact .opcode name open_ o
    · cases h
      exact .other (by simp [name]) (by simp [name]) ⟨rfl, rfl, rfl, rfl⟩
  case h_9 name =>
    split at h
    · cases h
    · next e said =>
      cases h
      exact .event name said
  case h_10 name =>
    repeat' split at h
    all_goals cases h
    next e open_ => exact .param name open_ _
  case h_11 noTask _ noEvent _ =>
    cases h
    exact .other noTask noEvent ⟨rfl, rfl, rfl, rfl⟩

/-! ### What the tags say -/

theorem lookup_of_required {tag : Tag} {key value : String} (h : required tag key = .ok value) :
    tag.attributes.lookup key = some value := by
  unfold required at h
  split at h
  · next found _ =>
    cases h
    assumption
  · cases h

theorem name_of_taskOfTag {tag : Tag} {t : TaskEntry} (h : taskOfTag tag = .ok t) :
    some t.name = tag.attributes.lookup "name" := by
  simp only [taskOfTag, bind, Except.bind, pure, Except.pure] at h
  split at h
  · cases h
  next name hname =>
  split at h
  · cases h
  cases h
  exact (lookup_of_required hname).symm

theorem params_of_eventOfTag {tag : Tag} {e : EventDecl} (h : eventOfTag tag = .ok e) :
    e.params = [] := by
  simp only [eventOfTag, bind, Except.bind, pure, Except.pure] at h
  repeat' split at h
  all_goals cases h
  rfl

/-- Tasks are seen by their names. -/
def taskKind : Kind (Option String) where
  name := "task"
  recorded d := d.tasks.map (some ·.name)
  aside r := r.task.map (some ·.name)
  said := (·.attributes.lookup "name")

/-- An event as its tag gives it: its parameters are elements of their own. -/
def asTagged (e : EventDecl) : Except Error EventDecl := .ok { e with params := [] }

theorem asTagged_of_eventOfTag {tag : Tag} {e : EventDecl} (h : eventOfTag tag = .ok e) :
    asTagged e = eventOfTag tag := by
  rw [h, asTagged, ← params_of_eventOfTag h]

/-- Events are seen by everything that their tags give. -/
def eventKind : Kind (Except Error EventDecl) where
  name := "event"
  recorded d := d.events.map asTagged
  aside r := r.event.map asTagged
  said := eventOfTag

/-! ### Other parts -/

theorem agrees_takeClosing (r : Partial) {name : String} (htask : name ≠ "task")
    (hevent : name ≠ "event") : r.Agrees (r.takeClosing name) := by
  unfold Partial.takeClosing
  split
  · exact absurd rfl htask
  · exact absurd rfl hevent
  all_goals exact ⟨rfl, rfl, rfl, rfl⟩

theorem takeClosing_task (r : Partial) :
    (r.takeClosing "task").task = none ∧ (r.takeClosing "task").event = r.event ∧
      (r.takeClosing "task").document.tasks = r.document.tasks ++ r.task.toList ∧
      (r.takeClosing "task").document.events = r.document.events := by
  unfold Partial.takeClosing
  cases h : r.task with
  | none => exact ⟨h, rfl, (List.append_nil _).symm, rfl⟩
  | some t => exact ⟨rfl, rfl, rfl, rfl⟩

theorem takeClosing_event (r : Partial) :
    (r.takeClosing "event").event = none ∧ (r.takeClosing "event").task = r.task ∧
      (r.takeClosing "event").document.events = r.document.events ++ r.event.toList ∧
      (r.takeClosing "event").document.tasks = r.document.tasks := by
  unfold Partial.takeClosing
  cases h : r.event with
  | none => exact ⟨h, rfl, (List.append_nil _).symm, rfl⟩
  | some e => exact ⟨rfl, rfl, rfl, rfl⟩

/-- A part that neither begins nor ends an element of the name is a tag or an end tag of another
name, or leaves tasks and events alone. -/
theorem of_other_part {name : String} {Same : Partial → Prop} {r r' : Partial} {p : Part}
    (hbeginning : beginning? name p = none) (hclosing : p ≠ .closing name)
    (h : r.take p = .ok r')
    (tags : ∀ tag isEmpty, tag.name ≠ name → TakesTag r tag isEmpty r' → Same r')
    (closings : ∀ other, other ≠ name → Same (r.takeClosing other))
    (agreeing : r.Agrees r' → Same r') : Same r' := by
  have apart (tag : Tag) (hp : p = .opening tag ∨ p = .empty tag) : tag.name ≠ name :=
    fun hname => by simp [beginning?_eq_some.2 ⟨hp, hname⟩] at hbeginning
  cases p with
  | opening tag => exact tags tag false (apart tag (.inl rfl)) (takesTag_of_ok h)
  | empty tag => exact tags tag true (apart tag (.inr rfl)) (takesTag_of_ok h)
  | closing other =>
    cases h
    exact closings other fun hname => hclosing (hname ▸ rfl)
  | content s =>
    rw [Partial.take] at h
    split at h
    · cases h
      exact agreeing (agrees_addPath r _ _)
    · cases h
      exact agreeing ⟨rfl, rfl, rfl, rfl⟩
  | _ =>
    cases h
    exact agreeing ⟨rfl, rfl, rfl, rfl⟩

/-! ### Tasks -/

section

variable {r r' : Partial} {tag : Tag} {isEmpty : Bool}

theorem same_task (htasks : r'.document.tasks = r.document.tasks) (htask : r'.task = r.task) :
    taskKind.Same r r' :=
  ⟨congrArg (List.map _) htasks, congrArg (Option.map _) htask⟩

theorem TakesTag.exists_task (h : TakesTag r tag isEmpty r') (hname : tag.name = "task") :
    ∃ t, taskOfTag tag = .ok t ∧
      r' = if isEmpty then r.addTask t else { r with task := some t } := by
  cases h with
  | task _ said => exact ⟨_, said, rfl⟩
  | event name | opcode name | param name => exact absurd (hname.symm.trans name) (by decide)
  | other noTask => exact absurd hname noTask

/-- Other tags may add an opcode to the task that is set aside. -/
theorem TakesTag.same_task (hname : tag.name ≠ "task") (h : TakesTag r tag isEmpty r') :
    taskKind.Same r r' := by
  cases h with
  | task name => exact absurd name hname
  | event => split <;> exact ⟨rfl, rfl⟩
  | opcode _ open_ o =>
    exact ⟨rfl, congrArg (Option.map fun t : TaskEntry => some t.name) open_.symm⟩
  | param => exact ⟨rfl, rfl⟩
  | other _ _ agrees => exact Document.same_task agrees.tasks agrees.task

theorem lawful_taskKind : taskKind.Lawful where
  opening r r' tag name h := by
    obtain ⟨t, said, rfl⟩ := (takesTag_of_ok h).exists_task name
    exact ⟨rfl, congrArg some (name_of_taskOfTag said)⟩
  empty r r' tag name h := by
    obtain ⟨t, said, rfl⟩ := (takesTag_of_ok h).exists_task name
    exact ⟨List.map_append.trans (congrArg (_ ++ [·]) (name_of_taskOfTag said)), rfl⟩
  closing r := by
    obtain ⟨haside, -, htasks, -⟩ := takeClosing_task r
    refine ⟨?_, congrArg (Option.map _) haside⟩
    change ((r.takeClosing "task").document.tasks).map _ = _
    rw [htasks, List.map_append]
    cases htask : r.task <;> simp [taskKind, htask]
  other r r' p hbeginning hclosing h := by
    apply of_other_part hbeginning hclosing h
    · exact fun tag isEmpty => TakesTag.same_task
    · intro other hother
      by_cases hevent : other = "event"
      · obtain ⟨-, htask, -, htasks⟩ := hevent ▸ takeClosing_event r
        exact same_task htasks htask
      · have agrees := agrees_takeClosing r hother hevent
        exact same_task agrees.tasks agrees.task
    · exact fun agrees => same_task agrees.tasks agrees.task

/-! ### Events -/

theorem same_event (hevents : r'.document.events = r.document.events)
    (hevent : r'.event = r.event) : eventKind.Same r r' :=
  ⟨congrArg (List.map _) hevents, congrArg (Option.map _) hevent⟩

theorem TakesTag.exists_event (h : TakesTag r tag isEmpty r') (hname : tag.name = "event") :
    ∃ e, eventOfTag tag = .ok e ∧
      r' = if isEmpty then r.addEvent e else { r with event := some e } := by
  cases h with
  | event _ said => exact ⟨_, said, rfl⟩
  | task name | opcode name | param name => exact absurd (hname.symm.trans name) (by decide)
  | other _ noEvent => exact absurd hname noEvent

/-- Other tags may add a parameter to the event that is set aside. -/
theorem TakesTag.same_event (hname : tag.name ≠ "event") (h : TakesTag r tag isEmpty r') :
    eventKind.Same r r' := by
  cases h with
  | event name => exact absurd name hname
  | task => split <;> exact ⟨rfl, rfl⟩
  | opcode => exact ⟨rfl, rfl⟩
  | param _ open_ p => exact ⟨rfl, congrArg (Option.map asTagged) open_.symm⟩
  | other _ _ agrees => exact Document.same_event agrees.events agrees.event

theorem lawful_eventKind : eventKind.Lawful where
  opening r r' tag name h := by
    obtain ⟨e, said, rfl⟩ := (takesTag_of_ok h).exists_event name
    exact ⟨rfl, congrArg some (asTagged_of_eventOfTag said)⟩
  empty r r' tag name h := by
    obtain ⟨e, said, rfl⟩ := (takesTag_of_ok h).exists_event name
    exact ⟨List.map_append.trans (congrArg (_ ++ [·]) (asTagged_of_eventOfTag said)), rfl⟩
  closing r := by
    obtain ⟨haside, -, hevents, -⟩ := takeClosing_event r
    refine ⟨?_, congrArg (Option.map _) haside⟩
    change ((r.takeClosing "event").document.events).map _ = _
    rw [hevents, List.map_append]
    cases hevent : r.event <;> simp [eventKind, hevent]
  other r r' p hbeginning hclosing h := by
    apply of_other_part hbeginning hclosing h
    · exact fun tag isEmpty => TakesTag.same_event
    · intro other hother
      by_cases htask : other = "task"
      · obtain ⟨-, hevent, -, hevents⟩ := htask ▸ takeClosing_task r
        exact same_event hevents hevent
      · have agrees := agrees_takeClosing r htask hother
        exact same_event agrees.events agrees.event
    · exact fun agrees => same_event agrees.events agrees.event

end

/-! ## Texts -/

/-- The document of a markup text is what its parts leave. -/
theorem exists_run_of_parse {path text : String} {d : Document} (hmarkup : isJson text = false)
    (h : parse path text = .ok [d]) :
    ∃ r, (Markup.read text).parts.foldlM Partial.take {} = .ok r ∧ r.document = d := by
  rw [parse, if_neg (by simp [hmarkup]), ofMarkup] at h
  cases hrun : (Markup.read text).parts.foldlM Partial.take {} with
  | error e =>
    rw [hrun] at h
    cases h
  | ok r =>
    rw [hrun] at h
    simp only [bind, Except.bind, pure, Except.pure] at h
    split at h
    · cases h
    · cases h
      exact ⟨r, rfl, rfl⟩

/-- **The tasks and the events of a markup text.** A document has a task for each task tag and an
event for each event tag that is closed before the next start tag of its kind, with what the tag
says, and loses the others. -/
theorem recorded_closedTags {path text : String} {d : Document} (hmarkup : isJson text = false)
    (h : parse path text = .ok [d]) :
    taskKind.RecordsClosed (Markup.read text).parts d ∧
      eventKind.RecordsClosed (Markup.read text).parts d := by
  obtain ⟨r, run, rfl⟩ := exists_run_of_parse hmarkup h
  exact ⟨lawful_taskKind.recordsClosed rfl rfl run, lawful_eventKind.recordsClosed rfl rfl run⟩

/-- A text whose second task is not closed before the third begins, and whose event is never
closed. -/
def openElementsText : String :=
  "<task name='a'/><task name='b'><task name='c'><opcode name='o'/></task>" ++
    "<event subsystem='s' severity='Success' level='Info' channel='h' task='c' opcode='o'>"

/-- What is recorded of it. -/
def openElements : Document where
  tasks := [{ name := "a" }, { name := "c", opcodes := [{ name := "o" }] }]

theorem recorded_closedTags_openElements :
    parse "doc" openElementsText = .ok [openElements] ∧
      taskKind.RecordsClosed (Markup.read openElementsText).parts openElements ∧
      eventKind.RecordsClosed (Markup.read openElementsText).parts openElements := by
  have hmarkup : isJson openElementsText = false := by decide +kernel
  have hparse : parse "doc" openElementsText = .ok [openElements] := by decide +kernel
  exact ⟨hparse, recorded_closedTags hmarkup hparse⟩

/-- A text may end before a task is closed: it is read, and the task is lost. -/
theorem exists_task_lost :
    ¬ ∀ (path text : String) (d : Document), isJson text = false → parse path text = .ok [d] →
      taskKind.RecordsAll (Markup.read text).parts d ∧
        eventKind.RecordsAll (Markup.read text).parts d := by
  intro all
  obtain ⟨htasks, -⟩ := all "doc" "<task name='a'>" {} (by decide +kernel) (by decide +kernel)
  have hlength : 0 = 1 := htasks.length_eq.trans (by decide +kernel)
  exact absurd hlength (by decide)

end EventSchema.Document
