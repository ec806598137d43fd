import EventSchema.Proofs.Source.ClauseText
import EventSchema.Proofs.Source.NormalForm

/-!
# Normal forms are read back

A clause with its arguments in normal form, written with a comma and a space between each two of
them, has a layout with these arguments (`exists_layout_written`). So it is read as it was written,
and a scan takes it whole. What is read of any text is such a clause (`normal_of_parse`), hence
reading brings a clause into a form that reading does not change (`parse_normalizes`).
-/

namespace EventSchema.Source

open Lexeme (opening closing texts)
open Text (isBlankByte)
open Text.Utf8

variable {t u rest : Bytes} {l : Lexeme} {ls row : List Lexeme} {r : Reading} {args : List Bytes}

/-! ## Reading a normal form -/

namespace Reading

/-- Words with single spaces between them, which go on from a state. -/
structure Follows (r : Reading) (ls : List Lexeme) : Prop where
  plain : ∀ l ∈ ls, l.Plain
  first : r.owed = true ∨ r.current = [] → ∀ l, ls.head? = some l → ¬ l.IsTrivia
  last : ∀ l, ls.getLast? = some l → ¬ l.IsTrivia
  single : ls.IsChain fun l m => ¬ (l.IsTrivia ∧ m.IsTrivia)
  commas : ∀ before, before ++ [.byte comma] <+: ls → r.depth + level before ≠ 0

namespace Follows

variable {m : Lexeme}

theorem depth_ne_zero (h : r.Follows (l :: ls)) (hl : l = .byte comma) : r.depth ≠ 0 := by
  subst hl
  simpa using h.commas [] (by simp)

theorem step (h : r.Follows (l :: m :: ls)) : (r.step l.piece).Follows (m :: ls) where
  plain := (List.forall_mem_cons.1 h.plain).2
  first hstart x hx hxtrivia := by
    cases hx
    have hl : ¬ l.IsTrivia := fun hl => (List.isChain_cons_cons.1 h.single).1 ⟨hl, hxtrivia⟩
    rw [step_of_not_isTrivia r hl h.depth_ne_zero] at hstart
    rcases hstart with howed | hnil
    · cases howed
    · exact (h.plain l List.mem_cons_self).text_ne_nil (List.append_eq_nil_iff.1 hnil).2
  last x hx := h.last x (List.getLast?_cons_cons.trans hx)
  single := h.single.tail
  commas before hbefore := by
    rw [depth_step, Int.add_assoc, ← level_append]
    exact h.commas (l :: before) (by simpa using hbefore)

/-- A space is made up for when the next word is added. -/
theorem push_step (h : r.Follows (l :: ls)) (t : Bytes) :
    (r.step l.piece).push t = { r.push (l.text ++ t) with depth := r.depth + level [l] } := by
  by_cases htrivia : l.IsTrivia
  · have hstart : ¬ (r.owed = true ∨ r.current = []) := fun h' => h.first h' l rfl htrivia
    rw [not_or, Bool.not_eq_true] at hstart
    obtain rfl := (h.plain l List.mem_cons_self).eq_space htrivia
    have hstep : r.step (Lexeme.byte space).piece = r.gap := rfl
    have hzero : level [Lexeme.byte space] = 0 := rfl
    rw [hstep, hzero, Int.add_zero]
    simp [push, gap, hstart.1, hstart.2, Lexeme.text]
  · rw [step_of_not_isTrivia r htrivia h.depth_ne_zero]
    simp [push]

/-- **Words are added to the current argument as they are.** -/
theorem after_eq (h : r.Follows ls) (hne : ls ≠ []) :
    r.after ls = { r.push (texts ls) with depth := r.depth + level ls } := by
  induction ls generalizing r with
  | nil => exact absurd rfl hne
  | cons l ls ih =>
    cases ls with
    | nil =>
      rw [after_cons, step_of_not_isTrivia r (h.last l rfl) h.depth_ne_zero]
      simp
    | cons m ls =>
      have hlevel : level (l :: m :: ls) = level [l] + level (m :: ls) := level_append [l] (m :: ls)
      rw [after_cons, ih h.step (List.cons_ne_nil m ls), h.push_step, depth_step, hlevel,
        Int.add_assoc]
      rfl

end Follows

end Reading

/-- An argument in normal form is read as it is. -/
theorem NormalArgument.after (h : NormalArgument t ls) (hcurrent : r.current = [])
    (hdepth : r.depth = 0) : (r.after ls).depth = 0 ∧ (r.after ls).finish.done = r.done ++ [t] := by
  have htext : texts ls = t := by simpa using h.lexes.texts_append
  have hne : ls ≠ [] := by
    rintro rfl
    exact h.ne_nil htext.symm
  have hcommas (before : List Lexeme) (hbefore : before ++ [.byte comma] <+: ls) :
      r.depth + level before ≠ 0 := by
    rw [hdepth, Int.zero_add]
    exact h.commas before hbefore
  have hfollows : r.Follows ls := ⟨h.plain, fun _ _ => h.not_isTrivia_head?,
    fun _ => h.not_isTrivia_getLast? h.last, h.single, hcommas⟩
  rw [hfollows.after_eq hne, hdepth, h.balanced, htext]
  refine ⟨rfl, ?_⟩
  simp [Reading.finish, Reading.push, hcurrent, h.ne_nil]

/-! ## Writing a list -/

/-- The lexemes of the text of a list in front of its `)`, and the arguments that they add. -/
structure ListRow (t : Bytes) (args : List Bytes) (row : List Lexeme) : Prop where
  lexes : Lexes (t ++ [rightParen]) row [rightParen]
  above : StaysAbove 1 row
  level : level row = 0
  read : ∀ r : Reading, r.current = [] → r.depth = 0 → (r.after row).finish.done = r.done ++ args

theorem listRow_nil : ListRow (listed []) [] [] where
  lexes := .nil _
  above := staysAbove_nil 1
  level := rfl
  read r hcurrent _ := by
    rw [Reading.after_nil, Reading.finish, hcurrent]
    rfl

theorem NormalArgument.listRow {a : Bytes} (h : NormalArgument a ls) :
    ListRow (listed [a]) [a] ls where
  lexes := by
    rw [listed, laterArguments, List.flatMap_nil, List.append_nil]
    exact h.lexes.append_text h.plain fun _ => ⟨by decide, by decide⟩
  above := h.above
  level := h.balanced
  read _ hcurrent hdepth := (h.after hcurrent hdepth).2

/-- An argument may come in front of a list that has one. -/
theorem ListRow.cons {a b : Bytes} (h : ListRow (listed (b :: args)) (b :: args) row)
    (ha : NormalArgument a ls) :
    ListRow (listed (a :: b :: args)) (a :: b :: args)
      (ls ++ .byte comma :: .byte space :: row) where
  lexes := by
    rw [listed, List.append_assoc, laterArguments_cons, ← List.append_assoc b, ← listed]
    refine (ha.lexes.append_text ha.plain fun _ => ?_).append ?_
    · exact slashSafe_iff.2 (skip?_eq_none_iff.1 rfl)
    · exact .byte (skip?_eq_none_iff.1 rfl) (.byte (skip?_eq_none_iff.1 rfl) h.lexes)
  above := by
    refine staysAbove_append.2 ⟨ha.above, ?_⟩
    rw [ha.balanced]
    refine staysAbove_cons (fun heq => by cases heq) ?_
    exact staysAbove_cons (fun heq => by cases heq) h.above
  level := by
    have hzero : EventSchema.Source.level [.byte comma, .byte space] = 0 := rfl
    have hrow := level_append [.byte comma, .byte space] row
    rw [hzero, h.level] at hrow
    rw [level_append, ha.balanced, Int.zero_add]
    exact hrow
  read r hcurrent hdepth := by
    obtain ⟨hsame, hdone⟩ := ha.after hcurrent hdepth
    have hcomma : (r.after ls).step (Lexeme.byte comma).piece = (r.after ls).finish := if_pos hsame
    have hspace : (r.after ls).finish.step (Lexeme.byte space).piece = (r.after ls).finish.gap := rfl
    rw [Reading.after_append, Reading.after_cons, Reading.after_cons, hcomma, hspace,
      h.read (r.after ls).finish.gap rfl hsame]
    change (r.after ls).finish.done ++ _ = _
    rw [hdone, List.append_assoc]
    rfl

theorem exists_listRow (h : ∀ a ∈ args, ∃ ls, NormalArgument a ls) :
    ∃ row, ListRow (listed args) args row := by
  induction args with
  | nil => exact ⟨[], listRow_nil⟩
  | cons a args ih =>
    rw [List.forall_mem_cons] at h
    obtain ⟨ls, ha⟩ := h.1
    cases args with
    | nil => exact ⟨ls, ha.listRow⟩
    | cons b args =>
      obtain ⟨row, hrow⟩ := ih h.2
      exact ⟨_, hrow.cons ha⟩

theorem lexes_word (h : ∀ b ∈ t, isWordByte b = true) (u : Bytes) :
    Lexes (t ++ u) (t.map .byte) u := by
  induction t with
  | nil => exact .nil u
  | cons b t ih =>
    rw [List.forall_mem_cons] at h
    exact .byte (skip?_eq_none_iff.1 (skip?_of_isWordByte h.1 _)) (ih h.2)

/-- A written clause has a layout with nothing but its name and its arguments. -/
theorem exists_layout_written {method : Bytes} (hmethod : ∀ b ∈ method, isWordByte b = true)
    (h : ∀ a ∈ args, ∃ ls, NormalArgument a ls) :
    ∃ l : Layout, l.Of (written method args) ∧ l.name = method ∧ l.args = args ∧ l.tail = [] := by
  obtain ⟨row, hrow⟩ := exists_listRow h
  refine ⟨⟨[], method, [], row, []⟩, ⟨?_, List.forall_mem_nil _, hmethod, List.forall_mem_nil _,
    fun _ => rfl, hrow.above, hrow.level⟩, rfl, hrow.read Reading.start rfl rfl, rfl⟩
  rw [Layout.row, Layout.head, List.append_nil, List.nil_append, Layout.list]
  refine (lexes_word hmethod _).append (.byte (skip?_eq_none_iff.1 rfl) (hrow.lexes.append ?_))
  exact .byte (skip?_eq_none_iff.1 rfl) (.nil [])

/-! ## Taking it whole -/

theorem closes_of_clauseAt (h : ClauseAt t u rest) : Closes 0 u := by
  cases hgroup : closeGroup 0 0 0 t with
  | error fault => exact absurd (noClause_of_closeGroup hgroup) (not_noClause_of_clauseAt h)
  | ok r =>
    obtain ⟨htext, -⟩ := clauseAt_unique h (clauseAt_of_closeGroup hgroup)
    rw [htext]
    exact closes_of_closeGroup hgroup

namespace Layout

variable {l : Layout}

/-- There are no parentheses in front of the list. -/
theorem Of.paren_notMem_head (h : l.Of t) : opening ∉ l.head ∧ closing ∉ l.head := by
  have hname {b : UInt8} (hb : isWordByte b = false) : Lexeme.byte b ∉ l.name.map .byte := by
    intro hmem
    obtain ⟨x, hx, heq⟩ := List.mem_map.1 hmem
    cases heq
    exact absurd (h.name b hx) (by rw [hb]; exact Bool.false_ne_true)
  constructor
  · rw [head, List.mem_append, List.mem_append, not_or, not_or]
    exact ⟨⟨fun hx => (h.lead _ hx).ne_opening rfl, hname (by decide)⟩,
      fun hx => (h.gap _ hx).ne_opening rfl⟩
  · rw [head, List.mem_append, List.mem_append, not_or, not_or]
    exact ⟨⟨fun hx => (h.lead _ hx).ne_closing rfl, hname (by decide)⟩,
      fun hx => (h.gap _ hx).ne_closing rfl⟩

/-- The text of a layout that ends with its list closes a group. -/
theorem Of.closes (h : l.Of t) (htail : l.tail = []) : Closes 0 t := by
  obtain ⟨hopening, hclosing⟩ := h.paren_notMem_head
  have hhead : EventSchema.Source.level l.head = 0 := by
    simp [EventSchema.Source.level, List.count_eq_zero_of_not_mem, hopening, hclosing]
  have hrow : l.row = l.head ++ opening :: l.inner ++ [closing] := by
    rw [row, list, htail, List.append_assoc, List.cons_append]
  have hlevel : EventSchema.Source.level (l.head ++ opening :: l.inner) = 1 := by
    rw [level_append, hhead, ← List.singleton_append, level_append, h.level, level_opening]
    rfl
  refine closes_of_clauseAt ⟨l.head ++ opening :: l.inner, hrow ▸ h.lexes, ?_,
    pending_of_staysAbove (staysAbove_append.2 ⟨staysAbove_of_notMem hclosing 0, ?_⟩), ?_⟩
  · rw [← hrow]
    simpa using h.lexes.texts_append
  · refine staysAbove_cons (fun heq => by cases heq) ?_
    rw [hhead, level_opening]
    exact h.above
  · rw [level_append, hlevel, level_closing]
    rfl

end Layout

/-! ## Arguments are texts -/

theorem wellFormed_of_mem_pieces (ht : WellFormed t) : ∀ p ∈ pieces t, WellFormed p.text := by
  fun_induction pieces t with
  | case1 t s hs ih =>
    refine List.forall_mem_cons.2 ⟨?_, ih (wellFormed_of_skip hs ht)⟩
    rw [← skip?_append hs] at ht
    split
    · exact (wellFormed_of_append ht (skip?_boundary hs)).1
    · exact wellFormed_nil
  | case2 => exact List.forall_mem_nil _
  | case3 b rest hs p hp ih =>
    refine List.forall_mem_cons.2 ⟨?_, ih (wellFormed_of_ascii_cons (ofByte?_isAscii hp) ht)⟩
    cases p with
    | gap => exact wellFormed_nil
    | opening => exact ⟨['('], by decide⟩
    | closing => exact ⟨[')'], by decide⟩
    | separator => exact ⟨[','], by decide⟩
    | word =>
      rw [Piece.ofByte?] at hp
      repeat' split at hp
      all_goals cases hp
  | case4 b rest hs hp ih =>
    exact List.forall_mem_cons.2 ⟨(wellFormed_take_drop ht).1, ih (wellFormed_take_drop ht).2⟩

/-- What is read of texts are texts. -/
structure Reading.IsText (r : Reading) : Prop where
  current : WellFormed r.current
  done : ∀ a ∈ r.done, WellFormed a

namespace Reading.IsText

theorem push (h : r.IsText) (ht : WellFormed t) : (r.push t).IsText where
  current := by
    refine .append (h.current.append ?_) ht
    split
    · exact ⟨[' '], by decide⟩
    · exact wellFormed_nil
  done := h.done

theorem finish (h : r.IsText) : r.finish.IsText where
  current := wellFormed_nil
  done a ha := by
    rcases List.mem_append.1 ha with ha | ha
    · exact h.done a ha
    · rw [List.mem_singleton.1 (List.mem_filter.1 ha).1]
      exact h.current

theorem step {p : Piece} (h : r.IsText) (hp : WellFormed p.text) : (r.step p).IsText := by
  cases p with
  | gap => exact ⟨h.current, h.done⟩
  | opening | closing => exact ⟨(h.push hp).current, h.done⟩
  | word => exact h.push hp
  | separator =>
    rw [Reading.step]
    split
    · exact h.finish
    · exact h.push hp

theorem read {ps : List Piece} (h : r.IsText) (hps : ∀ p ∈ ps, WellFormed p.text)
    (hread : r.read ps = some args) : ∀ a ∈ args, WellFormed a := by
  induction ps generalizing r with
  | nil => cases hread
  | cons p ps ih =>
    rw [List.forall_mem_cons] at hps
    rw [Reading.read] at hread
    split at hread
    · cases hread
      exact h.finish.done
    · exact ih (h.step hps.1) hps.2 hread

end Reading.IsText

theorem Layout.Of.wellFormed_args {l : Layout} (h : l.Of t) (ht : WellFormed t) :
    ∀ a ∈ l.args, WellFormed a := by
  obtain ⟨body, -, hrest, hbody⟩ := h.reads
  have hwell := wellFormed_body ht hrest
  have habove : StaysAbove (Reading.start.depth + 1) l.inner := h.above
  have hlevel : Reading.start.depth + EventSchema.Source.level l.inner = 0 :=
    (Int.zero_add _).trans h.level
  have hread := Reading.read_closing habove hlevel l.tail
  rw [← read_pieces hwell hbody] at hread
  exact Reading.IsText.read ⟨wellFormed_nil, List.forall_mem_nil _⟩ (wellFormed_of_mem_pieces hwell)
    hread

/-! ## Clauses in normal form -/

/-- Clauses with a name and arguments in normal form. -/
structure Clause.Normal (c : Clause) : Prop where
  method : ∀ b ∈ encode c.method, isWordByte b = true
  args : ∀ a ∈ c.args, ∃ ls, NormalArgument (encode a) ls

/-- **What is read of a text is in normal form.** -/
theorem normal_of_parse {text : String} {c : Clause} (h : Clause.parse text = .ok c) :
    c.Normal := by
  obtain ⟨s, hs, -⟩ := map_eq_ok h
  obtain ⟨l, hl⟩ := exists_layout (wellFormed_encode text) hs
  have hc : c = ⟨decodeLossy l.name, l.args.map decodeLossy⟩ :=
    Except.ok.inj (h.symm.trans hl.parse_eq)
  subst hc
  refine ⟨?_, fun a ha => ?_⟩
  · rw [hl.encode_name]
    exact hl.name
  · obtain ⟨bytes, hbytes, rfl⟩ := List.mem_map.1 ha
    rw [encode_decodeLossy (hl.wellFormed_args (wellFormed_encode text) bytes hbytes)]
    exact hl.normalArgument bytes hbytes

/-- **A clause in normal form is read as it is written**, and a scan takes it whole. -/
theorem Clause.Normal.layout {c : Clause} (h : c.Normal) :
    ∃ l : Layout, l.Of (encode c.text) ∧ l.name = encode c.method ∧
      l.args = c.args.map encode ∧ l.tail = [] := by
  rw [encode_text]
  refine exists_layout_written h.method fun a ha => ?_
  obtain ⟨s, hs, rfl⟩ := List.mem_map.1 ha
  exact h.args s hs

theorem Clause.Normal.parse_text {c : Clause} (h : c.Normal) : Clause.parse c.text = .ok c := by
  obtain ⟨l, hl, hname, hargs, -⟩ := h.layout
  rw [hl.parse_eq, hname, hargs]
  simp only [decodeLossy_encode, List.map_map, Function.comp_def, List.map_id']

theorem Clause.Normal.scan_text {c : Clause} (h : c.Normal) :
    scan defaultMarker (defaultMarker ++ c.text) = ([c.text], none) := by
  obtain ⟨l, hl, -, -, htail⟩ := h.layout
  have hfirst : defaultMarker.toList.head? = some 'E' := by decide
  have hmarker : encode defaultMarker ≠ [] := by decide
  have hskip := skip?_encode hfirst (by decide) (by decide) (by decide) (encode c.text)
  have hclauses := clausesFrom_of_closes 1 hmarker hskip (hl.closes htail)
  rw [scan, encode_append, hclauses, List.map_singleton, decodeLossy_encode]

/-- **Reading a clause brings it into a form that reading does not change.** Every argument is in
normal form, the text of the clause is read as the same clause, and behind the marker it is all that
a scan finds. -/
theorem parse_normalizes {text : String} {c : Clause} (h : Clause.parse text = .ok c) :
    (∀ a ∈ c.args, ∃ ls, NormalArgument (encode a) ls) ∧ Clause.parse c.text = .ok c ∧
      scan defaultMarker (defaultMarker ++ c.text) = ([c.text], none) :=
  have hnormal := normal_of_parse h
  ⟨hnormal.args, hnormal.parse_text, hnormal.scan_text⟩

/-- A clause in which a comment stands between two slashes, a comma and a quote are in a comment, and
blanks are in a literal. -/
def raggedText : String :=
  "/* ( */ F\t( a / /* , \" */ / b ,\n (x ,\r\n* /**/ y) ,, \"p  )\" // )\n #if (\n q/ ) )"

def raggedClause : Clause := ⟨"F", ["a / / b", "(x , * y)", "\"p  )\" q/"]⟩

theorem parse_normalizes_ragged :
    Clause.parse raggedText = .ok raggedClause ∧
      raggedClause.text = "F(a / / b, (x , * y), \"p  )\" q/)" ∧
      (∀ a ∈ raggedClause.args, ∃ ls, NormalArgument (encode a) ls) ∧
      Clause.parse raggedClause.text = .ok raggedClause ∧
      scan defaultMarker (defaultMarker ++ raggedClause.text) = ([raggedClause.text], none) :=
  have hparse : Clause.parse raggedText = .ok raggedClause := by decide +kernel
  ⟨hparse, by decide +kernel, parse_normalizes hparse⟩

end EventSchema.Source
