import EventSchema.Proofs.Source.Trivia

/-!
# Trivia do not change a clause

Trivia may come into a clause next to its name, next to its parentheses, on either side of a
top-level comma and behind any blank of its list (`Layout.Point`). The text is read as the same
clause then (`parse_insert_trivia`), unless the trivia come right behind a `/`, with which they could
start another comment.
-/

namespace EventSchema.Source

open Lexeme (opening closing texts)
open Text (isBlankByte)
open Text.Utf8

variable {t t' : Bytes} {x : Lexeme} {ts xs ys pre post : List Lexeme} {r : Reading}

/-! ## Trivia among arguments -/

theorem ofByte?_of_isBlankByte {b : UInt8} (h : isBlankByte b = true) :
    Piece.ofByte? b = some .gap := by
  simp only [isBlankByte, Bool.or_eq_true, beq_iff_eq] at h
  rcases h with (((rfl | rfl) | rfl) | rfl) | rfl <;> decide

namespace Lexeme.IsTrivia

theorem piece_eq (h : x.IsTrivia) : x.piece = .gap := by
  cases h with
  | context h => exact if_neg h
  | blank h => rw [piece, ofByte?_of_isBlankByte h, Option.getD_some]

theorem ne_opening (h : x.IsTrivia) : x ≠ opening := by
  rintro rfl
  exact absurd h.piece_eq (by decide)

theorem ne_closing (h : x.IsTrivia) : x ≠ closing := by
  rintro rfl
  exact absurd h.piece_eq (by decide)

end Lexeme.IsTrivia

theorem closing_notMem_of_trivia (hts : ∀ x ∈ ts, x.IsTrivia) : closing ∉ ts :=
  fun h => (hts _ h).ne_closing rfl

theorem level_of_trivia (hts : ∀ x ∈ ts, x.IsTrivia) : level ts = 0 := by
  have hopening : opening ∉ ts := fun h => (hts _ h).ne_opening rfl
  simp [level, List.count_eq_zero_of_not_mem hopening,
    List.count_eq_zero_of_not_mem (closing_notMem_of_trivia hts)]

namespace Reading

/-- Some trivia are one gap. -/
theorem after_of_trivia (hts : ∀ x ∈ ts, x.IsTrivia) (r : Reading) :
    r.after ts = r ∨ r.after ts = r.gap := by
  induction ts generalizing r with
  | nil => exact .inl rfl
  | cons x ts ih =>
    rw [List.forall_mem_cons] at hts
    have hstep : r.step x.piece = r.gap := by
      rw [hts.1.piece_eq]
      rfl
    rw [after_cons, hstep]
    refine .inr ((ih hts.2 r.gap).elim id fun h => ?_)
    rw [h, gap_gap]

theorem owed_after (r : Reading) (h : x.IsTrivia) : (r.after [x]).owed = true := by
  rw [after_cons, h.piece_eq]
  rfl

theorem depth_start_after (h : level xs = 0) : (start.after xs).depth = 0 := by
  rw [depth_after, h]
  rfl

theorem current_after_comma (h : r.depth = 0) : (r.after [.byte comma]).current = [] := by
  have hstep : r.step .separator = r.finish := if_pos h
  have hafter : r.after [.byte comma] = r.step .separator := rfl
  rw [hafter, hstep]
  rfl

/-- Trivia make no difference where the state is idle, or at the end of the list. -/
theorem finish_after_insert (hts : ∀ x ∈ ts, x.IsTrivia)
    (hidle : ∀ x, ys.head? = some x → r.Idle x.piece) :
    (r.after (ts ++ ys)).finish = (r.after ys).finish := by
  rw [after_append]
  rcases after_of_trivia hts r with h | h
  · rw [h]
  · rw [h]
    cases ys with
    | nil => exact finish_gap r
    | cons x ys => rw [after_cons, after_cons, (hidle x rfl).step_gap]

end Reading

/-! ## Where trivia come in -/

namespace Layout

variable {l : Layout}

/-- The places for trivia, as what comes before them and what comes after. -/
inductive Point (l : Layout) : List Lexeme → List Lexeme → Prop
  | beforeName : Point l l.lead (l.name.map .byte ++ (l.gap ++ l.list))
  | afterName : Point l (l.lead ++ l.name.map .byte) (l.gap ++ l.list)
  | beforeOpening : Point l l.head l.list
  | afterOpening : Point l (l.head ++ [opening]) (l.inner ++ closing :: l.tail)
  | beforeClosing : Point l (l.head ++ opening :: l.inner) (closing :: l.tail)
  | beforeSeparator {pre post : List Lexeme} (h : l.inner = pre ++ .byte comma :: post)
      (hlevel : EventSchema.Source.level pre = 0) :
      Point l (l.head ++ opening :: pre) (.byte comma :: (post ++ closing :: l.tail))
  | afterSeparator {pre post : List Lexeme} (h : l.inner = pre ++ .byte comma :: post)
      (hlevel : EventSchema.Source.level pre = 0) :
      Point l (l.head ++ opening :: (pre ++ [.byte comma])) (post ++ closing :: l.tail)
  | afterBlank {b : UInt8} {pre post : List Lexeme} (h : l.inner = pre ++ .byte b :: post)
      (hb : isBlankByte b = true) :
      Point l (l.head ++ opening :: (pre ++ [.byte b])) (post ++ closing :: l.tail)

theorem Point.append_eq (h : l.Point xs ys) : xs ++ ys = l.row := by
  cases h <;> simp_all [row, head, list]

theorem Point.ne_nil (h : l.Point xs ys) : ys ≠ [] := by
  cases h <;> simp [list]

/-- Trivia come in at a seam. -/
theorem Point.seam (h : l.Point xs ys) (hl : l.Of t) : Seam xs ys := by
  have hopening : IsAscii leftParen ∧ leftParen ≠ newline := by decide
  have hclosing : IsAscii rightParen ∧ rightParen ≠ newline := by decide
  have hcomma : IsAscii comma ∧ comma ≠ newline := by decide
  cases h with
  | beforeName =>
    refine .inr ?_
    cases hn : l.name with
    | nil =>
      rw [hl.nameless hn]
      exact ⟨leftParen, rfl, hopening⟩
    | cons b name =>
      have hb : isWordByte b = true := hl.name b (by simp [hn])
      refine ⟨b, rfl, isAscii_of_isWordByte hb, ?_⟩
      rintro rfl
      exact absurd hb (by decide)
  | afterName =>
    rcases List.eq_nil_or_concat' l.name with hn | ⟨name, b, hn⟩
    · rw [hn, hl.nameless hn]
      exact .inr ⟨leftParen, rfl, hopening⟩
    · have hb : isWordByte b = true := hl.name b (by simp [hn])
      exact .inl ⟨b, by simp [hn], isAscii_of_isWordByte hb⟩
  | beforeOpening => exact .inr ⟨leftParen, rfl, hopening⟩
  | afterOpening => exact .inl ⟨leftParen, by simp, hopening.1⟩
  | beforeClosing => exact .inr ⟨rightParen, rfl, hclosing⟩
  | beforeSeparator => exact .inr ⟨comma, rfl, hcomma⟩
  | afterSeparator => exact .inl ⟨comma, by simp [List.getLast?_cons], hcomma.1⟩
  | @afterBlank b _ _ _ hb =>
    exact .inl ⟨b, by simp [List.getLast?_cons], isAscii_of_isBlankByte hb⟩

/-- A text is laid out with the same name and the same arguments. -/
def KeptIn (l : Layout) (t : Bytes) : Prop :=
  ∃ l' : Layout, l'.Of t ∧ l'.name = l.name ∧ l'.args = l.args

theorem Of.insert_lead (h : l.Of t) (hts : ∀ x ∈ ts, x.IsTrivia)
    (hrow : Lexes t' (l.lead ++ (ts ++ (l.name.map .byte ++ (l.gap ++ l.list)))) []) :
    l.KeptIn t' := by
  refine ⟨{ l with lead := l.lead ++ ts }, ⟨?_, ?_, h.name, h.gap, h.nameless, h.above, h.level⟩,
    rfl, rfl⟩
  · simpa [row, head, list] using hrow
  · exact List.forall_mem_append.2 ⟨h.lead, hts⟩

theorem Of.insert_gap {front back : List Lexeme} (h : l.Of t) (hgap : l.gap = front ++ back)
    (hts : ∀ x ∈ ts, x.IsTrivia)
    (hrow : Lexes t' (l.lead ++ (l.name.map .byte ++ (front ++ (ts ++ (back ++ l.list))))) []) :
    l.KeptIn t' := by
  by_cases hname : l.name = []
  · -- without a name these are trivia in front of it
    have hnil := h.nameless hname
    obtain ⟨rfl, rfl⟩ := List.append_eq_nil_iff.1 (hgap.symm.trans hnil)
    refine h.insert_lead hts ?_
    simpa [hname, hnil] using hrow
  · have hall := h.gap
    rw [hgap, List.forall_mem_append] at hall
    refine ⟨{ l with gap := front ++ (ts ++ back) },
      ⟨?_, h.lead, h.name, ?_, fun hnil => absurd hnil hname, h.above, h.level⟩, rfl, rfl⟩
    · simpa [row, head, list] using hrow
    · exact List.forall_mem_append.2 ⟨hall.1, List.forall_mem_append.2 ⟨hts, hall.2⟩⟩

theorem Of.insert_inner (h : l.Of t) (hinner : l.inner = pre ++ post) (hts : ∀ x ∈ ts, x.IsTrivia)
    (hidle : ∀ x, post.head? = some x → (Reading.start.after pre).Idle x.piece)
    (hrow : Lexes t' (l.head ++ opening :: pre ++ (ts ++ (post ++ closing :: l.tail))) []) :
    l.KeptIn t' := by
  have habove := h.above
  have hlevel := h.level
  have hzero := level_of_trivia hts
  rw [hinner, staysAbove_append] at habove
  rw [hinner, level_append] at hlevel
  refine ⟨{ l with inner := pre ++ (ts ++ post) }, ⟨?_, h.lead, h.name, h.gap, h.nameless, ?_, ?_⟩,
    rfl, ?_⟩
  · simpa [row, head, list] using hrow
  · rw [staysAbove_append, staysAbove_append, hzero, Int.add_zero]
    exact ⟨habove.1, staysAbove_of_notMem (closing_notMem_of_trivia hts) _, habove.2⟩
  · rw [level_append, level_append, hzero, Int.zero_add, hlevel]
  · rw [args, args, hinner, Reading.after_append, Reading.finish_after_insert hts hidle,
      ← Reading.after_append]

/-- **Where trivia come in, the layout keeps its name and its arguments.** -/
theorem Point.insert (h : l.Point xs ys) (hl : l.Of t) (hts : ∀ x ∈ ts, x.IsTrivia)
    (hrow : Lexes t' (xs ++ (ts ++ ys)) []) : l.KeptIn t' := by
  cases h with
  | beforeName => exact hl.insert_lead hts hrow
  | afterName =>
    refine hl.insert_gap (List.nil_append l.gap).symm hts ?_
    rwa [List.append_assoc] at hrow
  | beforeOpening =>
    refine hl.insert_gap (List.append_nil l.gap).symm hts ?_
    rwa [head, List.append_assoc, List.append_assoc] at hrow
  | afterOpening =>
    exact hl.insert_inner (List.nil_append l.inner).symm hts (fun x _ => .inl rfl) hrow
  | beforeClosing =>
    exact hl.insert_inner (List.append_nil l.inner).symm hts (fun x hx => by cases hx) hrow
  | beforeSeparator h hlevel =>
    refine hl.insert_inner h hts (fun x hx => ?_) hrow
    cases hx
    exact .inr (.inr ⟨Reading.depth_start_after hlevel, rfl⟩)
  | afterSeparator h hlevel =>
    rw [List.append_cons] at h
    refine hl.insert_inner h hts (fun x _ => .inl ?_) hrow
    rw [Reading.after_append]
    exact Reading.current_after_comma (Reading.depth_start_after hlevel)
  | afterBlank h hb =>
    rw [List.append_cons] at h
    refine hl.insert_inner h hts (fun x _ => .inr (.inl ?_)) hrow
    rw [Reading.after_append]
    exact Reading.owed_after _ (.blank hb)

end Layout

/-! ## Clauses -/

/-- A text with a layout is read as the clause that the layout gives. -/
theorem Layout.Of.parse_eq {l : Layout} {text : String} (h : l.Of (encode text)) :
    Clause.parse text = .ok ⟨decodeLossy l.name, l.args.map decodeLossy⟩ := by
  obtain ⟨unread, hsplit⟩ := h.splitClause_eq (wellFormed_encode text)
  rw [Clause.parse, hsplit]
  rfl

theorem Layout.Point.wellFormed {l : Layout} {text : String} (h : l.Point xs ys)
    (hl : l.Of (encode text)) : WellFormed (texts xs) ∧ WellFormed (texts ys) := by
  have hrow := hl.lexes.texts_append
  rw [← h.append_eq, Lexeme.texts_append, List.append_nil] at hrow
  refine wellFormed_of_append ?_ (h.seam hl).boundary
  rw [hrow]
  exact wellFormed_encode text

/-- The name of a layout is the method of the clause. -/
theorem Layout.Of.encode_name {l : Layout} {text : String} (h : l.Of (encode text)) :
    encode (decodeLossy l.name) = l.name := by
  have hlead := (Point.beforeName (l := l)).wellFormed h
  have hname := (Point.afterName (l := l)).wellFormed h
  rw [Lexeme.texts_append, Lexeme.texts_map_byte] at hname
  exact encode_decodeLossy (wellFormed_of_append_left hlead.1 hname.1)

/-- **Trivia do not change a clause.** A text that is read as a clause has a layout, with the method
for its name. Each place for trivia in the layout is between two parts of the text. Unless the first
part ends with a `/`, the text is read as the same clause with any trivia between the two. -/
theorem parse_insert_trivia {text : String} {c : Clause} (h : Clause.parse text = .ok c) :
    (∃ l : Layout, l.Of (encode text)) ∧
      ∀ l : Layout, l.Of (encode text) → encode c.method = l.name ∧
        ∀ xs ys, l.Point xs ys →
          ∃ before after : String, before ++ after = text ∧ encode before = texts xs ∧
            encode after = texts ys ∧
            ((encode before).getLast? ≠ some slash → ∀ trivia : String, Trivia (encode trivia) →
              Clause.parse (before ++ trivia ++ after) = .ok c) := by
  constructor
  · obtain ⟨s, hs, -⟩ := map_eq_ok h
    exact exists_layout (wellFormed_encode text) hs
  · intro l hl
    have hc : c = ⟨decodeLossy l.name, l.args.map decodeLossy⟩ :=
      Except.ok.inj (h.symm.trans hl.parse_eq)
    refine ⟨hc ▸ hl.encode_name, fun xs ys hp => ?_⟩
    obtain ⟨hxs, hys⟩ := hp.wellFormed hl
    have hrow := hl.lexes
    rw [← hp.append_eq] at hrow
    refine ⟨decodeLossy (texts xs), decodeLossy (texts ys), ?_, encode_decodeLossy hxs,
      encode_decodeLossy hys, fun hslash trivia htrivia => ?_⟩
    · have htext := hrow.texts_append
      rw [Lexeme.texts_append, List.append_nil] at htext
      refine encode_injective ?_
      rw [encode_append, encode_decodeLossy hxs, encode_decodeLossy hys, htext]
    · obtain ⟨ts, hts⟩ := exists_readsAs htrivia
      rw [encode_decodeLossy hxs] at hslash
      have hlexes := hrow.insert (hp.seam hl) hp.ne_nil hslash hts
      obtain ⟨l', hl', hname, hargs⟩ := hp.insert hl hts.trivia hlexes
      have hbytes : encode (decodeLossy (texts xs) ++ trivia ++ decodeLossy (texts ys)) =
          texts xs ++ (encode trivia ++ texts ys) := by
        rw [encode_append, encode_append, encode_decodeLossy hxs, encode_decodeLossy hys,
          List.append_assoc]
      rw [← hbytes] at hl'
      rw [hl'.parse_eq, hname, hargs, hc]

/-- The layout of `T (a,"é")`. -/
def shortLayout : Layout where
  lead := []
  name := [0x54]
  gap := [.byte space]
  inner := [.byte 0x61, .byte comma, .context .literal [doubleQuote, 0xC3, 0xA9, doubleQuote]]
  tail := []

theorem shortLayout_of : shortLayout.Of (encode "T (a,\"é\")") where
  lexes := by
    have hbytes : encode "T (a,\"é\")" = [0x54, space, leftParen, 0x61, comma] ++
        ([doubleQuote, 0xC3, 0xA9, doubleQuote] ++ [rightParen]) := by decide
    have hbyte {b : UInt8} {t : Bytes} (h : skip? (b :: t) = none) : ¬ Opens (b :: t) :=
      skip?_eq_none_iff.1 h
    have hliteral : ContextAt .literal [doubleQuote, 0xC3, 0xA9, doubleQuote] [rightParen] :=
      .literal (.plain (by decide) (by decide) (.plain (by decide) (by decide) (.closing _)))
    rw [hbytes]
    exact .byte (hbyte rfl) (.byte (hbyte rfl) (.byte (hbyte rfl) (.byte (hbyte rfl)
      (.byte (hbyte rfl) (.context hliteral rfl (.byte (hbyte rfl) (.nil [])))))))
  lead := List.forall_mem_nil _
  name b hb := by
    rw [List.mem_singleton.1 hb]
    decide
  gap x hx := by
    rw [List.mem_singleton.1 hx]
    exact .blank (by decide)
  nameless h := absurd h (List.cons_ne_nil _ _)
  above := staysAbove_of_notMem (by decide) 1
  level := by decide

theorem parse_insert_trivia_afterComma :
    Clause.parse "T (a,\"é\")" = .ok ⟨"T", ["a", "\"é\""]⟩ ∧
      Clause.parse ("T (a," ++ "// )\n#if x\n/*,*/\t" ++ "\"é\")") =
        .ok ⟨"T", ["a", "\"é\""]⟩ := by
  have hparse : Clause.parse "T (a,\"é\")" = .ok ⟨"T", ["a", "\"é\""]⟩ := by decide +kernel
  have htrivia : Trivia (encode "// )\n#if x\n/*,*/\t") := by
    have hbytes : encode "// )\n#if x\n/*,*/\t" = slash :: slash :: [space, rightParen] ++
        newline :: (hash :: [0x69, 0x66, space, 0x78] ++
          newline :: (slash :: star :: ([comma] ++ [star, slash]) ++ [0x09])) := by decide
    rw [hbytes]
    exact .line (by decide) (.directive (by decide) (by decide) (.block (by decide)
      (.blank (by decide) .nil)))
  refine ⟨hparse, ?_⟩
  obtain ⟨-, hplaces⟩ := (parse_insert_trivia hparse).2 shortLayout shortLayout_of
  have hcomma : shortLayout.inner = [.byte 0x61] ++ .byte comma :: shortLayout.inner.drop 2 := rfl
  obtain ⟨before, after, -, hbefore, hafter, hsame⟩ :=
    hplaces _ _ (.afterSeparator hcomma (by decide))
  obtain rfl : before = "T (a," := encode_injective (hbefore.trans (by decide))
  obtain rfl : after = "\"é\")" := encode_injective (hafter.trans (by decide))
  exact hsame (by decide) _ htrivia

end EventSchema.Source
