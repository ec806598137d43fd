import EventSchema.Markup.Reader
import Mathlib.Data.List.Nodup

/-!
# The texts of tags

A tag whose name and keys are names (`Tag.Proper`) is read from its text whatever follows it
(`marked?_text`), with the values of its attributes as they were before their characters were
escaped. A text that lays out such tags, with blanks between them as one likes (`Laid`), is read
into them (`read_of_laid`) if the end tags match.
-/

namespace EventSchema.Markup

/-! ## Escaped characters -/

/-- A character is read from what it is written as. -/
theorem unescape?_escaped_append (c : Char) (t : List Char) :
    unescape? none (escaped c ++ t) = (unescape? none t).map (c :: ·) := by
  rw [escaped.eq_def]
  split
  case h_6 hamp _ _ => rw [List.singleton_append, unescape?, if_neg hamp]
  all_goals rfl

theorem unescape?_escaped (cs : List Char) : unescape? none (cs.flatMap escaped) = some cs := by
  induction cs with
  | nil => rfl
  | cons c cs ih =>
    rw [List.flatMap_cons, unescape?_escaped_append, ih]
    rfl

theorem quote_notMem_escaped (cs : List Char) : '"' ∉ cs.flatMap escaped := by
  rw [List.mem_flatMap]
  rintro ⟨c, -, hc⟩
  rw [escaped.eq_def] at hc
  split at hc
  case h_6 hquote => exact hquote (List.mem_singleton.1 hc).symm
  all_goals exact absurd hc (by decide)

/-! ## Names -/

/-- Whether a character ends a name. -/
def delimits (c : Char) : Bool :=
  isBlank c || ['<', '>', '"', '\'', '=', '/', '!', '?'].contains c

/-- Names of elements and attributes. -/
structure IsName (s : String) : Prop where
  nonempty : s.toList ≠ []
  plain : ∀ c ∈ s.toList, delimits c = false

instance (s : String) : Decidable (IsName s) :=
  decidable_of_iff (s.toList ≠ [] ∧ (s.toList.all fun c => delimits c == false) = true)
    ⟨fun h => ⟨h.1, fun c hc => eq_of_beq (List.all_eq_true.1 h.2 c hc)⟩,
      fun h => ⟨h.nonempty, List.all_eq_true.2 fun c hc => beq_iff_eq.2 (h.plain c hc)⟩⟩

theorem isBlank_of_delimits {c : Char} (h : delimits c = false) : isBlank c = false :=
  (Bool.or_eq_false_iff.1 h).1

theorem ne_of_delimits {c d : Char} (h : delimits c = false) (hd : delimits d = true) : c ≠ d := by
  rintro rfl
  exact absurd hd (by rw [h]; decide)

/-! ## Attributes -/

theorem splitAround?_of_notMem {q : Char} {cs : List Char} (h : q ∉ cs) (t : List Char) :
    splitAround? [q] (cs ++ q :: t) = some (cs, t) := by
  induction cs with
  | nil => simp [splitAround?, after?]
  | cons c cs ih =>
    have hc : q ≠ c := fun heq => h (heq ▸ List.mem_cons_self)
    have hcs : q ∉ cs := fun hmem => h (.tail _ hmem)
    have hnot : after? [q] (c :: (cs ++ q :: t)) = none := by
      rw [after?, if_neg]
      simp [List.cons_prefix_cons, hc]
    rw [List.cons_append, splitAround?, hnot, ih hcs]
    rfl

/-- An attribute is read from its text. -/
theorem attribute?_attributeText {a : String × String} (h : IsName a.1) (t : List Char) :
    attribute? (a.1.toList ++ '=' :: '"' :: a.2.toList.flatMap escaped ++ '"' :: t) =
      some (a.1.toList, a.2.toList.flatMap escaped, t) := by
  obtain ⟨c, cs, hkey⟩ := List.exists_cons_of_ne_nil h.nonempty
  have hplain := h.plain
  rw [hkey] at hplain ⊢
  have hcs : ∀ d ∈ cs, (!(d == '=' || isBlank d)) = true := by
    intro d hd
    have hdelimits := hplain d (.tail _ hd)
    have hne : d ≠ '=' := ne_of_delimits hdelimits (by decide)
    simp [hne, isBlank_of_delimits hdelimits]
  have hvalue := splitAround?_of_notMem (quote_notMem_escaped a.2.toList) t
  rw [List.append_assoc, List.cons_append, attribute?]
  rw [List.dropWhile_append_of_pos hcs, List.takeWhile_append_of_pos hcs]
  simp [isBlank, after?, hvalue]

theorem attributes?_of_attribute? {seen : List String} {t u key value cs tail : List Char}
    (hstart : t.dropWhile isBlank = u) (hread : attribute? u = some (key, value, tail))
    (hnew : String.ofList key ∉ seen) (hvalue : unescape? none value = some cs) :
    attributes? seen t =
      (attributes? (String.ofList key :: seen) tail).map ((String.ofList key, String.ofList cs) :: ·)
    := by
  rw [attributes?]
  split
  · next hnil =>
    rw [hstart] at hnil
    rw [hnil] at hread
    cases hread
  · next hcons =>
    rw [hstart] at hcons
    split
    · next hnone =>
      rw [← hcons, hread] at hnone
      cases hnone
    · next hsome =>
      rw [← hcons, hread] at hsome
      cases hsome
      rw [if_neg hnew, hvalue, Option.bind_some]

/-- Attributes are read from their texts. -/
theorem attributes?_flatMap {seen : List String} {attributes : List (String × String)}
    (keys : ∀ a ∈ attributes, IsName a.1) (nodup : (attributes.map (·.1)).Nodup)
    (hnew : ∀ a ∈ attributes, a.1 ∉ seen) :
    attributes? seen (attributes.flatMap attributeText) = some attributes := by
  induction attributes generalizing seen with
  | nil =>
    rw [List.flatMap_nil, attributes?]
    rfl
  | cons a attributes ih =>
    obtain ⟨ha, hkeys⟩ := List.forall_mem_cons.1 keys
    obtain ⟨hseen, hrest⟩ := List.forall_mem_cons.1 hnew
    obtain ⟨hfirst, hnodup⟩ := List.nodup_cons.1 nodup
    have hread := attribute?_attributeText ha (attributes.flatMap attributeText)
    have hstart : ((a :: attributes).flatMap attributeText).dropWhile isBlank =
        a.1.toList ++ '=' :: '"' :: a.2.toList.flatMap escaped ++
          '"' :: attributes.flatMap attributeText := by
      obtain ⟨c, cs, hkey⟩ := List.exists_cons_of_ne_nil ha.nonempty
      have hc : isBlank c = false := isBlank_of_delimits (ha.plain c (hkey ▸ List.mem_cons_self))
      rw [List.flatMap_cons, attributeText, hkey]
      simp only [List.cons_append, List.append_assoc, List.nil_append]
      rw [List.dropWhile_cons_of_pos (by decide), List.dropWhile_cons_of_neg (by simp [hc])]
    rw [attributes?_of_attribute? hstart hread (by rwa [String.ofList_toList])
      (unescape?_escaped a.2.toList), String.ofList_toList, String.ofList_toList, ih hkeys hnodup]
    · rfl
    · intro b hb hmem
      rcases List.mem_cons.1 hmem with heq | hmem
      · exact hfirst (List.mem_map.2 ⟨b, hb, heq⟩)
      · exact hrest b hb hmem

/-! ## Tags -/

/-- Tags whose texts are read back. -/
structure Tag.Proper (tag : Tag) : Prop where
  name : IsName tag.name
  keys : ∀ a ∈ tag.attributes, IsName a.1
  nodup : (tag.attributes.map (·.1)).Nodup

instance (tag : Tag) : Decidable tag.Proper :=
  decidable_of_iff
    (IsName tag.name ∧ (∀ a ∈ tag.attributes, IsName a.1) ∧ (tag.attributes.map (·.1)).Nodup)
    ⟨fun h => ⟨h.1, h.2.1, h.2.2⟩, fun h => ⟨h.name, h.keys, h.nodup⟩⟩

/-- A tag is read from what stands between its angle brackets. -/
theorem tag?_text {tag : Tag} (h : tag.Proper) : tag? tag.text = some tag := by
  have hname : ∀ c ∈ tag.name.toList, (!isBlank c) = true :=
    fun c hc => by rw [isBlank_of_delimits (h.name.plain c hc)]; rfl
  have hends : (tag.attributes.flatMap attributeText).takeWhile (!isBlank ·) = [] := by
    cases tag.attributes <;> rfl
  have htake : tag.text.takeWhile (!isBlank ·) = tag.name.toList := by
    rw [Tag.text, List.takeWhile_append_of_pos hname, hends, List.append_nil]
  rw [tag?, htake, Tag.text, List.drop_left]
  rw [attributes?_flatMap h.keys h.nodup fun _ _ => List.not_mem_nil, String.ofList_toList]
  rfl

/-- Whether the text of a tag may go on after some characters, and does not end in them. -/
def Inside (cs : List Char) : Prop :=
  ∀ t, tagBody? none (cs ++ t) = (tagBody? none t).map fun r => (cs ++ r.1, r.2)

theorem inside_append {cs ds : List Char} (hcs : Inside cs) (hds : Inside ds) :
    Inside (cs ++ ds) := by
  intro t
  rw [List.append_assoc, hcs, hds, Option.map_map]
  simp [Function.comp_def]

theorem inside_plain {cs : List Char} (h : ∀ c ∈ cs, c ≠ '>' ∧ c ≠ '"' ∧ c ≠ '\'') : Inside cs := by
  intro t
  induction cs with
  | nil => simp
  | cons c cs ih =>
    obtain ⟨⟨hclose, hdouble, hsingle⟩, hcs⟩ := List.forall_mem_cons.1 h
    rw [List.cons_append, tagBody?]
    simp [hclose, hdouble, hsingle, ih hcs, Function.comp_def]

theorem inside_singleton {c : Char} (hclose : c ≠ '>') (hdouble : c ≠ '"') (hsingle : c ≠ '\'') :
    Inside [c] :=
  inside_plain fun _ hc => List.mem_singleton.1 hc ▸ ⟨hclose, hdouble, hsingle⟩

theorem inside_quoted {cs : List Char} (h : '"' ∉ cs) : Inside ('"' :: cs ++ ['"']) := by
  have hquoted : ∀ t, tagBody? (some '"') (cs ++ '"' :: t) =
      (tagBody? none t).map fun r => (cs ++ '"' :: r.1, r.2) := by
    intro t
    induction cs with
    | nil => simp [tagBody?]
    | cons c cs ih =>
      have hc : c ≠ '"' := fun heq => h (heq ▸ List.mem_cons_self)
      rw [List.cons_append, tagBody?]
      simp [hc, ih fun hmem => h (.tail _ hmem), Function.comp_def]
  intro t
  rw [List.append_assoc, List.cons_append, List.singleton_append, tagBody?]
  simp [hquoted, Function.comp_def]

theorem inside_name {s : String} (h : IsName s) : Inside s.toList :=
  inside_plain fun c hc =>
    ⟨ne_of_delimits (h.plain c hc) (by decide), ne_of_delimits (h.plain c hc) (by decide),
      ne_of_delimits (h.plain c hc) (by decide)⟩

theorem inside_attributeText {a : String × String} (h : IsName a.1) : Inside (attributeText a) := by
  have hsplit : attributeText a =
      [' '] ++ (a.1.toList ++ (['='] ++ ('"' :: a.2.toList.flatMap escaped ++ ['"']))) := by
    simp [attributeText]
  rw [hsplit]
  have hblank : Inside [' '] := inside_singleton (by decide) (by decide) (by decide)
  have hequals : Inside ['='] := inside_singleton (by decide) (by decide) (by decide)
  exact inside_append hblank (inside_append (inside_name h)
    (inside_append hequals (inside_quoted (quote_notMem_escaped _))))

theorem inside_text {tag : Tag} (h : tag.Proper) : Inside tag.text := by
  have hattributes : ∀ attributes : List (String × String), (∀ a ∈ attributes, IsName a.1) →
      Inside (attributes.flatMap attributeText) := by
    intro attributes hkeys
    induction attributes with
    | nil => exact inside_plain nofun
    | cons a attributes ih =>
      obtain ⟨ha, hrest⟩ := List.forall_mem_cons.1 hkeys
      rw [List.flatMap_cons]
      exact inside_append (inside_attributeText ha) (ih hrest)
  exact inside_append (inside_name h.name) (hattributes _ h.keys)

/-- What stands between angle brackets ends at the closing one. -/
theorem tagBody?_of_inside {cs : List Char} (h : Inside cs) (t : List Char) :
    tagBody? none (cs ++ '>' :: t) = some (cs, t) := by
  rw [h, tagBody?]
  simp

/-- The text of a tag does not end as that of an empty-element tag. -/
theorem getLast?_text {tag : Tag} (h : tag.Proper) : tag.text.getLast? ≠ some '/' := by
  rcases List.eq_nil_or_concat tag.attributes with hnil | ⟨l, a, hlast⟩
  · rw [Tag.text, hnil, List.flatMap_nil, List.append_nil]
    intro hslash
    exact ne_of_delimits (h.name.plain _ (List.mem_of_getLast? hslash)) (by decide) rfl
  · rw [Tag.text, hlast, List.concat_eq_append, List.flatMap_append, List.flatMap_singleton,
      attributeText, ← List.append_assoc, ← List.append_assoc, List.getLast?_concat]
    decide

/-- No name starts as something else than a tag. -/
theorem exists_text_eq {tag : Tag} (h : tag.Proper) :
    ∃ c t, tag.text = c :: t ∧ c ≠ '!' ∧ c ≠ '?' ∧ c ≠ '/' := by
  obtain ⟨c, cs, hname⟩ := List.exists_cons_of_ne_nil h.name.nonempty
  have hc : delimits c = false := h.name.plain c (hname ▸ List.mem_cons_self)
  exact ⟨c, cs ++ tag.attributes.flatMap attributeText, by rw [Tag.text, hname, List.cons_append],
    ne_of_delimits hc (by decide), ne_of_delimits hc (by decide), ne_of_delimits hc (by decide)⟩

theorem marked?_text_append {tag : Tag} (h : tag.Proper) (t : List Char) :
    marked? (tag.text ++ t) = opening? (tag.text ++ t) := by
  obtain ⟨c, u, htext, hmark, hquestion, hslash⟩ := exists_text_eq h
  rw [htext, List.cons_append, marked?.eq_def]
  split
  · next heq => exact absurd (List.cons.inj heq).1 hmark
  · next heq => exact absurd (List.cons.inj heq).1 hmark
  · next heq => exact absurd (List.cons.inj heq).1 hmark
  · next heq => exact absurd (List.cons.inj heq).1 hquestion
  · next heq => exact absurd (List.cons.inj heq).1 hslash
  · rfl

theorem opening?_text {tag : Tag} (h : tag.Proper) (t : List Char) :
    opening? (tag.text ++ '>' :: t) = some (.opening tag, t) := by
  rw [opening?, tagBody?_of_inside (inside_text h), Option.bind_some]
  rw [if_neg (getLast?_text h), tag?_text h]
  rfl

theorem opening?_text_slash {tag : Tag} (h : tag.Proper) (t : List Char) :
    opening? (tag.text ++ '/' :: '>' :: t) = some (.empty tag, t) := by
  have hinside : Inside (tag.text ++ ['/']) :=
    inside_append (inside_text h) (inside_singleton (by decide) (by decide) (by decide))
  have hbody : tagBody? none (tag.text ++ '/' :: '>' :: t) = some (tag.text ++ ['/'], t) := by
    have hends := tagBody?_of_inside hinside t
    rwa [List.append_assoc, List.singleton_append] at hends
  rw [opening?, hbody, Option.bind_some, if_pos List.getLast?_concat, List.dropLast_concat]
  rw [tag?_text h]
  rfl

theorem closing?_name {name : String} (h : IsName name) (t : List Char) :
    closing? (name.toList ++ '>' :: t) = some (.closing name, t) := by
  have htrim : trimEnd name.toList = name.toList := by
    have hlast : ∀ c ∈ name.toList.reverse, isBlank c = false :=
      fun c hc => isBlank_of_delimits (h.plain c (List.mem_reverse.1 hc))
    rw [trimEnd]
    cases hreverse : name.toList.reverse with
    | nil => rw [List.dropWhile_nil, ← hreverse, List.reverse_reverse]
    | cons c cs =>
      rw [List.dropWhile_cons_of_neg (by simp [hlast c (hreverse ▸ List.mem_cons_self)]),
        ← hreverse, List.reverse_reverse]
  rw [closing?, tagBody?_of_inside (inside_name h), Option.map_some]
  simp only [htrim, ite_self, String.ofList_toList]

/-! ## Parts -/

/-- Tags that are read back. -/
def Part.Proper : Part → Prop
  | .opening tag | .empty tag => tag.Proper
  | .closing name => IsName name
  | _ => False

/-- **A tag is read from its text**, whatever follows. -/
theorem marked?_text {p : Part} (h : p.Proper) :
    ∃ m, p.text = '<' :: m ∧ ∀ t, marked? (m ++ t) = some (p, t) := by
  cases p with
  | opening tag =>
    refine ⟨tag.text ++ ['>'], rfl, fun t => ?_⟩
    rw [List.append_assoc, marked?_text_append h]
    exact opening?_text h t
  | empty tag =>
    refine ⟨tag.text ++ ['/', '>'], rfl, fun t => ?_⟩
    rw [List.append_assoc, marked?_text_append h]
    exact opening?_text_slash h t
  | closing name =>
    refine ⟨'/' :: name.toList ++ ['>'], rfl, fun t => ?_⟩
    rw [List.cons_append, List.cons_append, List.append_assoc]
    exact closing?_name h t
  | _ => cases h

/-! ## Texts -/

/-- Texts that hold some parts, with blanks between them. -/
inductive Laid : List Part → List Char → Prop
  | nil : Laid [] []
  | blank {ps : List Part} {c : Char} {t : List Char} (blank : isBlank c = true)
      (rest : Laid ps t) : Laid ps (c :: t)
  | part {p : Part} {ps : List Part} {t : List Char} (rest : Laid ps t) :
    Laid (p :: ps) (p.text ++ t)

/-- The shortest text of some parts. -/
theorem laid_flatMap (ps : List Part) : Laid ps (ps.flatMap Part.text) := by
  induction ps with
  | nil => exact .nil
  | cons p ps ih => exact .part ih

theorem readFrom_blank (names : List String) {c : Char} (h : isBlank c = true) (t : List Char) :
    readFrom names (c :: t) = readFrom names t := by
  have hc : c ≠ '<' := by
    rintro rfl
    cases h
  have htake : trim ((c :: t).takeWhile (· ≠ '<')) = trim (t.takeWhile (· ≠ '<')) := by
    rw [List.takeWhile_cons_of_pos (by simp [hc]), trim, List.dropWhile_cons_of_pos h]
    rfl
  have hdrop : (c :: t).dropWhile (· ≠ '<') = t.dropWhile (· ≠ '<') :=
    List.dropWhile_cons_of_pos (by simp [hc])
  rw [readFrom, readFrom, htake, hdrop]

theorem readFrom_part {names names' : List String} {p : Part} (h : p.Proper)
    (hnames : openAfter? names p = some names') (t : List Char) :
    readFrom names (p.text ++ t) =
      { readFrom names' t with parts := p :: (readFrom names' t).parts } := by
  obtain ⟨m, htext, hread⟩ := marked?_text h
  have htake : trim (('<' :: (m ++ t)).takeWhile (· ≠ '<')) = [] := rfl
  have hdrop : ('<' :: (m ++ t)).dropWhile (· ≠ '<') = '<' :: (m ++ t) := rfl
  have hunescape : unescape? none [] = some [] := rfl
  rw [htext, List.cons_append, readFrom, htake, hunescape, hdrop]
  dsimp only
  rw [hread t]
  dsimp only
  rw [hnames]
  rfl

/-- Tags that are laid out are read one by one, with the names of the open elements. -/
theorem readFrom_of_laid {ps : List Part} {t : List Char} (h : Laid ps t)
    (proper : ∀ p ∈ ps, p.Proper) {names names' : List String}
    (closed : ps.foldlM openAfter? names = some names') : readFrom names t = { parts := ps } := by
  induction h generalizing names with
  | nil => rw [readFrom]; rfl
  | blank blank _ ih => rw [readFrom_blank names blank, ih proper closed]
  | part rest ih =>
    obtain ⟨hp, hps⟩ := List.forall_mem_cons.1 proper
    rw [List.foldlM_cons] at closed
    obtain ⟨names'', hnames, hclosed⟩ := Option.bind_eq_some_iff.1 closed
    rw [readFrom_part hp hnames, ih hps hclosed]

/-- A text that is laid out starts with a tag, but for blanks. -/
theorem head?_of_laid {ps : List Part} {t : List Char} (h : Laid ps t)
    (proper : ∀ p ∈ ps, p.Proper) {c : Char} (hc : t.head? = some c) :
    isBlank c = true ∨ c = '<' := by
  cases h with
  | nil => cases hc
  | blank blank =>
    cases hc
    exact .inl blank
  | part =>
    obtain ⟨m, htext, -⟩ := marked?_text (proper _ List.mem_cons_self)
    rw [htext] at hc
    cases hc
    exact .inr rfl

/-- **A text that lays out tags is read into them** if all elements are closed. -/
theorem read_of_laid {ps : List Part} {text : String} (h : Laid ps text.toList)
    (proper : ∀ p ∈ ps, p.Proper) (closed : ps.foldlM openAfter? [] = some []) :
    read text = { parts := ps } := by
  have hstart : text.toList.head? ≠ some '\uFEFF' := by
    intro hmark
    rcases head?_of_laid h proper hmark with hblank | heq
    · exact absurd hblank (by decide)
    · exact absurd heq (by decide)
  rw [read]
  split
  · next hmark =>
    rw [hmark] at hstart
    exact absurd rfl hstart
  · exact readFrom_of_laid h proper closed

end EventSchema.Markup
