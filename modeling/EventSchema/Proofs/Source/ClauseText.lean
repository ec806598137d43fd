import EventSchema.Proofs.Source.Spelling
import EventSchema.Proofs.Source.Written

/-!
# Reading a clause that was written

A clause of literals is found by the scanner as it was written, the reader gives back its method and
its literals, and each literal stands for the text it spells (`scan_parse_decode`). For the scanner
and the reader all that matters of a literal is that it is skipped as a whole.
-/

namespace EventSchema.Source

open Text.Utf8

theorem wholeLiteral_spelling (s : String) : WholeLiteral (encode (Literal.spelling s)) :=
  Literal.skip?_spelling s

theorem closes_written {method : Bytes} {ls : List Bytes}
    (hmethod : ∀ b ∈ method, isWordByte b = true) (h : ∀ l ∈ ls, WholeLiteral l) :
    Closes 0 (written method ls) :=
  closes_writtenArguments hmethod fun l hl => (h l hl).wholeArgument

theorem splitClause_written {method : Bytes} {ls : List Bytes}
    (hmethod : ∀ b ∈ method, isWordByte b = true) (h : ∀ l ∈ ls, WholeLiteral l) :
    splitClause (written method ls) = .ok { method, args := ls, unread := [] } :=
  splitClause_writtenArguments hmethod fun l hl => (h l hl).wholeArgument

/-- A text that starts with a marker, outside of any context, and goes on with a text that closes a
group is one clause. -/
theorem clausesFrom_of_closes {marker t : Bytes} (line : Nat) (hmarker : marker ≠ [])
    (hs : skip? (marker ++ t) = none) (h : Closes 0 t) :
    clausesFrom marker line (marker ++ t) = ([t], none) := by
  have hclause : clausesFrom marker line (marker ++ (t ++ [])) = _ :=
    clausesFrom_clause hmarker (by rwa [List.append_nil]) h
  rw [List.append_nil, clausesFrom_nil hmarker] at hclause
  exact hclause

/-! ## From texts to texts -/

/-- The characters of method names. -/
def isWordChar (c : Char) : Bool :=
  ('0' ≤ c && c ≤ '9') || ('A' ≤ c && c ≤ 'Z') || ('a' ≤ c && c ≤ 'z') || c == '_'

theorem isWordByte_of_isWordChar {c : Char} (h : isWordChar c = true) :
    ∀ b ∈ String.utf8EncodeChar c, isWordByte b = true := by
  simp only [isWordChar, Bool.or_eq_true, Bool.and_eq_true, decide_eq_true_eq, beq_iff_eq,
    Char.le_def, UInt32.le_iff_toNat_le] at h
  rcases h with h | rfl
  · change ((48 ≤ c.toNat ∧ c.toNat ≤ 57) ∨ (65 ≤ c.toNat ∧ c.toNat ≤ 90)) ∨
      (97 ≤ c.toNat ∧ c.toNat ≤ 122) at h
    have hbyte : (UInt8.ofNat c.toNat).toNat = c.toNat := by
      rw [UInt8.toNat_ofNat']
      omega
    rw [encodeChar_of_lt (by omega), List.forall_mem_singleton]
    simp only [isWordByte, Bool.or_eq_true, Bool.and_eq_true, decide_eq_true_eq, beq_iff_eq,
      UInt8.le_iff_toNat_le, hbyte, UInt8.reduceToNat]
    omega
  · have hbyte : String.utf8EncodeChar '_' = [0x5F] := by decide
    rw [hbyte, List.forall_mem_singleton]
    rfl

theorem isWordByte_of_mem_encode {w : String} (h : w.toList.all isWordChar = true) :
    ∀ b ∈ encode w, isWordByte b = true := by
  intro b hb
  obtain ⟨c, hc, hbc⟩ := List.mem_flatMap.1 hb
  exact isWordByte_of_isWordChar (List.all_eq_true.1 h c hc) b hbc

/-- Texts of letters, digits and underscores, such as identifiers. -/
structure IsWord (w : String) : Prop where
  ne_empty : w ≠ ""
  chars : w.toList.all isWordChar = true

theorem IsWord.wholeArgument {w : String} (h : IsWord w) : WholeArgument (encode w) := by
  refine wholeArgument_of_word ?_ (isWordByte_of_mem_encode h.chars)
  cases hw : w.toList with
  | nil => exact absurd (String.toList_eq_nil_iff.1 hw) h.ne_empty
  | cons c cs =>
    rw [encode, hw, List.flatMap_cons]
    exact List.append_ne_nil_of_left_ne_nil String.utf8EncodeChar_ne_nil _

/-! ## Clauses on lines -/

/-- Clauses that are read as they are written. -/
structure Clause.Readable (c : Clause) : Prop where
  method : c.method.toList.all isWordChar = true
  args : ∀ a ∈ c.args, WholeArgument (encode a)

theorem Clause.Readable.encode_args {c : Clause} (h : c.Readable) :
    ∀ l ∈ c.args.map encode, WholeArgument l := by
  intro l hl
  obtain ⟨a, ha, rfl⟩ := List.mem_map.1 hl
  exact h.args a ha

/-- A clause is the one that its text is read as. -/
theorem parse_text_of_readable {c : Clause} (h : c.Readable) : Clause.parse c.text = .ok c := by
  rw [Clause.parse, encode_text,
    splitClause_writtenArguments (isWordByte_of_mem_encode h.method) h.encode_args]
  simp only [Except.map, SplitClause.clause, decodeLossy_encode, List.map_map, Function.comp_def,
    List.map_id']

/-- **Clauses on lines of their own are found as they are written.** -/
theorem scan_lines {marker : String} {cs : List Clause} (hmarker : StartsClause (encode marker))
    (h : ∀ c ∈ cs, c.Readable) :
    scan marker (String.join (cs.map fun c => marker ++ c.text ++ "\n")) =
      (cs.map Clause.text, none) := by
  have hnewline : encode "\n" = [newline] := by decide
  have hlines : encode (String.join (cs.map fun c => marker ++ c.text ++ "\n")) =
      (cs.map fun c => encode c.text).flatMap fun t => encode marker ++ (t ++ [newline]) := by
    rw [encode, String.toList_join, List.flatMap_assoc, List.flatMap_map, List.flatMap_map]
    refine congrArg (cs.flatMap ·) (funext fun c => ?_)
    change encode (marker ++ c.text ++ "\n") = _
    rw [encode_append, encode_append, hnewline, List.append_assoc]
  have hcloses : ∀ t ∈ cs.map fun c => encode c.text, Closes 0 t := by
    intro t ht
    obtain ⟨c, hc, rfl⟩ := List.mem_map.1 ht
    rw [encode_text]
    exact closes_writtenArguments (isWordByte_of_mem_encode (h c hc).method) (h c hc).encode_args
  rw [scan, hlines, clausesFrom_lines hmarker hcloses]
  simp only [List.map_map, Function.comp_def, decodeLossy_encode]

/-! ## A single clause -/

/-- A character that starts no context has no byte that does. -/
theorem skip?_encode {marker : String} {first : Char} (hmarker : marker.toList.head? = some first)
    (hslash : first ≠ '/') (hhash : first ≠ '#') (hquote : first ≠ '"') (t : Bytes) :
    skip? (encode marker ++ t) = none := by
  obtain ⟨cs, hcs⟩ := List.head?_eq_some_iff.1 hmarker
  obtain ⟨b, tail, hfirst⟩ := List.exists_cons_of_ne_nil (String.utf8EncodeChar_ne_nil (c := first))
  have hne {d : Char} {x : UInt8} (hx : String.utf8EncodeChar d = [x]) (hascii : IsAscii x)
      (hd : first ≠ d) : b ≠ x := by
    rintro rfl
    exact hd (eq_of_ascii_mem_encodeChar hx hascii (hfirst ▸ List.mem_cons_self))
  rw [encode, hcs, List.flatMap_cons, hfirst]
  exact skip?_cons_eq_none (hne (by decide) (by decide) hslash) (hne (by decide) (by decide) hhash)
    (hne (by decide) (by decide) hquote) _

/-- The clause with some texts, spelled as literals, for its arguments. -/
def spelledClause (method : String) (texts : List String) : Clause :=
  ⟨method, texts.map Literal.spelling⟩

theorem encode_text_spelledClause (method : String) (texts : List String) :
    encode (spelledClause method texts).text =
      written (encode method) (texts.map fun s => encode (Literal.spelling s)) := by
  rw [encode_text, spelledClause, List.map_map, Function.comp_def]

/-- **A written clause is found, read and decoded as it was written.** The first character of the
marker may start no context. The method is made of word characters, and the texts are any texts. -/
theorem scan_parse_decode {marker method : String} {texts : List String} {first : Char}
    (hmarker : marker.toList.head? = some first) (hslash : first ≠ '/') (hhash : first ≠ '#')
    (hquote : first ≠ '"') (hmethod : method.toList.all isWordChar = true) :
    scan marker (marker ++ (spelledClause method texts).text) =
        ([(spelledClause method texts).text], none) ∧
      Clause.parse (spelledClause method texts).text = .ok (spelledClause method texts) ∧
      ∀ s ∈ texts, Literal.decode (Literal.spelling s) = .ok s := by
  have hword : ∀ b ∈ encode method, isWordByte b = true := by
    intro b hb
    obtain ⟨c, hc, hbc⟩ := List.mem_flatMap.1 hb
    exact isWordByte_of_isWordChar (List.all_eq_true.1 hmethod c hc) b hbc
  have hliterals : ∀ l ∈ texts.map fun s => encode (Literal.spelling s), WholeLiteral l := by
    intro l hl
    obtain ⟨s, -, rfl⟩ := List.mem_map.1 hl
    exact wholeLiteral_spelling s
  refine ⟨?_, ?_, fun s _ => Literal.decode_spelling_eq s⟩
  · have hne : encode marker ≠ [] := by
      obtain ⟨cs, hcs⟩ := List.head?_eq_some_iff.1 hmarker
      rw [encode, hcs, List.flatMap_cons]
      exact List.append_ne_nil_of_left_ne_nil String.utf8EncodeChar_ne_nil _
    have hclauses := clausesFrom_of_closes 1 hne
      (skip?_encode hmarker hslash hhash hquote _) (closes_written hword hliterals)
    rw [scan, encode_append, encode_text_spelledClause, hclauses, ← encode_text_spelledClause]
    simp only [List.map_cons, List.map_nil, decodeLossy_encode]
  · rw [Clause.parse, encode_text_spelledClause, splitClause_written hword hliterals]
    simp only [Except.map, SplitClause.clause, decodeLossy_encode, List.map_map,
      Function.comp_def, spelledClause]

/-- Texts with all that could end a literal, an argument or a clause too early. -/
def trickyTexts : List String := ["", "a, b) \"(\\", "/* # //\n\x00é"]

theorem scan_parse_decode_tricky :
    (spelledClause "define_2" trickyTexts).text =
        "define_2(\"\", \"a, b) \\\"(\\\\\", \"/* # //\n\x00é\")" ∧
      scan "EVT_" ("EVT_" ++ (spelledClause "define_2" trickyTexts).text) =
        ([(spelledClause "define_2" trickyTexts).text], none) ∧
      Clause.parse (spelledClause "define_2" trickyTexts).text =
        .ok (spelledClause "define_2" trickyTexts) ∧
      ∀ s ∈ trickyTexts, Literal.decode (Literal.spelling s) = .ok s :=
  ⟨by decide +kernel, scan_parse_decode (show "EVT_".toList.head? = some 'E' from rfl)
    (by decide) (by decide) (by decide) (by decide)⟩

end EventSchema.Source
