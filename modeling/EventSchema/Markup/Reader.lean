import EventSchema.Markup.Basic
import EventSchema.Text.Numeral

/-!
Reading markup. The reader splits a text into its parts, in order, and checks that end tags match
and that attributes and references are well formed; it knows no schema, and elements may still be
open at the end.

Main statements: what is left after a part is no longer than what was there (`marked?_length_le`),
so reading ends.
-/

namespace EventSchema.Markup

/-- The parts of a text up to its first fault. -/
structure Reading where
  parts : List Part := []
  /-- Whether a fault ended the reading. -/
  broken : Bool := false
  deriving DecidableEq, Repr

/-! ## Blanks and delimiters -/

/-- The blanks of markup. -/
def isBlank (c : Char) : Bool := c == ' ' || c == '\t' || c == '\r' || c == '\n'

/-- A text without the blanks behind it. -/
def trimEnd (t : List Char) : List Char := (t.reverse.dropWhile isBlank).reverse

/-- A text without the blanks at its ends. -/
def trim (t : List Char) : List Char := trimEnd (t.dropWhile isBlank)

/-- What follows `start`, where a text starts with it. -/
def after? (start t : List Char) : Option (List Char) :=
  if start <+: t then some (t.drop start.length) else none

/-- Splits a text around the first occurrence of `stop`. -/
def splitAround? (stop : List Char) : List Char → Option (List Char × List Char)
  | [] => none
  | c :: rest =>
    match after? stop (c :: rest) with
    | some tail => some ([], tail)
    | none => (splitAround? stop rest).map fun r => (c :: r.1, r.2)

/-- Splits a text around the first `>` that is not inside quotes. -/
def tagBody? (quote : Option Char) : List Char → Option (List Char × List Char)
  | [] => none
  | c :: rest =>
    let inside (quote : Option Char) := (tagBody? quote rest).map fun r => (c :: r.1, r.2)
    match quote with
    | some q => inside (if c = q then none else some q)
    | none =>
      if c = '>' then some ([], rest)
      else inside (if c = '"' ∨ c = '\'' then some c else none)

/-- Splits a text around the `>` that closes as many `<` as it opens, of which `depth` are open. -/
def balancedBody? (depth : Nat) : List Char → Option (List Char × List Char)
  | [] => none
  | c :: rest =>
    let inside (depth : Nat) := (balancedBody? depth rest).map fun r => (c :: r.1, r.2)
    if c = '<' then inside (depth + 1)
    else if c = '>' then
      match depth with
      | 0 => some ([], rest)
      | n + 1 => inside n
    else inside depth

/-! ## References -/

/-- The character that a reference stands for, given what is between `&` and `;`. -/
def reference? (name : List Char) : Option Char :=
  match name with
  | ['l', 't'] => some '<'
  | ['g', 't'] => some '>'
  | ['a', 'm', 'p'] => some '&'
  | ['a', 'p', 'o', 's'] => some '\''
  | ['q', 'u', 'o', 't'] => some '"'
  | '#' :: digits =>
    let n? :=
      match digits with
      | 'x' :: hex => Text.Numeral.read? 16 (hex.map Char.toNat)
      | _ => Text.Numeral.read? 10 (digits.map Char.toNat)
    n?.bind fun n => if n.isValidChar ∧ n ≠ 0 then some (Char.ofNat n) else none
  | _ => none

/-- Replaces the references of a text; `name` is what has been read of one, last character first. -/
def unescape? (name : Option (List Char)) : List Char → Option (List Char)
  | [] => if name.isSome then none else some []
  | c :: rest =>
    match name with
    | some read =>
      if c = ';' then (reference? read.reverse).bind fun d => (unescape? none rest).map (d :: ·)
      else if c = '&' then none
      else unescape? (some (c :: read)) rest
    | none =>
      if c = '&' then unescape? (some []) rest
      else (unescape? none rest).map (c :: ·)

/-! ## Tags -/

/-- Reads an attribute at the start of a text: its key, its value as written, and the rest. -/
def attribute? (t : List Char) : Option (List Char × List Char × List Char) := do
  match t with
  | [] => none
  | c :: rest =>
    let inKey := fun d => !(d == '=' || isBlank d)
    let rest' ← after? ['='] ((rest.dropWhile inKey).dropWhile isBlank)
    match rest'.dropWhile isBlank with
    | [] => none
    | quote :: body =>
      if quote = '"' ∨ quote = '\'' then
        let (value, tail) ← splitAround? [quote] body
        return (c :: rest.takeWhile inKey, value, tail)
      else none

theorem after?_length_le {start t tail : List Char} (h : after? start t = some tail) :
    tail.length ≤ t.length := by
  rw [after?] at h
  split at h
  · cases h
    simp
  · cases h

theorem splitAround?_length_le {stop t : List Char} {r : List Char × List Char}
    (h : splitAround? stop t = some r) : r.2.length ≤ t.length := by
  induction t generalizing r with
  | nil => simp [splitAround?] at h
  | cons c rest ih =>
    rw [splitAround?] at h
    split at h
    · next tail ht =>
      cases h
      exact after?_length_le ht
    · obtain ⟨q, hq, rfl⟩ := Option.map_eq_some_iff.1 h
      have := ih hq
      exact Nat.le_succ_of_le this

theorem attribute?_length_lt {t : List Char} {r : List Char × List Char × List Char}
    (h : attribute? t = some r) : r.2.2.length < t.length := by
  cases t with
  | nil => simp [attribute?] at h
  | cons c rest =>
    simp only [attribute?, Option.bind_eq_bind, Option.bind_eq_some_iff] at h
    obtain ⟨rest', h1, h⟩ := h
    have h1 := after?_length_le h1
    have h2 : ((rest.dropWhile fun d => !(d == '=' || isBlank d)).dropWhile isBlank).length ≤
        rest.length := ((List.dropWhile_suffix _).trans (List.dropWhile_suffix _)).length_le
    have h3 : (rest'.dropWhile isBlank).length ≤ rest'.length :=
      (List.dropWhile_suffix _).length_le
    split at h
    · cases h
    · next quote body hb =>
      rw [hb] at h3
      simp only [Option.ite_none_right_eq_some, Option.bind_eq_some_iff, Option.pure_def,
        Option.some.injEq] at h
      obtain ⟨-, q, hq, rfl⟩ := h
      have h4 := splitAround?_length_le hq
      simp only [List.length_cons] at h3 ⊢
      omega

/-- Reads the attributes of a tag. A key that was already read is a fault. -/
def attributes? (seen : List String) (t : List Char) : Option (List (String × String)) :=
  match _h : t.dropWhile isBlank with
  | [] => some []
  | c :: rest =>
    match _h' : attribute? (c :: rest) with
    | none => none
    | some (key, value, tail) =>
      let key := String.ofList key
      if key ∈ seen then none
      else
        (unescape? none value).bind fun value =>
          (attributes? (key :: seen) tail).map ((key, String.ofList value) :: ·)
termination_by t.length
decreasing_by
  have h1 := attribute?_length_lt _h'
  have h2 : (t.dropWhile isBlank).length ≤ t.length := (List.dropWhile_suffix _).length_le
  rw [_h] at h2
  exact Nat.lt_of_lt_of_le h1 h2

/-- Reads what stands between the angle brackets of a tag that is not an end tag. -/
def tag? (body : List Char) : Option Tag :=
  let name := body.takeWhile (!isBlank ·)
  (attributes? [] (body.drop name.length)).map fun attributes =>
    ⟨String.ofList name, attributes⟩

/-! ## Marked parts -/

/-- Reads a comment, of which `<!` has been read. -/
def comment? (t : List Char) : Option (Part × List Char) :=
  ((after? ['-', '-'] t).bind (splitAround? ['-', '-', '>'])).map fun r =>
    (.comment (String.ofList r.1), r.2)

/-- Reads a character data section, of which `<!` has been read. -/
def characterData? (t : List Char) : Option (Part × List Char) :=
  ((after? "[CDATA[".toList t).bind (splitAround? [']', ']', '>'])).map fun r =>
    (.characterData (String.ofList r.1), r.2)

/-- Reads a document type, of which `<!` has been read. Its keyword may have either case, and
something has to follow it. -/
def doctype? (t : List Char) : Option (Part × List Char) :=
  (balancedBody? 0 t).bind fun r =>
    let content := (r.1.drop 7).dropWhile isBlank
    if (r.1.take 7).map Char.toUpper = "DOCTYPE".toList ∧ content ≠ [] then
      some (.doctype (String.ofList content), r.2)
    else none

/-- Reads an instruction, of which `<?` has been read. -/
def instruction? (t : List Char) : Option (Part × List Char) :=
  if t.head? = some '>' then none
  else (splitAround? ['?', '>'] t).map fun r => (.instruction (String.ofList r.1), r.2)

/-- Reads an end tag, of which `</` has been read. Blanks behind a name do not belong to it. -/
def closing? (t : List Char) : Option (Part × List Char) :=
  (tagBody? none t).map fun r =>
    let name := trimEnd r.1
    (.closing (String.ofList (if name.isEmpty then r.1 else name)), r.2)

/-- Reads a start tag or an empty-element tag, of which `<` has been read. -/
def opening? (t : List Char) : Option (Part × List Char) :=
  (tagBody? none t).bind fun r =>
    if r.1.getLast? = some '/' then (tag? r.1.dropLast).map fun tag => (.empty tag, r.2)
    else (tag? r.1).map fun tag => (.opening tag, r.2)

/-- Reads the part after a `<`. -/
def marked? (t : List Char) : Option (Part × List Char) :=
  match t with
  | '!' :: '-' :: rest => comment? ('-' :: rest)
  | '!' :: '[' :: rest => characterData? ('[' :: rest)
  | '!' :: rest => doctype? rest
  | '?' :: rest => instruction? rest
  | '/' :: rest => closing? rest
  | _ => opening? t

theorem tagBody?_length_lt {quote : Option Char} {t : List Char} {r : List Char × List Char}
    (h : tagBody? quote t = some r) : r.2.length < t.length := by
  induction t generalizing quote r with
  | nil => simp [tagBody?] at h
  | cons c rest ih =>
    have inside : ∀ quote', (tagBody? quote' rest).map (fun r => (c :: r.1, r.2)) = some r →
        r.2.length < (c :: rest).length := by
      intro quote' h
      obtain ⟨q, hq, rfl⟩ := Option.map_eq_some_iff.1 h
      have := ih hq
      exact Nat.lt_succ_of_lt this
    simp only [tagBody?] at h
    split at h
    · exact inside _ h
    · split at h
      · cases h
        simp
      · exact inside _ h

theorem balancedBody?_length_lt {depth : Nat} {t : List Char} {r : List Char × List Char}
    (h : balancedBody? depth t = some r) : r.2.length < t.length := by
  induction t generalizing depth r with
  | nil => simp [balancedBody?] at h
  | cons c rest ih =>
    have inside : ∀ depth', (balancedBody? depth' rest).map (fun r => (c :: r.1, r.2)) = some r →
        r.2.length < (c :: rest).length := by
      intro depth' h
      obtain ⟨q, hq, rfl⟩ := Option.map_eq_some_iff.1 h
      have := ih hq
      exact Nat.lt_succ_of_lt this
    simp only [balancedBody?] at h
    split at h
    · exact inside _ h
    · split at h
      · split at h
        · cases h
          simp
        · exact inside _ h
      · exact inside _ h

private theorem splitAfter_length_le {start stop t : List Char} {r : List Char × List Char}
    (h : (after? start t).bind (splitAround? stop) = some r) : r.2.length ≤ t.length := by
  obtain ⟨u, hu, hr⟩ := Option.bind_eq_some_iff.1 h
  exact Nat.le_trans (splitAround?_length_le hr) (after?_length_le hu)

theorem doctype?_length_le {t : List Char} {r : Part × List Char} (h : doctype? t = some r) :
    r.2.length ≤ t.length := by
  obtain ⟨q, hq, h⟩ := Option.bind_eq_some_iff.1 h
  simp only [Option.ite_none_right_eq_some, Option.some.injEq] at h
  rw [← h.2]
  exact Nat.le_of_lt (balancedBody?_length_lt hq)

theorem opening?_length_le {t : List Char} {r : Part × List Char} (h : opening? t = some r) :
    r.2.length ≤ t.length := by
  obtain ⟨q, hq, h⟩ := Option.bind_eq_some_iff.1 h
  have := tagBody?_length_lt hq
  split at h
  all_goals
    obtain ⟨tag, -, rfl⟩ := Option.map_eq_some_iff.1 h
    exact Nat.le_of_lt this

/-- A part takes no more than there is. -/
theorem marked?_length_le {t : List Char} {r : Part × List Char} (h : marked? t = some r) :
    r.2.length ≤ t.length := by
  rw [marked?.eq_def] at h
  split at h
  · obtain ⟨q, hq, rfl⟩ := Option.map_eq_some_iff.1 h
    have := splitAfter_length_le hq
    exact Nat.le_succ_of_le this
  · obtain ⟨q, hq, rfl⟩ := Option.map_eq_some_iff.1 h
    have := splitAfter_length_le hq
    exact Nat.le_succ_of_le this
  · exact Nat.le_succ_of_le (doctype?_length_le h)
  · simp only [instruction?, Option.ite_none_left_eq_some, Option.map_eq_some_iff] at h
    obtain ⟨-, q, hq, rfl⟩ := h
    have := splitAround?_length_le hq
    exact Nat.le_succ_of_le this
  · obtain ⟨q, hq, rfl⟩ := Option.map_eq_some_iff.1 h
    have := tagBody?_length_lt hq
    exact Nat.le_succ_of_le (Nat.le_of_lt this)
  · exact opening?_length_le h

/-- The names of the elements that are open after a part, the last one opened first. An end tag that
closes another element than that is a fault. -/
def openAfter? (names : List String) : Part → Option (List String)
  | .opening tag => some (tag.name :: names)
  | .closing name =>
    match names with
    | [] => none
    | top :: outer => if name = top then some outer else none
  | _ => some names

/-! ## Whole texts -/

/-- The parts of a text, of which the elements with these names are open. -/
def readFrom (names : List String) (t : List Char) : Reading :=
  let content := trim (t.takeWhile (· ≠ '<'))
  match unescape? none content with
  | none => { broken := true }
  | some chars =>
    let before := if content.isEmpty then [] else [Part.content (String.ofList chars)]
    match _h : t.dropWhile (· ≠ '<') with
    | [] => { parts := before }
    | _ :: rest =>
      match _h' : marked? rest with
      | none => { parts := before, broken := true }
      | some (part, tail) =>
        match openAfter? names part with
        | none => { parts := before, broken := true }
        | some names' =>
          let more := readFrom names' tail
          { more with parts := before ++ part :: more.parts }
termination_by t.length
decreasing_by
  have h1 := marked?_length_le _h'
  have h2 : (t.dropWhile (· ≠ '<')).length ≤ t.length := (List.dropWhile_suffix _).length_le
  rw [_h, List.length_cons] at h2
  exact Nat.lt_of_le_of_lt h1 h2

/-- Reads a text; a byte order mark in front of it is passed over. -/
def read (text : String) : Reading :=
  readFrom [] <|
    match text.toList with
    | '\uFEFF' :: rest => rest
    | t => t

end EventSchema.Markup
