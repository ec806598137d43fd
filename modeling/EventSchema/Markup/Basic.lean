/-!
Markup texts as the sequence of their parts: tags, character content, comments, character data
sections and instructions. A text is read into parts (`EventSchema.Markup.Reader`) and written from
them.
-/

namespace EventSchema.Markup

/-! ## Parts of a markup text -/

/-- A start tag or an empty-element tag. -/
structure Tag where
  name : String
  /-- In order; no key is repeated. -/
  attributes : List (String × String) := []
  deriving DecidableEq, Repr

/-- A part of a markup text. -/
inductive Part
  | opening (tag : Tag)
  | empty (tag : Tag)
  | closing (name : String)
  /-- Character content with its references replaced, without blanks at its ends. -/
  | content (s : String)
  /-- A section of character data, taken as it stands. -/
  | characterData (s : String)
  | comment (s : String)
  | instruction (s : String)
  | doctype (s : String)
  deriving DecidableEq, Repr

/-! ## Text of parts -/

/-- A character as it is written in character content and between quotes. -/
def escaped (c : Char) : List Char :=
  match c with
  | '<' => "&lt;".toList
  | '>' => "&gt;".toList
  | '&' => "&amp;".toList
  | '\'' => "&apos;".toList
  | '"' => "&quot;".toList
  | c => [c]

/-- An attribute after the blank that separates it from what precedes it. -/
def attributeText (a : String × String) : List Char :=
  ' ' :: a.1.toList ++ '=' :: '"' :: a.2.toList.flatMap escaped ++ ['"']

/-- What stands between the angle brackets of a tag. -/
def Tag.text (tag : Tag) : List Char := tag.name.toList ++ tag.attributes.flatMap attributeText

/-- The characters of a part. -/
def Part.text : Part → List Char
  | .opening tag => '<' :: tag.text ++ ['>']
  | .empty tag => '<' :: tag.text ++ ['/', '>']
  | .closing name => '<' :: '/' :: name.toList ++ ['>']
  | .content s => s.toList.flatMap escaped
  | .characterData s => "<![CDATA[".toList ++ s.toList ++ "]]>".toList
  | .comment s => "<!--".toList ++ s.toList ++ "-->".toList
  | .instruction s => "<?".toList ++ s.toList ++ "?>".toList
  | .doctype s => "<!DOCTYPE ".toList ++ s.toList ++ ['>']

/-- The text of a sequence of parts. -/
def write (parts : List Part) : String := String.ofList (parts.flatMap Part.text)

end EventSchema.Markup
