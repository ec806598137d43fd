import EventSchema.Document.Json
import EventSchema.Document.Markup

/-!
Telling documents apart. A text is a JSON document if its first character other than a blank is an
opening brace or bracket, and a markup document otherwise.
-/

namespace EventSchema

/-- Whether a text holds JSON documents. -/
def isJson (text : String) : Bool :=
  match text.toList.dropWhile Text.isBlank with
  | c :: _ => c == '\x7b' || c == '['
  | [] => false

/-- The documents of a text. The path is only for messages. -/
def Document.parse (path text : String) : Except Error (List Document) :=
  if isJson text then
    match Document.listOfJson? (Text.trimStart text) with
    | some documents => .ok documents
    | none => .error (.malformedJson path)
  else (Document.ofMarkup path text).map ([·])

/-- Whether a path has the suffix of JSON files, in any case. -/
def hasJsonSuffix (path : String) : Bool :=
  ".json".toList.isSuffixOf (path.toList.map Char.toLower)

/-- Whether a file that is not the root is read as JSON documents; all others are source texts. -/
def isDocumentFile (path text : String) : Bool := hasJsonSuffix path || isJson text

end EventSchema
