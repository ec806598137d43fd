import EventSchema.Text.Blank

/-!
The fixed vocabularies of a schema: channel types, severities, levels and field types. Each word
has a canonical name and may have other spellings; case does not matter in reading.
-/

namespace EventSchema

/-- A fixed list of words, in the order in which they are shown. -/
class Vocabulary (α : Type) where
  /-- What the words are called in a message. -/
  noun : String
  words : List α
  name : α → String
  /-- What else a word may be spelled as. -/
  variants : α → List String

/-- A text that is no word of a vocabulary. -/
structure UnknownWord where
  noun : String
  word : String
  expected : List String
  deriving DecidableEq, Repr

namespace Vocabulary

variable {α : Type} [Vocabulary α]

/-- Every accepted spelling of a word, its name first. -/
def spellings (a : α) : List String := name a :: variants a

/-- Whether two texts differ at most in the case of ASCII letters. -/
def sameWord (s t : String) : Bool := s.toList.map Char.toLower == t.toList.map Char.toLower

/-- Reads a word, with blanks around it or not. Of several words with a spelling the first is
taken. -/
def parse (α : Type) [Vocabulary α] (text : String) : Except UnknownWord α :=
  let word := Text.trim text
  match (words : List α).find? fun a => (spellings a).any (sameWord word) with
  | some a => .ok a
  | none => .error ⟨noun α, word, (words : List α).map name⟩

end Vocabulary

/-! ## Channel types -/

/-- How the events of a channel are isolated from those of others. -/
inductive ChannelType
  | admin
  | operational
  | analytic
  | debug
  deriving DecidableEq, Repr

instance : Vocabulary ChannelType where
  noun := "channel type"
  words := [.admin, .operational, .analytic, .debug]
  name
    | .admin => "Admin"
    | .operational => "Operational"
    | .analytic => "Analytic"
    | .debug => "Debug"
  variants _ := []

/-! ## Severities -/

/-- The severity of an event. -/
inductive Severity
  | success
  | informational
  | warning
  | error
  deriving DecidableEq, Repr

instance : Vocabulary Severity where
  noun := "severity"
  words := [.success, .informational, .warning, .error]
  name
    | .success => "Success"
    | .informational => "Informational"
    | .warning => "Warning"
    | .error => "Error"
  variants
    | .informational => ["Info"]
    | _ => []

/-! ## Levels -/

/-- The trace level of an event. -/
inductive Level
  | logAlways
  | critical
  | error
  | warning
  | informational
  | verbose
  deriving DecidableEq, Repr

instance : Vocabulary Level where
  noun := "level"
  words := [.logAlways, .critical, .error, .warning, .informational, .verbose]
  name
    | .logAlways => "LogAlways"
    | .critical => "Critical"
    | .error => "Error"
    | .warning => "Warning"
    | .informational => "Informational"
    | .verbose => "Verbose"
  variants
    | .logAlways => ["win:LogAlways"]
    | .critical => ["win:Critical"]
    | .error => ["win:Error"]
    | .warning => ["win:Warning"]
    | .informational => ["Info", "win:Informational"]
    | .verbose => ["win:Verbose"]

/-! ## Field types -/

/-- The type of an event parameter. -/
inductive FieldType
  | int8
  | uint8
  | int16
  | uint16
  | int32
  | uint32
  | int64
  | uint64
  | float
  | double
  | boolean
  | ansiString
  | unicodeString
  | guid
  | pointer
  | fileTime
  | systemTime
  | sid
  | binary
  | hexInt32
  | hexInt64
  deriving DecidableEq, Repr

instance : Vocabulary FieldType where
  noun := "parameter type"
  words := [.int8, .uint8, .int16, .uint16, .int32, .uint32, .int64, .uint64, .float, .double,
    .boolean, .ansiString, .unicodeString, .guid, .pointer, .fileTime, .systemTime, .sid, .binary,
    .hexInt32, .hexInt64]
  name
    | .int8 => "Int8"
    | .uint8 => "UInt8"
    | .int16 => "Int16"
    | .uint16 => "UInt16"
    | .int32 => "Int32"
    | .uint32 => "UInt32"
    | .int64 => "Int64"
    | .uint64 => "UInt64"
    | .float => "Float"
    | .double => "Double"
    | .boolean => "Boolean"
    | .ansiString => "AnsiString"
    | .unicodeString => "UnicodeString"
    | .guid => "Guid"
    | .pointer => "Pointer"
    | .fileTime => "FileTime"
    | .systemTime => "SystemTime"
    | .sid => "Sid"
    | .binary => "Binary"
    | .hexInt32 => "HexInt32"
    | .hexInt64 => "HexInt64"
  variants
    | .int8 => ["int8_t", "char"]
    | .uint8 => ["uint8_t", "unsigned char", "BYTE"]
    | .int16 => ["int16_t", "short"]
    | .uint16 => ["uint16_t", "unsigned short", "WORD"]
    | .int32 => ["int32_t", "int", "LONG"]
    | .uint32 => ["uint32_t", "unsigned int", "unsigned", "DWORD", "ULONG"]
    | .int64 => ["int64_t", "long long", "LONGLONG"]
    | .uint64 => ["uint64_t", "unsigned long long", "ULONGLONG"]
    | .boolean => ["bool", "BOOL"]
    | .ansiString => ["string", "char*", "const char*", "LPCSTR"]
    | .unicodeString => ["wstring", "wchar_t*", "const wchar_t*", "LPCWSTR"]
    | .guid => ["GUID"]
    | .pointer => ["void*", "const void*"]
    | .fileTime => ["FILETIME"]
    | .systemTime => ["SYSTEMTIME"]
    | .sid => ["SID", "PSID"]
    | _ => []

/-- Field types in the order of their vocabulary. -/
instance : Ord FieldType := ⟨compareOn FieldType.ctorIdx⟩

instance : Std.TransOrd FieldType := inferInstanceAs (Std.TransCmp (compareOn FieldType.ctorIdx))

instance : Std.LawfulEqOrd FieldType where
  compare_self {t} := @Std.ReflCmp.compare_self _ (compareOn FieldType.ctorIdx) _ t
  eq_of_compare {a b} h := by
    have h : a.ctorIdx = b.ctorIdx := @Std.LawfulEqCmp.eq_of_compare _ compare _ _ _ h
    have at_index : ∀ t : FieldType,
        (Vocabulary.words : List FieldType)[t.ctorIdx]? = some t := by
      intro t
      cases t <;> rfl
    have := at_index a
    rw [h, at_index b] at this
    exact (Option.some.inj this).symm

end EventSchema
