import EventSchema.Text.Visible
import EventSchema.Text.Numeral

/-!
The display form of a text inside a message: between double quotes, with short escapes for the
common controls and a numbered escape for every other character that would not be seen.
-/

namespace EventSchema.Text

/-- One character of a quoted text. A single quote stands for itself. -/
def quotedChar (c : Char) : String :=
  match c with
  | '\x00' => "\\0"
  | '\t' => "\\t"
  | '\r' => "\\r"
  | '\n' => "\\n"
  | '"' => "\\\""
  | '\\' => "\\\\"
  | c => if isVisible c then c.toString else "\\u\x7b" ++ Numeral.hex c.toNat ++ "\x7d"

/-- A text between double quotes, with escapes. -/
def quoted (s : String) : String :=
  "\"" ++ String.join (s.toList.map quotedChar) ++ "\""

end EventSchema.Text
