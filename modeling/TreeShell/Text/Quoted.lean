import TreeShell.Text.Unseen

/-!
# Quoted text

A text between double quotes, written so that it can be read in a log: the
quote and the backslash are escaped by a backslash, the tabulator, the line
ends and the null character by their letters, and every other character
without a glyph of its own by its code point in hexadecimal digits.
-/

namespace TreeShell.Text

/-- The code point in lower case hexadecimal digits. -/
def hexDigits (c : Char) : String :=
  String.ofList (Nat.toDigits 16 c.toNat)

/-- How a character is written between the quotes. -/
def escape (c : Char) : String :=
  match c with
  | '\x00' => "\\0"
  | '\t' => "\\t"
  | '\r' => "\\r"
  | '\n' => "\\n"
  | '"' => "\\\""
  | '\\' => "\\\\"
  | _ => if isUnseen c then "\\u\x7b" ++ hexDigits c ++ "\x7d" else String.singleton c

/-- The text between double quotes. -/
def quoted (text : String) : String :=
  "\"" ++ String.join (text.toList.map escape) ++ "\""

end TreeShell.Text
