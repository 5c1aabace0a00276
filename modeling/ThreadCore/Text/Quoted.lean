import ThreadCore.Text.Graphic
import ThreadCore.Text.Extending

/-!
# Quoted text

Text inside double quotes, written so that it can be read on one line: the quote, the backslash and
the common controls get a two-character escape, any other character that is not graphic or that
would merge with its neighbour is written by its code point, and all else stands for itself.
-/

namespace ThreadCore.Text

/-- The hexadecimal digits of `n`, lower case and without leading zeros. -/
def hex (n : Nat) : String := String.ofList (Nat.toDigits 16 n)

/-- The written form of one character between quotes. -/
def escape (c : Char) : String :=
  match c with
  | '\x00' => "\\0"
  | '\t' => "\\t"
  | '\r' => "\\r"
  | '\n' => "\\n"
  | '"' => "\\\""
  | '\\' => "\\\\"
  | c => if isExtending c || !isGraphic c then s!"\\u\x7b{hex c.toNat}\x7d" else c.toString

/-- The written form of `s`, quotes included. -/
def quote (s : String) : String := "\"" ++ String.join (s.toList.map escape) ++ "\""

/-- The written form of a list: the items between brackets, a comma and a blank between two. -/
def listing (items : List String) : String := "[" ++ ", ".intercalate items ++ "]"

/-- The written form of an optional item. -/
def optional : Option String → String
  | none => "None"
  | some item => s!"Some({item})"

end ThreadCore.Text
