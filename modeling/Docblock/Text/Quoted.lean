import Docblock.Text
import Docblock.Text.Extending
import Docblock.Text.Ignorable

/-!
# Quoted text

A text in a message stands between quotation marks. What would end the quotation, and what would
not be seen as a character of its own, is escaped.

## Main definitions

* `Text.isHidden`: characters that are not seen as characters of their own
* `Text.quoted`: a text between quotation marks
-/

namespace Docblock.Text

/-- The two halfwidth sound marks. They extend the character before them, but are drawn behind it
in a place of their own. -/
def isSoundMark (c : Char) : Bool := c.toNat = 0xFF9E || c.toNat = 0xFF9F

/-- ASCII control characters. -/
def isControl (c : Char) : Bool := c.toNat < 0x20 || c.toNat = 0x7F

/-- Characters that are not seen as characters of their own: those that control a terminal, those
drawn on the character before them, and those drawn as nothing. -/
def isHidden (c : Char) : Bool :=
  isControl c || (isExtending c && !isSoundMark c) || isIgnorable c

/-- One character of a quoted text. -/
def quotedChar (c : Char) : Text :=
  match c with
  | '\"' => "\\\"".toList
  | '\\' => "\\\\".toList
  | '\x00' => "\\0".toList
  | '\t' => "\\t".toList
  | '\n' => "\\n".toList
  | '\r' => "\\r".toList
  | c => if isHidden c then "\\u\x7b".toList ++ hexadecimal c.toNat ++ "\x7d".toList else [c]

/-- A text between quotation marks. -/
def quoted (t : Text) : Text := '\"' :: t.flatMap quotedChar ++ ['\"']

end Docblock.Text
