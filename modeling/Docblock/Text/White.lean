import Docblock.Text
import Docblock.Text.Ranges

/-!
# White space and trimming

White space is the Unicode property White_Space. Trimming takes white space from both ends of a
text and leaves what is between them.

## Main definitions

* `Text.isWhite`: the property White_Space
* `Text.trim`: a text without the white space at its ends
-/

namespace Docblock.Text

/-- The code points with the property White_Space. -/
def whiteRanges : List (Nat × Nat) :=
  [(0x9, 0xD), (0x20, 0x20), (0x85, 0x85), (0xA0, 0xA0), (0x1680, 0x1680), (0x2000, 0x200A),
    (0x2028, 0x2029), (0x202F, 0x202F), (0x205F, 0x205F), (0x3000, 0x3000)]

/-- White space: the characters with the property White_Space. -/
def isWhite (c : Char) : Bool := covers whiteRanges c.toNat

/-- A text without the white space at its start. -/
def trimLeft (t : Text) : Text := t.dropWhile isWhite

/-- A text without the white space at its end. -/
def trimRight (t : Text) : Text := (t.reverse.dropWhile isWhite).reverse

/-- A text without the white space at its ends. -/
def trim (t : Text) : Text := trimRight (trimLeft t)

@[simp] theorem trim_nil : trim [] = [] := rfl

end Docblock.Text
