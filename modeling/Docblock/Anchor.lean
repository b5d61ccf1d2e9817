import Docblock.Text.Utf8

/-!
# Anchors

An anchor names a place in a page, and a file. It is made of ASCII letters, digits and four
punctuation marks; every other character is written as its bytes in base sixteen.

## Main definitions

* `anchor`: the anchor of a link
* `pageName`: the file name of the page of a class
-/

namespace Docblock

/-- Whether a character stands for itself in an anchor. -/
def isAnchorChar (c : Char) : Bool :=
  c.isAlphanum || c == '_' || c == '~' || c == '.' || c == '-'

/-- One character of an anchor: itself, or an underscore and the number of each of its bytes. -/
def anchorChar (c : Char) : Text :=
  if isAnchorChar c then [c]
  else (Utf8.encodeChar c).flatMap fun b => '_' :: Text.hexadecimal b.toNat

/-- The anchor of a link. -/
def anchor (link : Text) : Text := link.flatMap anchorChar

/-- The file name of the page of a class. -/
def pageName (className : Text) : Text := anchor className ++ ".html".toList

@[simp] theorem anchor_nil : anchor [] = [] := rfl

@[simp] theorem anchor_append (s t : Text) : anchor (s ++ t) = anchor s ++ anchor t :=
  List.flatMap_append

end Docblock
