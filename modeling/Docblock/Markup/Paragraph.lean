import Docblock.Text.White

/-!
# Paragraphs

Prose is divided into paragraphs by gaps. A gap is a line break followed by at least one more with
only spaces and tabs between them, and it takes the spaces and tabs behind it along. A line break
is a line feed, alone or behind a carriage return.

## Main definitions

* `Markup.paragraphs`: the paragraphs of a text
* `Markup.prose`: prose as markup, with a paragraph mark in each gap
-/

namespace Docblock.Markup

/-- Whether only spaces and tabs stand before the next line break. -/
def startsWithBlankLine : Text → Bool
  | ' ' :: t => startsWithBlankLine t
  | '\t' :: t => startsWithBlankLine t
  | '\n' :: _ => true
  | '\r' :: '\n' :: _ => true
  | _ => false

/-- Whether a gap starts here: a line break with a blank line behind it. -/
def startsWithGap : Text → Bool
  | '\n' :: t => startsWithBlankLine t
  | '\r' :: '\n' :: t => startsWithBlankLine t
  | _ => false

/-- Whether a gap that is open goes on here: with a space, a tab or a line break. -/
def continuesGap : Text → Bool
  | ' ' :: _ => true
  | '\t' :: _ => true
  | '\n' :: _ => true
  | '\r' :: '\n' :: _ => true
  | _ => false

/-- Puts a character in front of the first paragraph. -/
def consFirst (c : Char) : List Text → List Text
  | [] => [[c]]
  | p :: ps => (c :: p) :: ps

/-- The paragraphs of a text that starts in a gap, or does not. -/
def paragraphsFrom (inGap : Bool) : Text → List Text
  | [] => [[]]
  | c :: t =>
    if inGap then
      if continuesGap (c :: t) then paragraphsFrom true t else consFirst c (paragraphsFrom false t)
    else if startsWithGap (c :: t) then [] :: paragraphsFrom true t
    else consFirst c (paragraphsFrom false t)

/-- The paragraphs of a text. -/
def paragraphs (t : Text) : List Text := paragraphsFrom false t

/-- Prose as markup: trimmed, its gaps replaced by paragraph marks. Markup in prose is kept. -/
def prose (t : Text) : Text := List.intercalate "\n<p>\n".toList (paragraphs t.trim)

end Docblock.Markup
