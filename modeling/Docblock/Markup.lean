import Docblock.Text

/-!
# Markup

Text that stands literally in a page is escaped: each character that markup gives a meaning to is
written as an entity.

## Main definitions

* `Markup.escape`: a text as markup that displays it
-/

namespace Docblock.Markup

/-- The markup that displays one character. -/
def entity (c : Char) : Text :=
  match c with
  | '&' => "&amp;".toList
  | '<' => "&lt;".toList
  | '>' => "&gt;".toList
  | '\"' => "&quot;".toList
  | c => [c]

/-- The markup that displays a text. -/
def escape (t : Text) : Text := t.flatMap entity

@[simp] theorem escape_nil : escape [] = [] := rfl

@[simp] theorem escape_append (s t : Text) : escape (s ++ t) = escape s ++ escape t :=
  List.flatMap_append

end Docblock.Markup
