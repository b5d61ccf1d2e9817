/-!
# Texts

A text is the list of its characters. Everything the library reads, keeps and writes is a text, so
that a cut, a search or a count is a function on lists and its laws are laws of lists.

## Main definitions

* `Text`: a list of characters
* `Text.sameIgnoringCase`: equality up to the case of the ASCII letters
* `Text.decimal`, `Text.hexadecimal`: a number written in base ten, and in base sixteen
* `Text.lines`: the lines that a printed text shows
-/

namespace Docblock

/-- A text is the list of its characters. -/
abbrev Text := List Char

namespace Text

/-- The ASCII letters of a text in lower case; every other character stands for itself. -/
def lowerAscii (t : Text) : Text := t.map Char.toLower

/-- Equality of two texts up to the case of the ASCII letters. The first difference decides. -/
def sameIgnoringCase : Text → Text → Bool
  | [], [] => true
  | c :: s, d :: t => c.toLower == d.toLower && sameIgnoringCase s t
  | _, _ => false

/-- A number in base ten, without a sign and without leading zeros. -/
def decimal (n : Nat) : Text := Nat.toDigits 10 n

/-- A number in base sixteen with lower-case digits, without leading zeros. -/
def hexadecimal (n : Nat) : Text := Nat.toDigits 16 n

/-- A line without the carriage return that stands before its line feed. -/
def withoutReturn (line : Text) : Text := if line.getLast? = some '\r' then line.dropLast else line

/-- The lines of a text that is printed with a line feed behind it. A line ends with a line feed, or
with a carriage return and a line feed. -/
def lines (t : Text) : List Text := (t.splitOn '\n').map withoutReturn

@[simp] theorem lowerAscii_nil : lowerAscii [] = [] := rfl

@[simp] theorem lowerAscii_append (s t : Text) :
    lowerAscii (s ++ t) = lowerAscii s ++ lowerAscii t := List.map_append

/-- Equality up to case is equality of the lower-case forms. -/
theorem sameIgnoringCase_iff {s t : Text} :
    s.sameIgnoringCase t = true ↔ s.lowerAscii = t.lowerAscii := by
  induction s generalizing t with
  | nil => cases t <;> simp [sameIgnoringCase, lowerAscii]
  | cons c s ih =>
    cases t with
    | nil => simp [sameIgnoringCase, lowerAscii]
    | cons d t => simpa [sameIgnoringCase, lowerAscii] using fun _ => ih

@[simp] theorem sameIgnoringCase_self (t : Text) : t.sameIgnoringCase t = true :=
  sameIgnoringCase_iff.2 rfl

end Text

end Docblock
