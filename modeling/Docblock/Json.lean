import Docblock.Text

/-!
# JSON

JSON values made of strings, truth values, lists and objects, and their text: one item or field a
line, indented by two blanks a level.

## Main definitions

* `Json`: a JSON value
* `Json.quote`: a string of JSON
* `Json.render`: the text of a value
-/

namespace Docblock

/-- A JSON value. The fields of an object are in the order in which they are written. -/
inductive Json where
  | text (t : Text)
  | truth (b : Bool)
  | list (items : List Json)
  | object (fields : List (Text × Json))

namespace Json

/-- A digit of base sixteen. -/
def hexDigit (n : Nat) : Char := Nat.digitChar (n % 16)

/-- One character of a string. Quotation marks, backslashes and control characters are escaped. -/
def escapeChar (c : Char) : Text :=
  match c with
  | '\"' => "\\\"".toList
  | '\\' => "\\\\".toList
  | '\x08' => "\\b".toList
  | '\x0c' => "\\f".toList
  | '\n' => "\\n".toList
  | '\r' => "\\r".toList
  | '\t' => "\\t".toList
  | c =>
    if c.toNat < 0x20 then "\\u00".toList ++ [hexDigit (c.toNat / 16), hexDigit c.toNat] else [c]

/-- A string between quotation marks. -/
def quote (t : Text) : Text := '\"' :: t.flatMap escapeChar ++ ['\"']

/-- The start of a line at a level. -/
def indent (level : Nat) : Text := '\n' :: List.replicate (2 * level) ' '

/-- Items between brackets, a line each, one level below the brackets. -/
def enclose (opened closed : Char) (level : Nat) (items : List Text) : Text :=
  if items = [] then [opened, closed]
  else
    opened :: List.intercalate [','] (items.map (indent (level + 1) ++ ·)) ++ indent level ++
      [closed]

mutual

/-- The text of a value at a level. -/
def renderAt (level : Nat) : Json → Text
  | text t => quote t
  | truth b => if b then "true".toList else "false".toList
  | list items => enclose '[' ']' level (renderItems (level + 1) items)
  | object fields => enclose '{' '}' level (renderFields (level + 1) fields)

/-- The texts of the items of a list. -/
def renderItems (level : Nat) : List Json → List Text
  | [] => []
  | item :: items => renderAt level item :: renderItems level items

/-- The texts of the fields of an object. -/
def renderFields (level : Nat) : List (Text × Json) → List Text
  | [] => []
  | field :: fields => renderField level field :: renderFields level fields

/-- The text of a field. -/
def renderField (level : Nat) : Text × Json → Text
  | (key, value) => quote key ++ ": ".toList ++ renderAt level value

end

/-- The text of a value. -/
def render (value : Json) : Text := renderAt 0 value

end Json

end Docblock
