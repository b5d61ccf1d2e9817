import Docblock.Html.Layout
import Docblock.Json.Page

/-!
# Output formats

A document is written in HTML or in JSON.

## Main definitions

* `Format`: the formats
* `Format.ofName?`: the format of a name
* `Format.pages`: the pages of a document in a format
-/

namespace Docblock

/-- The formats in which a document can be written. -/
inductive Format where
  | html
  | json
  deriving DecidableEq

namespace Format

/-- The name of a format. -/
def name : Format → Text
  | html => "html".toList
  | json => "json".toList

/-- The format of a name; the name of HTML may be shortened. -/
def ofName? (name : Text) : Option Format :=
  if name = "html".toList ∨ name = "htm".toList then some html
  else if name = "json".toList then some json
  else none

/-- What is said of a name that is not the name of a format. -/
def unknownMessage (name : Text) : Text :=
  "unknown format: ".toList ++ name ++ ". Use html or json".toList

/-- The pages of a document, in the order in which they are written. -/
def pages : Format → Document → List Page
  | html, d => Html.pages d
  | json, d => [Json.page d]

@[simp] theorem ofName?_name (f : Format) : ofName? f.name = some f := by
  cases f <;> rfl

end Format

end Docblock
