import Docblock.Document
import Docblock.Json
import Docblock.Page

/-!
# The page of a document in JSON

The whole document is one JSON value: the project, and the classes with their members. Each item
has its names, its link, its title and its attributes.

## Main definitions

* `ofItem`, `ofListing`, `ofDocument`: items, classes and documents as JSON values
* `page`: the page of a document
-/

namespace Docblock.Json

/-- An attribute as a JSON value. -/
def ofAttribute (a : Attribute) : Json :=
  object [("keyword".toList, text a.keyword), ("value".toList, text a.value)]

/-- The fields of an item. -/
def itemFields (i : Item) : List (Text × Json) :=
  [("name".toList, text i.name), ("full_name".toList, text i.fullName),
    ("display_name".toList, text i.shortName), ("link_name".toList, text i.notes.link),
    ("title".toList, text i.title),
    ("attributes".toList, list (i.notes.attributes.map ofAttribute))]

/-- An item as a JSON value. -/
def ofItem (i : Item) : Json := object (itemFields i)

/-- A class with its members as a JSON value. -/
def ofListing (l : Listing) : Json :=
  object (itemFields l.item ++
    [("global".toList, truth l.isGlobal), ("functions".toList, list (l.functions.map ofItem)),
      ("variables".toList, list (l.data.map ofItem))])

/-- A document as a JSON value. -/
def ofDocument (d : Document) : Json :=
  object [("project".toList, ofItem d.projectItem),
    ("classes".toList, list (d.listings.map ofListing))]

/-- The page of a document. -/
def page (d : Document) : Page := ⟨"index.json".toList, (ofDocument d).render ++ ['\n']⟩

end Docblock.Json
