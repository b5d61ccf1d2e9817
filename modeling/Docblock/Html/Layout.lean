import Docblock.Document
import Docblock.Html.PageName
import Docblock.Html.Part
import Docblock.Page

/-!
# The pages of a document in HTML

The index tells what is known of the project and of the global members, and refers to the classes.
Each class with a name has a page that tells what is known of it and of its members.

## Main definitions

* `memberParts`: the indexes and the sections of the members of a class
* `indexParts`, `classParts`: the parts of the index and of the page of a class
* `classPages`: the classes with a name and the names of their pages
* `pages`: the pages of a document, the index first
-/

namespace Docblock.Html

/-- A reference to the section of a member, which is on the same page. -/
def memberRow (i : Item) : Row :=
  { target := '#' :: anchor i.notes.link, label := i.shortName, title := i.title }

/-- An index of members; none at all when there are no members. -/
def memberIndex (heading : Text) (members : List Item) : List Part :=
  if members = [] then [] else [.index heading (members.map memberRow)]

/-- The heading of the index of the functions of a class. -/
def functionsHeading (l : Listing) : Text :=
  if l.isGlobal then "Global functions".toList
  else l.item.fullName ++ " member functions".toList

/-- The heading of the index of the data of a class. -/
def dataHeading (l : Listing) : Text :=
  if l.isGlobal then "Global variables".toList
  else l.item.fullName ++ " member variables".toList

/-- The members of a class: their indexes, and a section for each of them. -/
def memberParts (l : Listing) : List Part :=
  memberIndex (functionsHeading l) l.functions ++ memberIndex (dataHeading l) l.data ++ [.rule] ++
    (l.functions ++ l.data).flatMap fun i => [.details (.ofItem i), .rule]

/-- The classes with a name. -/
def namedClasses (d : Document) : List Listing := d.listings.filter (!·.isGlobal)

/-- The classes with a name, and the names of their pages. -/
def classPages (d : Document) : List (Listing × Text) :=
  (namedClasses d).zip (assignNames ((namedClasses d).map (·.item.name)))

/-- A reference to the page of a class. -/
def classRow (page : Listing × Text) : Row :=
  { target := page.2, label := page.1.item.shortName, title := page.1.item.title }

/-- The index of the classes; none at all when there are no classes. -/
def classIndex (projectName : Text) (pages : List (Listing × Text)) : List Part :=
  if pages.isEmpty then []
  else [.index (projectName ++ " classes".toList) (pages.map classRow)]

/-- The members of the global class, or a notice that there are none. -/
def globalParts (d : Document) : List Part :=
  match d.listing? globalClass with
  | some l => memberParts l
  | none => [.noGlobals]

/-- The parts of the index. -/
def indexParts (d : Document) : List Part :=
  let projectName := d.projectItem.fullName
  [.details (.ofItem d.projectItem)] ++ classIndex projectName (classPages d) ++
    [.rule, .heading (projectName ++ " globals".toList)] ++ globalParts d

/-- The parts of the page of a class. -/
def classParts (l : Listing) : List Part := .details (.ofItem l.item) :: memberParts l

/-- The page of the project. -/
def indexPage (d : Document) : Page :=
  ⟨indexName, renderPage d.projectItem.fullName (indexParts d)⟩

/-- The page of a class. -/
def classPage (page : Listing × Text) : Page :=
  ⟨page.2, renderPage page.1.item.fullName (classParts page.1)⟩

/-- The pages of a document: the index, and one page for each class with a name. -/
def pages (d : Document) : List Page := indexPage d :: (classPages d).map classPage

end Docblock.Html
