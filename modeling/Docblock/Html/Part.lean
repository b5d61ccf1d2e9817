import Docblock.Anchor
import Docblock.Item
import Docblock.Markup
import Docblock.Markup.Paragraph

/-!
# The parts of an HTML page

A page is a title and a list of parts: the sections that tell what is known of an item, the indexes
that refer to sections or to pages, headings and rules. Names, keywords and declarations stand in
a page literally; prose and titles may hold markup of their own.

## Main definitions

* `Section`: what is known of an item
* `Row`: a reference with a title
* `Part`: a part of a page
* `renderPage`: a page of parts
-/

namespace Docblock.Html

/-- What is known of an item, in the order in which it is shown. -/
structure Section where
  /-- The anchor under which the section is found. -/
  anchor : Text
  heading : Text
  declarations : List Text
  descriptions : List Text
  others : List Attribute
  deriving DecidableEq

/-- A reference with a label, and a title behind it. -/
structure Row where
  target : Text
  label : Text
  title : Text
  deriving DecidableEq

/-- A part of a page. -/
inductive Part where
  | details (s : Section)
  | index (above : Text) (rows : List Row)
  | heading (words : Text)
  | rule
  | noGlobals
  deriving DecidableEq

/-! ## Sections -/

namespace Section

/-- The keywords of declarations, in the order in which they are shown. -/
def declarationKeywords : List Text := [Attribute.declarationKeyword, "Prototype".toList]

/-- The keywords of descriptions, in the order in which they are shown. -/
def descriptionKeywords : List Text := [Attribute.descriptionKeyword, "Description".toList]

/-- Whether an attribute has one of some keywords. -/
def hasOneOf (keywords : List Text) (a : Attribute) : Bool := keywords.any (a.hasKeyword ·)

/-- The values under some keywords that are not empty, keyword after keyword. -/
def valuesNamed (notes : Notes) (keywords : List Text) : List Text :=
  keywords.flatMap fun keyword =>
    ((notes.attributesNamed keyword).map (·.value)).filter (· ≠ [])

/-- The attributes that are neither declarations nor descriptions. -/
def otherAttributes (notes : Notes) : List Attribute :=
  notes.attributes.filter fun a => !hasOneOf (declarationKeywords ++ descriptionKeywords) a

/-- What is known of an item. -/
def ofItem (i : Item) : Section :=
  { anchor := Docblock.anchor i.notes.link
    heading := i.fullName
    declarations := valuesNamed i.notes declarationKeywords
    descriptions := valuesNamed i.notes descriptionKeywords
    others := otherAttributes i.notes }

/-- A declaration, which stands literally. -/
def renderDeclaration (declaration : Text) : Text :=
  "<p class=\"prototype\">".toList ++ Markup.escape declaration ++ "</p>\n".toList

/-- A description, which is prose. -/
def renderDescription (description : Text) : Text :=
  "<p>".toList ++ Markup.prose description ++ "</p>\n".toList

/-- An attribute: its keyword, which stands literally, and its value, which is prose. -/
def renderAttribute (a : Attribute) : Text :=
  "  <dt>".toList ++ Markup.escape a.keyword ++ ":</dt>\n".toList ++
    "  <dd>".toList ++ Markup.prose a.value ++ "</dd>\n".toList

/-- A list of attributes; none at all when it is empty. -/
def renderOthers (others : List Attribute) : Text :=
  if others = [] then []
  else "<dl>\n".toList ++ others.flatMap renderAttribute ++ "</dl>\n".toList

/-- A section in HTML. -/
def render (s : Section) : Text :=
  "<a name=\"".toList ++ Markup.escape s.anchor ++ "\"></a>\n".toList ++
    "<h1>".toList ++ Markup.escape s.heading ++ "</h1>\n".toList ++
    s.declarations.flatMap renderDeclaration ++ s.descriptions.flatMap renderDescription ++
    renderOthers s.others

end Section

/-! ## Indexes -/

/-- A reference in HTML. The title is prose and may hold markup. -/
def Row.render (row : Row) : Text :=
  "  <tr><td><a href=\"".toList ++ Markup.escape row.target ++ "\">".toList ++
    Markup.escape row.label ++ "</a></td><td>".toList ++ row.title ++ "</td></tr>\n".toList

/-- A heading in HTML. -/
def renderHeading (heading : Text) : Text :=
  "<h3>".toList ++ Markup.escape heading ++ "</h3>\n".toList

namespace Part

/-- A part in HTML. -/
def render : Part → Text
  | details s => s.render
  | index above rows =>
    renderHeading above ++ "<table>\n".toList ++ rows.flatMap Row.render ++
      "</table>\n".toList
  | heading words => renderHeading words
  | rule => "<hr>\n".toList
  | noGlobals => "<p><b>No Global functions or variables</b></p>\n".toList

theorem render_details (s : Section) : (details s).render = s.render := rfl

end Part

/-! ## Pages -/

/-- What stands in front of the parts of a page. -/
def renderHead (title : Text) : Text :=
  "<!DOCTYPE html>\n<html>\n<head>\n".toList ++
    "<meta charset=\"utf-8\">\n".toList ++
    "<meta name=\"generator\" content=\"docgen\">\n".toList ++
    "<title>".toList ++ Markup.escape title ++ "</title>\n".toList ++
    "<style>\n".toList ++
    "body \x7b font-family: system-ui, sans-serif; max-width: 52em; ".toList ++
    "margin: 2em auto; padding: 0 1em; \x7d\n".toList ++
    ".prototype \x7b font-style: italic; font-family: monospace; ".toList ++
    "white-space: pre-wrap; \x7d\n".toList ++
    "td \x7b vertical-align: top; padding: 0.2em 1em 0.2em 0; \x7d\n".toList ++
    "dt \x7b font-weight: bold; margin-top: 0.5em; \x7d\n".toList ++
    "dd \x7b margin-left: 1.5em; \x7d\n".toList ++
    "</style>\n".toList ++
    "</head>\n<body>\n".toList

/-- What stands behind the parts of a page. -/
def renderFoot : Text := "</body>\n</html>\n".toList

/-- A page with a title and parts. -/
def renderPage (title : Text) (parts : List Part) : Text :=
  renderHead title ++ parts.flatMap Part.render ++ renderFoot

end Docblock.Html
