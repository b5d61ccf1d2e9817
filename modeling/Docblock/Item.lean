import Docblock.Text

/-!
# Items

An item is something that is documented: the project, a class, or a member of a class. What is
known of it is a link, under which other pages may refer to it, and a list of attributes in the
order in which they were written. Members without a class belong to the global class, whose name is
empty.

## Main definitions

* `Attribute`: a keyword and a value
* `Subject`: which item is meant
* `Notes`: the link and the attributes of an item
* `Item`: an item with its name and its notes
* `Item.fullName`, `Item.shortName`, `Item.title`: what an item is called
* `Item.awaitsDeclaration`: whether the declaration behind a block is to be kept
-/

namespace Docblock

/-- A keyword and what is written behind it. -/
structure Attribute where
  keyword : Text
  value : Text
  deriving DecidableEq

namespace Attribute

/-- The keyword of the description that stands in front of all labels. -/
def descriptionKeyword : Text := "*Description".toList

/-- The keyword of the declaration that follows a block. -/
def declarationKeyword : Text := "*Prototype".toList

/-- Whether an attribute has a keyword, up to the case of ASCII letters. -/
def hasKeyword (a : Attribute) (keyword : Text) : Bool := a.keyword.sameIgnoringCase keyword

end Attribute

/-- The name of the class of those members that have no class. -/
def globalClass : Text := []

/-- Members of a class: functions and data. -/
inductive MemberKind where
  | function
  | data
  deriving DecidableEq

/-- Which item is meant. -/
inductive Subject where
  | project
  | classNamed (name : Text)
  | member (kind : MemberKind) (owner name : Text)
  deriving DecidableEq

/-- What is known of an item. -/
structure Notes where
  link : Text
  attributes : List Attribute := []
  deriving DecidableEq

namespace Notes

/-- Nothing is known of an item but its name, which is also its link. -/
def named (name : Text) : Notes := ⟨name, []⟩

/-- The notes with one more attribute at the end. -/
def add (n : Notes) (a : Attribute) : Notes := { n with attributes := n.attributes ++ [a] }

/-- The attributes with a keyword, in order. -/
def attributesNamed (n : Notes) (keyword : Text) : List Attribute :=
  n.attributes.filter (·.hasKeyword keyword)

@[simp] theorem add_link (n : Notes) (a : Attribute) : (n.add a).link = n.link := rfl

@[simp] theorem add_attributes (n : Notes) (a : Attribute) :
    (n.add a).attributes = n.attributes ++ [a] := rfl

end Notes

/-- An item with its name and its notes. -/
structure Item where
  subject : Subject
  name : Text
  notes : Notes
  deriving DecidableEq

namespace Item

/-- The name of an item together with that of its class. -/
def fullName (i : Item) : Text :=
  match i.subject with
  | .project => "Project ".toList ++ i.name
  | .classNamed _ => i.name
  | .member .function owner _ => owner ++ "::".toList ++ i.name ++ "()".toList
  | .member .data owner _ => owner ++ "::".toList ++ i.name

/-- The name of an item within its class. -/
def shortName (i : Item) : Text :=
  match i.subject with
  | .member .function _ _ => i.name ++ "()".toList
  | _ => i.name

/-- A text through its first full stop; all of it when it has none. -/
def firstSentence : Text → Text
  | [] => []
  | c :: t => if c == '.' then [c] else c :: firstSentence t

/-- What describes an item in one line: its title, or the first sentence of its first attribute. -/
def title (i : Item) : Text :=
  match i.notes.attributesNamed "Title".toList, i.notes.attributes with
  | a :: _, _ => a.value
  | [], a :: _ => firstSentence a.value
  | [], [] => []

/-- Whether the declaration behind a block is to be kept: only for members, and only for those
whose notes do not give a prototype themselves. -/
def awaitsDeclaration (i : Item) : Bool :=
  match i.subject with
  | .member _ _ _ => (i.notes.attributesNamed "Prototype".toList).isEmpty
  | _ => false

end Item

end Docblock
