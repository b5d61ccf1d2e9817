import Docblock.Item
import Docblock.Reading

/-!
# Headers

A block starts with a header that names its item: an optional word for the kind of item with an
optional colon behind it, the name, and an optional link behind a hash sign.

    header  ::= [kind [":"]] name ["#" link]
    name    ::= identifier | "::" identifier | identifier "::" identifier

A name without a kind is that of a function, and empty parentheses may follow the name of a
function.

## Main definitions

* `Header`: the item that a header names
* `LinkMark`: what a header says about the link
* `Header.read`, `LinkMark.read`: the two parts of a header

## Main results

* `Header.composed_read`, `LinkMark.composed_read`: the two parts of a header are read in steps
  that take no prose
-/

namespace Docblock

/-- The item that a header names; the project is named anew. -/
inductive Header where
  | project (name : Text)
  | classNamed (name : Text)
  | member (kind : MemberKind) (owner name : Text)
  deriving DecidableEq

/-- The item that a header is about. -/
def Header.subject : Header → Subject
  | project _ => .project
  | classNamed name => .classNamed name
  | member kind owner name => .member kind owner name

/-- What a header says about the link of its item. -/
inductive LinkMark where
  /-- Nothing. -/
  | absent
  /-- The link. -/
  | given (link : Text)
  /-- There is a hash sign but no link behind it. -/
  | faulty (fault : Diagnostic)
  deriving DecidableEq

/-- A kind of item as a header gives it. -/
inductive HeaderKind where
  | project
  | classNamed
  | member (kind : MemberKind)
  deriving DecidableEq

namespace HeaderKind

/-- The words for the kinds of items. -/
def words : List (Text × HeaderKind) :=
  [("Project".toList, project), ("Class".toList, classNamed), ("Variable".toList, member .data),
    ("Function".toList, member .function), ("Member".toList, member .function),
    ("Routine".toList, member .function)]

/-- The kind that a word stands for, in any case of its letters. -/
def ofWord? (word : Text) : Option HeaderKind :=
  (words.find? fun entry => entry.1.sameIgnoringCase word).map (·.2)

/-- Reads the kind of an item with its colon; where there is none the item is a function. -/
def read : Reading HeaderKind := do
  match ← Reading.look with
  | .identifier word =>
    match ofWord? word with
    | some kind =>
      discard Reading.take
      Reading.takeIf .colon
      return kind
    | none => return member .function
  | _ => return member .function

end HeaderKind

namespace Header

/-- Reads the name of a member behind the two colons that follow the name of its class. -/
def readQualified (owner : Text) : Reading (Text × Text) :=
  return (owner, ← Reading.identifier .memberName)

/-- Reads the name of a member: the name of its class and its own. -/
def readMember : Reading (Text × Text) := do
  match ← Reading.take with
  | .identifier word =>
    if (← Reading.look) = .scope then
      discard Reading.take
      readQualified word
    else return (globalClass, word)
  | found =>
    if found = .scope then readQualified globalClass
    else Reading.lacking .memberName found

/-- Reads the item that a header names. -/
def read : Reading Header := do
  match ← HeaderKind.read with
  | .project => return project (← Reading.identifier .projectName)
  | .classNamed => return classNamed (← Reading.identifier .className)
  | .member .function =>
    let (owner, name) ← readMember
    Reading.takeIf .parentheses
    return member .function owner name
  | .member .data =>
    let (owner, name) ← readMember
    return member .data owner name

end Header

/-- Reads what a header says about the link. A link that is missing does not stop the reading. -/
def LinkMark.read : Reading LinkMark := do
  if (← Reading.look) = .hash then
    discard Reading.take
    match ← Reading.look with
    | .identifier link =>
      discard Reading.take
      return given link
    | found => return faulty (← Reading.lack .linkName found)
  else return absent

/-! ## The steps of reading a header -/

section Composed

open Reading

variable {prose : Bool}

theorem HeaderKind.composed_read : Composed prose HeaderKind.read := by
  refine .bind .look fun x => ?_
  split
  · split
    · exact .bind (composed_discard .take) fun _ => .bind (composed_takeIf _) fun _ => .pure _
    · exact .pure _
  · exact .pure _

namespace Header

theorem composed_readQualified (owner : Text) : Composed prose (readQualified owner) :=
  .bind (composed_identifier _) fun _ => .pure _

theorem composed_readMember : Composed prose readMember := by
  refine .bind .take fun x => ?_
  split
  · refine .bind .look fun y => ?_
    split
    · exact .bind (composed_discard .take) fun _ => composed_readQualified _
    · exact .pure _
  · split
    · exact composed_readQualified _
    · exact composed_lacking _ _

/-- Reading the name of an item is composed of steps. -/
theorem composed_read : Composed prose Header.read := by
  refine .bind HeaderKind.composed_read fun kind => ?_
  split
  · exact .bind (composed_identifier _) fun _ => .pure _
  · exact .bind (composed_identifier _) fun _ => .pure _
  · exact .bind composed_readMember fun _ => .bind (composed_takeIf _) fun _ => .pure _
  · exact .bind composed_readMember fun _ => .pure _

end Header

/-- Reading what a header says about the link is composed of steps. -/
theorem LinkMark.composed_read : Composed prose LinkMark.read := by
  refine .bind .look fun x => ?_
  split
  · refine .bind (composed_discard .take) fun _ => .bind .look fun y => ?_
    split
    · exact .bind (composed_discard .take) fun _ => .pure _
    · exact .bind (.lack _ _) fun _ => .pure _
  · exact .pure _

end Composed

end Docblock
