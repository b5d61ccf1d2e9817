import Docblock.Document.Operation

/-!
# Stored nodes

Each documented item is kept as a node. A node holds what kind of item it is and, for a member, the
name of its class, besides its own name and what is known of it. Nodes are kept under keys: a class
under its name, and a member with its class, under its own name. Nothing in the types says that the
name in a node is the key over it: a node is made when its key is first mentioned, and a new member
takes its owner from the name that is stored in the node of its class.

A document holds what is known of each item without its kind, its name and its owner, which it has
from the keys. It is what a store becomes when these are forgotten.

## Main definitions

* `Node`: an item as it is stored, with its kind and its name
* `ClassNode`: the node of a class, and those of its members
* `Store`: the node of the project, and the classes
* `Store.node?`: the node of a subject
* `Store.edit`: a change to the node of a subject, which comes into the store if need be
* `Store.apply`, `Store.run`: a store after one operation, and after a run of them
* `Store.document`: the document that a store holds
-/

namespace Docblock

/-- What kind of item a node is. A member remembers its class. -/
inductive ItemKind where
  | project
  | ofClass
  | ofMember (kind : MemberKind) (owner : Text)
  deriving DecidableEq

/-- An item as it is stored. -/
structure Node where
  kind : ItemKind
  name : Text
  notes : Notes
  deriving DecidableEq

namespace Node

/-- A node of which nothing is known but its kind and its name. -/
def fresh (kind : ItemKind) (name : Text) : Node := ⟨kind, name, .named name⟩

/-- A node with a change to what is known of it. -/
def change (n : Node) : Change → Node
  | .add a => { n with notes := n.notes.add a }
  | .setLink link => { n with notes := { n.notes with link := link } }
  | .resetLink => { n with notes := { n.notes with link := n.name } }

/-- Whether the declaration behind a block is to be kept. -/
def awaitsDeclaration (n : Node) : Bool :=
  match n.kind with
  | .ofMember _ _ => (n.notes.attributesNamed "Prototype".toList).isEmpty
  | _ => false

/-- Which item a node is, by what is stored in it. -/
def subject (n : Node) : Subject :=
  match n.kind with
  | .project => .project
  | .ofClass => .classNamed n.name
  | .ofMember kind owner => .member kind owner n.name

/-- The item that is stored in a node. -/
def item (n : Node) : Item := ⟨n.subject, n.name, n.notes⟩

end Node

/-- The node of a class, and those of its members. -/
structure ClassNode where
  node : Node
  functions : Catalog Text Node := {}
  data : Catalog Text Node := {}

namespace ClassNode

/-- A class of which nothing is known but its name. -/
def named (name : Text) : ClassNode := { node := .fresh .ofClass name }

/-- The members of one kind. -/
def members (c : ClassNode) : MemberKind → Catalog Text Node
  | .function => c.functions
  | .data => c.data

/-- A class with the members of one kind replaced. -/
def setMembers (c : ClassNode) (members : Catalog Text Node) : MemberKind → ClassNode
  | .function => { c with functions := members }
  | .data => { c with data := members }

/-- A change to the node of a member, which comes into the class if need be. Its owner is the name
that is stored in the class. -/
def editMember (c : ClassNode) (kind : MemberKind) (name : Text) (f : Node → Node) : ClassNode :=
  c.setMembers
    ((c.members kind).update name fun n => f (n.getD (.fresh (.ofMember kind c.node.name) name)))
    kind

@[simp] theorem setMembers_node (c : ClassNode) (members : Catalog Text Node) (kind : MemberKind) :
    (c.setMembers members kind).node = c.node := by
  cases kind <;> rfl

@[simp] theorem members_setMembers_self (c : ClassNode) (members : Catalog Text Node)
    (kind : MemberKind) : (c.setMembers members kind).members kind = members := by
  cases kind <;> rfl

theorem members_setMembers_of_ne {kind other : MemberKind} (different : other ≠ kind)
    (c : ClassNode) (members : Catalog Text Node) :
    (c.setMembers members kind).members other = c.members other := by
  cases kind <;> cases other <;> first | rfl | exact absurd rfl different

/-- A class with its members, as they are stored. -/
def listing (c : ClassNode) : Listing where
  item := c.node.item
  functions := c.functions.values.map Node.item
  data := c.data.values.map Node.item

/-- What is known of a class and of its members. -/
def forget (c : ClassNode) : ClassNotes where
  notes := c.node.notes
  functions := c.functions.map (·.notes)
  data := c.data.map (·.notes)

end ClassNode

/-- The node of a project, and those of its classes with their members. -/
structure Store where
  project : Node := .fresh .project []
  classes : Catalog Text ClassNode := {}

namespace Store

/-- The store in which nothing has been mentioned. -/
def empty : Store := {}

/-! ## What is kept -/

/-- The node of a subject that has been mentioned. -/
def node? (st : Store) : Subject → Option Node
  | .project => some st.project
  | .classNamed name => (st.classes.get? name).map (·.node)
  | .member kind owner name => (st.classes.get? owner).bind fun c => (c.members kind).get? name

/-- The classes with their members, in the order of the keys. -/
def listings (st : Store) : List Listing := st.classes.values.map ClassNode.listing

/-- The document that a store holds: what is known of each item, under the same keys. -/
def document (st : Store) : Document where
  projectName := st.project.name
  project := st.project.notes
  classes := st.classes.map ClassNode.forget

/-! ## Operations -/

/-- A change to the node of a subject. A subject that has not been mentioned comes into the store
first, and a member brings its class along. -/
def edit (st : Store) (s : Subject) (f : Node → Node) : Store :=
  match s with
  | .project => { st with project := f st.project }
  | .classNamed name =>
    { st with
      classes := st.classes.update name fun c =>
        let c := c.getD (.named name)
        { c with node := f c.node } }
  | .member kind owner name =>
    { st with
      classes := st.classes.update owner fun c =>
        (c.getD (.named owner)).editMember kind name f }

/-- Mentions a subject. -/
def mention (st : Store) (s : Subject) : Store := st.edit s id

/-- Gives the project its name. -/
def nameProject (st : Store) (name : Text) : Store :=
  { st with project := { st.project with name := name } }

/-- A store with a change to what is known of a subject. -/
def change (st : Store) (s : Subject) (c : Change) : Store := st.edit s (·.change c)

/-- Mentions the item of a header, and gives the project the name that the header has for it. -/
def meet (st : Store) (header : Header) : Store :=
  match header with
  | .project name => st.nameProject name
  | header => st.mention header.subject

/-- Gives a subject the link of a header, or its own name where the header has none. -/
def recordLink (st : Store) (s : Subject) : LinkMark → Store
  | .given link => st.change s (.setLink link)
  | _ => st.change s .resetLink

/-- Adds attributes to a subject, in order. -/
def addAttributes (st : Store) (s : Subject) (attributes : List Attribute) : Store :=
  attributes.foldl (fun st a => st.change s (.add a)) st

/-- Adds the declaration behind a block, if there is one and the node of the subject is to keep
it. -/
def recordDeclaration (st : Store) (s : Subject) : Option Text → Store
  | some text =>
    if (st.node? s).any (·.awaitsDeclaration) then
      st.change s (.add ⟨Attribute.declarationKeyword, text⟩)
    else st
  | none => st

/-- A store with what an entry says. -/
def recordEntry (st : Store) (e : Entry) : Store :=
  let s := e.header.subject
  (((st.meet e.header).recordLink s e.link).addAttributes s e.attributes).recordDeclaration s
    e.declaration

/-- A store with what a block says. A block with a broken header says nothing. -/
def record (st : Store) : Block → Store
  | .broken _ => st
  | .entry e => st.recordEntry e

/-- A store with what the blocks of a source say. -/
def recordSource (st : Store) (source : Text) : Store :=
  (Block.ofSource source).foldl record st

/-- A store after an operation. -/
def apply (st : Store) : Operation → Store
  | .nameProject name => st.nameProject name
  | .mention s => st.mention s
  | .change s c => st.change s c
  | .recordSource source => st.recordSource source

/-- The store after a run of operations. -/
def run (operations : List Operation) : Store := operations.foldl apply empty

end Store

end Docblock
