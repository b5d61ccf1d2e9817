import Docblock.Catalog
import Docblock.Item

/-!
# Documents

A document holds what is known of all items: the project, the classes by name, and the members of
each class by name. Items come into it when they are first mentioned and are never taken out; an
edit through a subject reaches that item alone. The kind of an item, its name and its class are not
kept with it: they are those of its key.

## Main definitions

* `Document`: the project and its classes
* `Document.notes?`, `Document.item?`: what is known of a subject
* `Document.edit`: a change to the notes of a subject, which comes into the document if need be
* `Document.listings`: the classes and their members, in order

## Main results

* `notes?_edit_self`: an edit reaches its subject
* `notes?_edit_of_ne`: it reaches no other one, but for the class a member brings along
-/

namespace Docblock

/-- What is known of a class and of its members. -/
structure ClassNotes where
  notes : Notes
  functions : Catalog Text Notes := {}
  data : Catalog Text Notes := {}

namespace ClassNotes

/-- A class of which nothing is known but its name. -/
def named (name : Text) : ClassNotes := { notes := .named name }

/-- The members of one kind. -/
def members (c : ClassNotes) : MemberKind → Catalog Text Notes
  | .function => c.functions
  | .data => c.data

/-- A class with the members of one kind replaced. -/
def setMembers (c : ClassNotes) (members : Catalog Text Notes) : MemberKind → ClassNotes
  | .function => { c with functions := members }
  | .data => { c with data := members }

/-- A change to the notes of a member, which comes into the class if need be. -/
def editMember (c : ClassNotes) (kind : MemberKind) (name : Text) (f : Notes → Notes) :
    ClassNotes :=
  c.setMembers ((c.members kind).update name fun n => f (n.getD (.named name))) kind

@[simp] theorem setMembers_notes (c : ClassNotes) (members : Catalog Text Notes)
    (kind : MemberKind) : (c.setMembers members kind).notes = c.notes := by
  cases kind <;> rfl

@[simp] theorem members_setMembers_self (c : ClassNotes) (members : Catalog Text Notes)
    (kind : MemberKind) : (c.setMembers members kind).members kind = members := by
  cases kind <;> rfl

theorem members_setMembers_of_ne {kind other : MemberKind} (h : other ≠ kind) (c : ClassNotes)
    (members : Catalog Text Notes) :
    (c.setMembers members kind).members other = c.members other := by
  cases kind with
  | function =>
    cases other with
    | function => exact absurd rfl h
    | data => rfl
  | data =>
    cases other with
    | function => rfl
    | data => exact absurd rfl h

end ClassNotes

/-- What is known of a project, of its classes and of their members. -/
structure Document where
  projectName : Text := []
  project : Notes := .named []
  classes : Catalog Text ClassNotes := {}

/-- A class with its members, in the order of their names. -/
structure Listing where
  item : Item
  functions : List Item
  data : List Item

/-- Whether a listing is that of the global class. -/
def Listing.isGlobal (l : Listing) : Bool := l.item.name == globalClass

namespace Document

/-- The document in which nothing has been mentioned. -/
def empty : Document := {}

/-- Whether no class and no member has been mentioned. -/
def isEmpty (d : Document) : Bool := d.classes.isEmpty

/-! ## What is known -/

/-- What a subject is called. -/
def name (d : Document) : Subject → Text
  | .project => d.projectName
  | .classNamed name => name
  | .member _ _ name => name

/-- The notes of a subject that has been mentioned. -/
def notes? (d : Document) : Subject → Option Notes
  | .project => some d.project
  | .classNamed name => (d.classes.get? name).map (·.notes)
  | .member kind owner name => (d.classes.get? owner).bind fun c => (c.members kind).get? name

/-- The item of a subject that has been mentioned. -/
def item? (d : Document) (s : Subject) : Option Item :=
  (d.notes? s).map fun notes => ⟨s, d.name s, notes⟩

/-- The item of the project. -/
def projectItem (d : Document) : Item := ⟨.project, d.projectName, d.project⟩

/-- The members of one kind of a class, in the order of their names. -/
def memberItems (owner : Text) (kind : MemberKind) (members : Catalog Text Notes) : List Item :=
  members.entries.map fun (name, notes) => ⟨.member kind owner name, name, notes⟩

/-- A class with its members. -/
def listingOf (name : Text) (c : ClassNotes) : Listing :=
  { item := ⟨.classNamed name, name, c.notes⟩
    functions := memberItems name .function c.functions
    data := memberItems name .data c.data }

/-- The classes with their members, in the order of their names. -/
def listings (d : Document) : List Listing :=
  d.classes.entries.map fun (name, c) => listingOf name c

/-- The class of a name with its members. -/
def listing? (d : Document) (name : Text) : Option Listing :=
  (d.classes.get? name).map (listingOf name)

/-! ## Edits -/

/-- A change to the notes of a subject. A subject that has not been mentioned comes into the
document first, and a member brings its class along. -/
def edit (d : Document) (s : Subject) (f : Notes → Notes) : Document :=
  match s with
  | .project => { d with project := f d.project }
  | .classNamed name =>
    { d with
      classes := d.classes.update name fun c =>
        let c := c.getD (.named name)
        { c with notes := f c.notes } }
  | .member kind owner name =>
    { d with
      classes := d.classes.update owner fun c =>
        (c.getD (.named owner)).editMember kind name f }

/-- Mentions a subject. -/
def mention (d : Document) (s : Subject) : Document := d.edit s id

/-- Gives the project its name. -/
def nameProject (d : Document) (name : Text) : Document := { d with projectName := name }

/-- Gives a subject a link. -/
def setLink (d : Document) (s : Subject) (link : Text) : Document :=
  d.edit s fun n => { n with link := link }

/-- Makes the name of a subject its link. -/
def resetLink (d : Document) (s : Subject) : Document := d.setLink s (d.name s)

/-- Adds an attribute to a subject. -/
def addAttribute (d : Document) (s : Subject) (a : Attribute) : Document :=
  d.edit s (·.add a)

/-! ## What an edit reaches -/

@[simp] theorem edit_projectName (d : Document) (s : Subject) (f : Notes → Notes) :
    (d.edit s f).projectName = d.projectName := by
  cases s <;> rfl

@[simp] theorem edit_name (d : Document) (s t : Subject) (f : Notes → Notes) :
    (d.edit s f).name t = d.name t := by
  cases t <;> simp [name]

/-- **An edit reaches its subject.** -/
theorem notes?_edit_self (d : Document) (s : Subject) (f : Notes → Notes) :
    (d.edit s f).notes? s = some (f ((d.notes? s).getD (.named (d.name s)))) := by
  cases s with
  | project => rfl
  | classNamed name =>
    cases h : d.classes.get? name <;> simp [edit, notes?, h, ClassNotes.named, Document.name]
  | member kind owner name =>
    have fresh : ∀ k, (ClassNotes.named owner).members k = {} := by intro k; cases k <;> rfl
    cases h : d.classes.get? owner <;>
      simp [edit, notes?, h, ClassNotes.editMember, fresh, Document.name]

/-- **An edit reaches no other subject**, but for the class that a member brings along. -/
theorem notes?_edit_of_ne {d : Document} {s t : Subject} (h : t ≠ s) (f : Notes → Notes)
    (known : ∀ kind owner name, s = .member kind owner name → t = .classNamed owner →
      d.notes? t ≠ none) : (d.edit s f).notes? t = d.notes? t := by
  cases s with
  | project =>
    cases t with
    | project => exact absurd rfl h
    | classNamed m => rfl
    | member kind owner m => rfl
  | classNamed n =>
    cases t with
    | project => rfl
    | classNamed m =>
      have other : m ≠ n := fun same => h (congrArg Subject.classNamed same)
      simp [edit, notes?, Catalog.get?_update_of_ne other]
    | member kind owner m =>
      by_cases same : owner = n
      · subst same
        cases found : d.classes.get? owner <;> cases kind <;>
          simp [edit, notes?, found, ClassNotes.members, ClassNotes.named]
      · simp [edit, notes?, Catalog.get?_update_of_ne same]
  | member kind owner n =>
    cases t with
    | project => rfl
    | classNamed m =>
      by_cases same : m = owner
      · subst same
        have mentioned := known kind m n rfl rfl
        cases found : d.classes.get? m with
        | none => simp [notes?, found] at mentioned
        | some c => simp [edit, notes?, found, ClassNotes.editMember]
      · simp [edit, notes?, Catalog.get?_update_of_ne same]
    | member other holder m =>
      by_cases same : holder = owner
      · subst same
        have fresh : ∀ k, (ClassNotes.named holder).members k = {} := by
          intro k; cases k <;> rfl
        by_cases kinds : other = kind
        · subst kinds
          have names : m ≠ n := fun same => h (by rw [same])
          cases found : d.classes.get? holder <;>
            simp [edit, notes?, found, ClassNotes.editMember, fresh,
              Catalog.get?_update_of_ne names]
        · cases found : d.classes.get? holder <;>
            simp [edit, notes?, found, ClassNotes.editMember, fresh,
              ClassNotes.members_setMembers_of_ne kinds]
      · simp [edit, notes?, Catalog.get?_update_of_ne same]

end Document

end Docblock
