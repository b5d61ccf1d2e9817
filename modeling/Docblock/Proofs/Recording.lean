import Docblock.Document.Record

/-!
# What recording a block changes

All that an entry about a member does to a document are edits of that member. So the member gets
what the entry says, its class comes into the document, and nothing else changes.

## Main definitions

* `Document.Touches d d' kind owner name`: `d'` is `d` but for a member and its class

## Main results

* `touches_recordEntry`: recording an entry touches its member and the class alone
* `notes?_recordEntry_self`: what is known of the member then
-/

namespace Docblock.Document

variable {d d' : Document} {kind : MemberKind} {owner name : Text}

/-! ## What does not change -/

/-- One document is another one but for the notes of a member; the class of the member is known. -/
structure Touches (d d' : Document) (kind : MemberKind) (owner name : Text) : Prop where
  others : ∀ t, t ≠ .member kind owner name → t ≠ .classNamed owner → d'.notes? t = d.notes? t
  ofClass : d'.notes? (.classNamed owner) =
    some ((d.notes? (.classNamed owner)).getD (.named owner))
  projectName : d'.projectName = d.projectName

/-- The class of a member that is edited is known. -/
theorem notes?_edit_class (d : Document) (f : Notes → Notes) :
    (d.edit (.member kind owner name) f).notes? (.classNamed owner) =
      some ((d.notes? (.classNamed owner)).getD (.named owner)) := by
  cases known : d.classes.get? owner <;>
    simp [edit, notes?, known, ClassNotes.editMember, ClassNotes.named]

theorem touches_edit (d : Document) (f : Notes → Notes) :
    Touches d (d.edit (.member kind owner name) f) kind owner name where
  others t notMember notClass := by
    apply notes?_edit_of_ne notMember f
    intro _ other _ same isClass
    obtain ⟨rfl, rfl, rfl⟩ := Subject.member.inj same
    exact absurd isClass notClass
  ofClass := notes?_edit_class d f
  projectName := edit_projectName d _ f

/-- An edit more of the member touches nothing else. -/
theorem Touches.edit (touches : Touches d d' kind owner name) (f : Notes → Notes) :
    Touches d (d'.edit (.member kind owner name) f) kind owner name where
  others t notMember notClass := by
    rw [(touches_edit d' f).others t notMember notClass, touches.others t notMember notClass]
  ofClass := by
    rw [notes?_edit_class, touches.ofClass, Option.getD_some]
  projectName := (edit_projectName d' _ f).trans touches.projectName

theorem Touches.addAttributes (touches : Touches d d' kind owner name)
    (attributes : List Attribute) :
    Touches d (d'.addAttributes (.member kind owner name) attributes) kind owner name := by
  unfold Document.addAttributes
  induction attributes generalizing d' with
  | nil => exact touches
  | cons a attributes ih => exact ih (touches.edit _)

/-- **Recording an entry about a member** touches that member and its class alone. -/
theorem touches_recordEntry (d : Document) {e : Entry}
    (header : e.header = .member kind owner name) :
    Touches d (d.recordEntry e) kind owner name := by
  have met : Touches d (d.mention (.member kind owner name)) kind owner name := touches_edit d id
  -- The link is set in every case, and reset where none is given.
  have linked : Touches d ((d.mention (.member kind owner name)).recordLink
      (.member kind owner name) e.link) kind owner name := by
    cases e.link with
    | given link => exact met.edit _
    | absent => exact met.edit _
    | faulty fault => exact met.edit _
  have described := linked.addAttributes e.attributes
  simp only [recordEntry, header, meet, Header.subject]
  cases e.declaration with
  | none => exact described
  | some text =>
    rw [recordDeclaration]
    split
    · exact described.edit _
    · exact described

/-! ## What is known of the member -/

variable {s : Subject} {n : Notes}

theorem notes?_edit_of_eq_some (known : d.notes? s = some n) (f : Notes → Notes) :
    (d.edit s f).notes? s = some (f n) := by
  rw [notes?_edit_self, known, Option.getD_some]

theorem notes?_addAttributes_of_eq_some (known : d.notes? s = some n)
    (attributes : List Attribute) :
    (d.addAttributes s attributes).notes? s =
      some { n with attributes := n.attributes ++ attributes } := by
  unfold addAttributes
  induction attributes generalizing d n with
  | nil => simpa using known
  | cons a attributes ih =>
    have rest := ih (notes?_edit_of_eq_some known (·.add a))
    rw [Notes.add_attributes, List.append_assoc, List.singleton_append] at rest
    exact rest

/-- The attributes that are known of a subject; none, if it is not known. -/
def attributesOf (d : Document) (s : Subject) : List Attribute :=
  ((d.notes? s).map (·.attributes)).getD []

/-- **What is known of a member behind a block** with a link and a declaration: the link, what was
known before, what the block says, and the declaration, unless the notes give a prototype. -/
theorem notes?_recordEntry_self (d : Document) {e : Entry} {link text : Text}
    (header : e.header = .member kind owner name) (given : e.link = .given link)
    (behind : e.declaration = some text)
    (ordinary : ∀ a ∈ d.attributesOf (.member kind owner name) ++ e.attributes,
      a.hasKeyword "Prototype".toList = false) :
    (d.recordEntry e).notes? (.member kind owner name) = some
      { link
        attributes := d.attributesOf (.member kind owner name) ++ e.attributes ++
          [⟨Attribute.declarationKeyword, text⟩] } := by
  have met : (d.mention (.member kind owner name)).notes? (.member kind owner name) =
      some ((d.notes? (.member kind owner name)).getD (.named name)) := notes?_edit_self d _ id
  have linked := notes?_edit_of_eq_some met fun n => { n with link := link }
  have described := notes?_addAttributes_of_eq_some linked e.attributes
  have before : ((d.notes? (.member kind owner name)).getD (.named name)).attributes =
      d.attributesOf (.member kind owner name) := by
    unfold attributesOf
    cases d.notes? (.member kind owner name) <;> rfl
  simp only [before] at described
  -- No attribute is a prototype, so the declaration is wanted.
  have awaits : (((d.mention (.member kind owner name)).setLink (.member kind owner name)
      link).addAttributes (.member kind owner name) e.attributes).awaitsDeclaration
        (.member kind owner name) := by
    have none : (d.attributesOf (.member kind owner name) ++ e.attributes).filter
        (·.hasKeyword "Prototype".toList) = [] :=
      List.filter_eq_nil_iff.2 fun a inside => by rw [ordinary a inside]; decide
    rw [awaitsDeclaration, item?, setLink, described]
    show List.isEmpty (List.filter _ _) = true
    rw [none]
    rfl
  simp only [recordEntry, header, meet, Header.subject, given, recordLink, behind,
    recordDeclaration, if_pos awaits]
  exact notes?_edit_of_eq_some described _

end Docblock.Document
