import Docblock.Proofs.Edits

/-!
# What recording adds to the attributes of an item

A block adds its attributes to those of its item, at the end, and to no other item. Behind them it
may add the declaration that follows it; whether it does so depends on what is known of the item
already. Apart from the declarations, what a source adds is what its blocks say.

## Main definitions

* `Attribute.isWritten`: whether an attribute is none of the declarations behind blocks
* `Block.attributesFor`: what a block says of a subject
* `Document.describe`: a document with what an entry says, but for the declaration behind it

## Main results

* `attributesOf_addAttributes`: attributes go to the end, and to their subject alone
* `exists_attributesOf_foldl_record`: what blocks add to a subject, apart from declarations
-/

namespace Docblock

/-- Whether an attribute is none of those that are taken from the declarations behind blocks. -/
def Attribute.isWritten (a : Attribute) : Bool := a.keyword != Attribute.declarationKeyword

/-- What a block says of a subject. -/
def Block.attributesFor (s : Subject) : Block → List Attribute
  | broken _ => []
  | entry e => if s = e.header.subject then e.attributes else []

namespace Document

variable {s t : Subject}

/-! ## Edits -/

theorem attributesOf_eq_known (d : Document) (s : Subject) :
    d.attributesOf s = (d.known s).attributes := by
  rw [attributesOf, known]
  cases d.notes? s <;> rfl

/-- **An edit changes the attributes of its subject alone**; a class that a member brings along has
none. -/
theorem attributesOf_edit (d : Document) (s t : Subject) (f : Notes → Notes) :
    (d.edit s f).attributesOf t =
      if t = s then (f (d.known t)).attributes else d.attributesOf t := by
  rw [attributesOf_eq_known, known_edit, attributesOf_eq_known]
  split <;> rfl

/-- An edit that keeps attributes keeps those of all subjects. -/
theorem attributesOf_edit_of_keeps {f : Notes → Notes}
    (keeps : ∀ n, (f n).attributes = n.attributes) (d : Document) (s t : Subject) :
    (d.edit s f).attributesOf t = d.attributesOf t := by
  rw [attributesOf_edit, keeps, attributesOf_eq_known, ite_self]

theorem attributesOf_addAttribute (d : Document) (s t : Subject) (a : Attribute) :
    (d.addAttribute s a).attributesOf t = d.attributesOf t ++ if t = s then [a] else [] := by
  rw [addAttribute, attributesOf_edit, Notes.add_attributes, attributesOf_eq_known]
  split
  · rfl
  · exact (List.append_nil _).symm

/-- **Attributes go to the end**, and to their subject alone. -/
theorem attributesOf_addAttributes (d : Document) (s t : Subject) (attributes : List Attribute) :
    (d.addAttributes s attributes).attributesOf t =
      d.attributesOf t ++ if t = s then attributes else [] := by
  unfold addAttributes
  induction attributes generalizing d with
  | nil => simp
  | cons a attributes ih =>
    rw [List.foldl_cons, ih, attributesOf_addAttribute]
    split <;> simp

/-! ## Blocks -/

theorem attributesOf_meet (d : Document) (header : Header) (t : Subject) :
    (d.meet header).attributesOf t = d.attributesOf t := by
  cases header with
  | project name => cases t <;> rfl
  | classNamed name => exact attributesOf_edit_of_keeps (fun _ => rfl) d _ t
  | member kind owner name => exact attributesOf_edit_of_keeps (fun _ => rfl) d _ t

theorem attributesOf_setLink (d : Document) (s t : Subject) (link : Text) :
    (d.setLink s link).attributesOf t = d.attributesOf t := by
  have keeps (n : Notes) : { n with link := link }.attributes = n.attributes := rfl
  exact attributesOf_edit_of_keeps keeps d s t

theorem attributesOf_recordLink (d : Document) (s t : Subject) (link : LinkMark) :
    (d.recordLink s link).attributesOf t = d.attributesOf t := by
  cases link with
  | given link => exact attributesOf_setLink d s t link
  | absent => exact attributesOf_setLink d s t _
  | faulty fault => exact attributesOf_setLink d s t _

/-- Records what an entry says, but for the declaration behind it. -/
def describe (d : Document) (e : Entry) : Document :=
  ((d.meet e.header).recordLink e.header.subject e.link).addAttributes e.header.subject e.attributes

theorem recordEntry_eq (d : Document) (e : Entry) :
    d.recordEntry e = (d.describe e).recordDeclaration e.header.subject e.declaration := rfl

theorem attributesOf_describe (d : Document) (e : Entry) (t : Subject) :
    (d.describe e).attributesOf t = d.attributesOf t ++ Block.attributesFor t (.entry e) := by
  rw [describe, attributesOf_addAttributes, attributesOf_recordLink, attributesOf_meet]
  rfl

/-- A declaration adds nothing that is written in a block. -/
theorem exists_attributesOf_recordDeclaration (d : Document) (s t : Subject)
    (text : Option Text) :
    ∃ more, (d.recordDeclaration s text).attributesOf t = d.attributesOf t ++ more ∧
      more.filter Attribute.isWritten = [] := by
  cases text with
  | none => exact ⟨[], (List.append_nil _).symm, rfl⟩
  | some text =>
    rw [recordDeclaration]
    split
    · -- What is added is the declaration, or nothing where the subject is another one.
      refine ⟨_, attributesOf_addAttribute d s t _, ?_⟩
      split
      · exact List.filter_cons_of_neg (by simp [Attribute.isWritten])
      · rfl
    · exact ⟨[], (List.append_nil _).symm, rfl⟩

/-- **What a block adds to a subject**, apart from the declaration, is what it says of it. -/
theorem exists_attributesOf_record (d : Document) (b : Block) (t : Subject) :
    ∃ more, (d.record b).attributesOf t = d.attributesOf t ++ more ∧
      more.filter Attribute.isWritten = (b.attributesFor t).filter Attribute.isWritten := by
  cases b with
  | broken fault => exact ⟨[], (List.append_nil _).symm, rfl⟩
  | entry e =>
    obtain ⟨more, added, unwritten⟩ :=
      exists_attributesOf_recordDeclaration (d.describe e) e.header.subject t e.declaration
    refine ⟨Block.attributesFor t (.entry e) ++ more, ?_, ?_⟩
    · rw [record, recordEntry_eq, added, attributesOf_describe, List.append_assoc]
    · rw [List.filter_append, unwritten, List.append_nil]

/-- **What blocks add to a subject**, apart from declarations, is what they say of it. -/
theorem exists_attributesOf_foldl_record (blocks : List Block) (d : Document) (t : Subject) :
    ∃ more, (blocks.foldl record d).attributesOf t = d.attributesOf t ++ more ∧
      more.filter Attribute.isWritten =
        (blocks.flatMap (Block.attributesFor t)).filter Attribute.isWritten := by
  induction blocks generalizing d with
  | nil => exact ⟨[], (List.append_nil _).symm, rfl⟩
  | cons b blocks ih =>
    obtain ⟨first, addedFirst, writtenFirst⟩ := exists_attributesOf_record d b t
    obtain ⟨others, addedOthers, writtenOthers⟩ := ih (d.record b)
    refine ⟨first ++ others, ?_, ?_⟩
    · rw [List.foldl_cons, addedOthers, addedFirst, List.append_assoc]
    · rw [List.filter_append, writtenFirst, writtenOthers, List.flatMap_cons, List.filter_append]

end Document

end Docblock
