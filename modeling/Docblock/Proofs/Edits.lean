import Docblock.Proofs.Recording

/-!
# Laws of edits

A document is determined by what is known of all subjects and by the name of the project. So an
edit is told by what it does to each subject: its own subject is changed, the class of a member comes
into the document, and all others are left alone. Edits of one subject make one edit, and edits of
different subjects may be made in any order, also where one subject is a member of the other one.

## Main definitions

* `Document.known`: what is known of a subject, which may have been mentioned or not
* `Subject.class?`: the class that a member brings along

## Main results

* `ext_notes?`: a document is determined by what is known of all subjects
* `notes?_edit`: what an edit does to each subject
* `edit_edit`, `edit_comm`: edits of one subject, and of different ones
-/

namespace Docblock

/-- The class that a member brings along. -/
def Subject.class? : Subject → Option Subject
  | .member _ owner _ => some (.classNamed owner)
  | .project => none
  | .classNamed _ => none

namespace Document

variable {d d' : Document} {s t : Subject} {f g : Notes → Notes}

/-- What is known of a subject; of one that has not been mentioned it is the name alone. -/
def known (d : Document) (s : Subject) : Notes := (d.notes? s).getD (.named (d.name s))

/-- **A document is determined by what is known of all subjects**, and by the name of the
project. -/
theorem ext_notes? (projectName : d.projectName = d'.projectName)
    (notes : ∀ s, d.notes? s = d'.notes? s) : d = d' := by
  have sameProject : d.project = d'.project := Option.some.inj (notes .project)
  have sameClasses : d.classes = d'.classes := by
    apply Catalog.ext_get?
    intro owner
    have ofClass := notes (.classNamed owner)
    have ofMembers := fun kind name => notes (.member kind owner name)
    simp only [notes?] at ofClass ofMembers
    cases first : d.classes.get? owner with
    | none =>
      rw [first] at ofClass
      exact (Option.map_eq_none_iff.1 ofClass.symm).symm
    | some c =>
      rw [first] at ofClass ofMembers
      obtain ⟨c', second, sameNotes⟩ := Option.map_eq_some_iff.1 ofClass.symm
      rw [second] at ofMembers ⊢
      -- The members of each kind are determined by what is found among them.
      have members (kind : MemberKind) : c.members kind = c'.members kind :=
        Catalog.ext_get? (ofMembers kind)
      obtain ⟨notes, functions, data⟩ := c
      obtain ⟨notes', functions', data'⟩ := c'
      obtain rfl : functions = functions' := members .function
      obtain rfl : data = data' := members .data
      rw [show notes' = notes from sameNotes]
  obtain ⟨_, _, _⟩ := d
  obtain ⟨_, _, _⟩ := d'
  subst projectName sameProject sameClasses
  rfl

/-- **What an edit does to each subject**: its own is changed, and the class of a member is
known. -/
theorem notes?_edit (d : Document) (s : Subject) (f : Notes → Notes) (t : Subject) :
    (d.edit s f).notes? t =
      if t = s then some (f (d.known t))
      else if s.class? = some t then some (d.known t)
      else d.notes? t := by
  split
  · rename_i same
    rw [same, notes?_edit_self, known]
  · rename_i other
    split
    · rename_i isClass
      cases s with
      | project => exact nomatch isClass
      | classNamed name => exact nomatch isClass
      | member kind owner name =>
        obtain rfl : Subject.classNamed owner = t := Option.some.inj isClass
        rw [notes?_edit_class, known]
        rfl
    · rename_i noClass
      refine notes?_edit_of_ne other f fun kind owner name isMember isClass => ?_
      rw [isMember, isClass] at noClass
      exact absurd rfl noClass

theorem known_edit (d : Document) (s : Subject) (f : Notes → Notes) (t : Subject) :
    (d.edit s f).known t = if t = s then f (d.known t) else d.known t := by
  rw [known, notes?_edit, edit_name]
  split
  · rfl
  · split <;> rfl

/-- An edit is determined by what it makes of what is known of its subject. -/
theorem edit_congr (same : f (d.known s) = g (d.known s)) : d.edit s f = d.edit s g := by
  refine ext_notes? (by simp) fun t => ?_
  rw [notes?_edit, notes?_edit]
  split
  · rename_i isSubject
    rw [isSubject, same]
  · rfl

/-- **Edits of one subject make one edit.** -/
theorem edit_edit (d : Document) (s : Subject) (f g : Notes → Notes) :
    (d.edit s f).edit s g = d.edit s (g ∘ f) := by
  refine ext_notes? (by simp) fun t => ?_
  simp only [notes?_edit, known_edit]
  by_cases same : t = s
  · simp [same]
  · simp only [same, if_false]
    split <;> rfl

/-- **Edits of different subjects may be made in any order.** -/
theorem edit_comm (different : s ≠ t) (d : Document) (f g : Notes → Notes) :
    (d.edit s f).edit t g = (d.edit t g).edit s f := by
  refine ext_notes? (by simp) fun u => ?_
  simp only [notes?_edit, known_edit]
  by_cases first : u = s
  · subst first
    simp [different]
  · by_cases second : u = t
    · subst second
      simp [first]
    · -- Of any other subject the edits say at most that it is the class of a member.
      simp only [first, second, if_false]
      split <;> split <;> rfl

/-- The name of the project is no part of what an edit changes. -/
theorem nameProject_edit (d : Document) (s : Subject) (f : Notes → Notes) (name : Text) :
    (d.edit s f).nameProject name = (d.nameProject name).edit s f := by
  cases s <;> rfl

end Document

end Docblock
