import Docblock.Proofs.Operations

/-!
# Mutations of single items

A subject is a handle to an item of a document. What is done through it looks at the item, with its
name and its kind, and puts other notes in the place of those that are there; nothing but the notes
of an item can be changed in this way. An item that has not been mentioned comes into the document
first, and a member brings its class along. All other items stay as they are, so mutations through
different subjects may be made in any order, also where a class, a function and a variable have one
name, or where one subject is a member of the other one.

## Main definitions

* `Mutation`: what is made of the notes of an item
* `Document.inHand`: the item that a subject gives access to
* `Document.mutate`: a document with a mutation of one item
* `Change.mutation`, `Change.inTurn`: changes as mutations, one and several of them

## Main results

* `item?_mutate_self`, `item?_mutate_of_ne`: what a mutation does to its own item, and to others
* `mutate_comm`: mutations of different items may be made in any order
* `foldl_change_eq_mutate`: changes of one item, one after the other, are one mutation
-/

namespace Docblock

/-- What is made of the notes of an item, with the item in view. -/
abbrev Mutation := Item → Notes

/-- An item with what a mutation makes of its notes. -/
def Item.mutate (i : Item) (f : Mutation) : Item := { i with notes := f i }

namespace Change

/-- A change as a mutation: only resetting the link looks at more than the notes. -/
def mutation : Change → Mutation
  | add a => fun i => i.notes.add a
  | setLink link => fun i => { i.notes with link := link }
  | resetLink => fun i => { i.notes with link := i.name }

/-- Changes that are made one after the other, as one mutation. -/
def inTurn (changes : List Change) : Mutation :=
  fun i => (changes.foldl (fun j c => j.mutate c.mutation) i).notes

end Change

namespace Document

variable {s t : Subject} {f g : Mutation}

/-- The item that a subject gives access to. One that has not been mentioned has its name for a link
and no attributes. -/
def inHand (d : Document) (s : Subject) : Item := ⟨s, d.name s, d.known s⟩

/-- A document with a mutation of one item, which comes into the document if need be. -/
def mutate (d : Document) (s : Subject) (f : Mutation) : Document :=
  d.edit s fun n => f ⟨s, d.name s, n⟩

/-! ## One mutation -/

@[simp] theorem mutate_name (d : Document) (s t : Subject) (f : Mutation) :
    (d.mutate s f).name t = d.name t := edit_name d s t _

/-- **A mutation reaches its item.** -/
theorem item?_mutate_self (d : Document) (s : Subject) (f : Mutation) :
    (d.mutate s f).item? s = some ((d.inHand s).mutate f) := by
  rw [item?, mutate_name, mutate, notes?_edit_self]
  rfl

/-- **A mutation leaves all other items as they are**, but for the class of a member: it is found
afterwards, and of one that has not been mentioned no more than its name is known. -/
theorem item?_mutate_of_ne (different : t ≠ s) (d : Document) (f : Mutation) :
    (d.mutate s f).item? t =
      if s.class? = some t then some (d.inHand t) else d.item? t := by
  rw [item?, mutate_name, mutate, notes?_edit, if_neg different]
  split
  · rfl
  · rfl

/-- An item that is found is the one in hand. -/
theorem inHand_of_item? {i : Item} {d : Document} (found : d.item? t = some i) :
    d.inHand t = i := by
  obtain ⟨n, known, rfl⟩ := Option.map_eq_some_iff.1 found
  rw [inHand, Document.known, known, Option.getD_some]

/-- Of an item that is not found only the name is known. -/
theorem inHand_of_item?_eq_none {d : Document} (missing : d.item? t = none) :
    d.inHand t = ⟨t, d.name t, .named (d.name t)⟩ := by
  have unknown : d.notes? t = none := Option.map_eq_none_iff.1 missing
  rw [inHand, Document.known, unknown, Option.getD_none]

/-! ## Two mutations -/

/-- Mutations of one item make one mutation. -/
theorem mutate_mutate (d : Document) (s : Subject) (f g : Mutation) :
    (d.mutate s f).mutate s g = d.mutate s fun i => g (i.mutate f) := by
  rw [mutate, mutate_name, mutate, edit_edit]
  rfl

/-- **Mutations of different items may be made in any order.** -/
theorem mutate_comm (different : s ≠ t) (d : Document) (f g : Mutation) :
    (d.mutate s f).mutate t g = (d.mutate t g).mutate s f := by
  -- Names are no notes, so both mutations see the same names in either order.
  rw [mutate, mutate_name, mutate, mutate, mutate_name, mutate]
  exact edit_comm different d _ _

/-! ## Changes -/

theorem change_eq_mutate (d : Document) (s : Subject) (c : Change) :
    d.change s c = d.mutate s c.mutation := by
  cases c <;> rfl

theorem mention_eq_mutate (d : Document) (s : Subject) :
    d.mention s = d.mutate s Item.notes := rfl

/-- **Changes of one item, one after the other, are one mutation.** -/
theorem foldl_change_eq_mutate (changes : List Change) (d : Document) (s : Subject) :
    changes.foldl (fun d c => d.change s c) (d.mention s) = d.mutate s (Change.inTurn changes) := by
  -- The mutation grows by one change with each step, so the induction is on all mutations.
  suffices from_mutate : ∀ f : Mutation,
      changes.foldl (fun d c => d.change s c) (d.mutate s f) =
        d.mutate s fun i => Change.inTurn changes (i.mutate f) by
    rw [mention_eq_mutate, from_mutate]
    rfl
  induction changes with
  | nil =>
    intro f
    rfl
  | cons c changes ih =>
    intro f
    rw [List.foldl_cons, change_eq_mutate, mutate_mutate, ih]
    rfl

/-- **What is done through one subject reaches its item alone, and what is done through different
subjects may be done in any order.** All changes of an item are mutations. The item of the subject
is mutated. Another item stays as it is, if it has been mentioned or is not the class of the
subject; a class that comes into the document with its member has its name for a link and no
attributes. With any mutation of the other item the two orders give equal documents. -/
theorem mutate_frame_and_comm (different : t ≠ s) (d : Document) (f g : Mutation) :
    (∀ changes : List Change, changes.foldl (fun d c => d.change s c) (d.mention s) =
        d.mutate s (Change.inTurn changes)) ∧
      (d.mutate s f).item? s = some ((d.inHand s).mutate f) ∧
      (d.item? t ≠ none ∨ s.class? ≠ some t → (d.mutate s f).item? t = d.item? t) ∧
      (d.item? t = none → s.class? = some t →
        (d.mutate s f).item? t = some ⟨t, d.name t, ⟨d.name t, []⟩⟩) ∧
      (d.mutate s f).mutate t g = (d.mutate t g).mutate s f := by
  refine ⟨?_, item?_mutate_self d s f, ?_, ?_, mutate_comm different.symm d f g⟩
  · intro changes
    exact foldl_change_eq_mutate changes d s
  · intro unreached
    rw [item?_mutate_of_ne different]
    split
    · rename_i isClass
      -- The class has been mentioned before its member.
      have mentioned := unreached.resolve_right (not_not_intro isClass)
      obtain ⟨i, found⟩ := Option.ne_none_iff_exists'.1 mentioned
      rw [inHand_of_item? found, found]
    · rfl
  · intro missing isClass
    rw [item?_mutate_of_ne different, if_pos isClass, inHand_of_item?_eq_none missing]
    rfl

/-- A function brings its class along, and both may be changed in either order. -/
theorem mutate_frame_and_comm_function :
    let s : Subject := .member .function ['A'] ['A']
    let t : Subject := .classNamed ['A']
    let f : Mutation := fun i => i.notes.add ⟨"Note".toList, i.name⟩
    let g : Mutation := fun i => { i.notes with link := 'B' :: i.name }
    t ≠ s ∧ (empty.mutate s f).item? t = some ⟨t, ['A'], ⟨['A'], []⟩⟩ ∧
      (empty.mutate s f).mutate t g = (empty.mutate t g).mutate s f := by
  intro s t f g
  have different : t ≠ s := Subject.noConfusion
  obtain ⟨-, -, -, fresh, either⟩ := mutate_frame_and_comm different empty f g
  exact ⟨different, fresh rfl rfl, either⟩

end Document

end Docblock
