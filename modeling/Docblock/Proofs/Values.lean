import Docblock.Proofs.Order

/-!
# Documents with other values

The values of the attributes of a document may be rewritten, all in the same way, and nothing else
with them. Names, keywords and links take no part in it, and no value has a say in what is recorded.
So rewriting what a source says and recording it is recording it and rewriting the document.

## Main definitions

* `Attribute.mapValue`, `Notes.mapValues`, `Document.mapValues`: the same with rewritten values
* `Entry.mapValues`, `Block.mapValues`: what a block says, with rewritten values

## Main results

* `notes?_mapValues`: what is known of a subject, rewritten
* `mapValues_foldl_record`: blocks may be rewritten before they are recorded or afterwards
-/

namespace Docblock

/-! ## Other values -/

/-- An attribute with its value rewritten. -/
def Attribute.mapValue (f : Text → Text) (a : Attribute) : Attribute :=
  { a with value := f a.value }

/-- What is known of an item, with its values rewritten. -/
def Notes.mapValues (f : Text → Text) (n : Notes) : Notes :=
  { n with attributes := n.attributes.map (·.mapValue f) }

/-- What is known of a class and of its members, with its values rewritten. -/
def ClassNotes.mapValues (f : Text → Text) (c : ClassNotes) : ClassNotes where
  notes := c.notes.mapValues f
  functions := c.functions.map (·.mapValues f)
  data := c.data.map (·.mapValues f)

/-- A document with its values rewritten. -/
def Document.mapValues (f : Text → Text) (d : Document) : Document where
  projectName := d.projectName
  project := d.project.mapValues f
  classes := d.classes.map (·.mapValues f)

/-- An entry with its values rewritten. -/
def Entry.mapValues (f : Text → Text) (e : Entry) : Entry :=
  { e with
    description := f e.description
    labelled := e.labelled.map (·.mapValue f)
    declaration := e.declaration.map f }

/-- A block with its values rewritten. -/
def Block.mapValues (f : Text → Text) : Block → Block
  | broken fault => broken fault
  | entry e => entry (e.mapValues f)

variable {f : Text → Text}

/-- **A rewritten block has the same faults.** -/
@[simp] theorem Block.faults_mapValues (f : Text → Text) (b : Block) :
    (b.mapValues f).faults = b.faults := by
  cases b <;> rfl

/-! ## What is found -/

namespace Document

/-- **What is known of a subject is rewritten.** -/
theorem notes?_mapValues (f : Text → Text) (d : Document) (s : Subject) :
    (d.mapValues f).notes? s = (d.notes? s).map (·.mapValues f) := by
  cases s with
  | project => rfl
  | classNamed name =>
    simp only [notes?, mapValues, Catalog.get?_map]
    cases d.classes.get? name <;> rfl
  | member kind owner name =>
    simp only [notes?, mapValues, Catalog.get?_map]
    cases d.classes.get? owner with
    | none => rfl
    | some c => cases kind <;> exact Catalog.get?_map _ _ name

theorem mapValues_name (f : Text → Text) (d : Document) (s : Subject) :
    (d.mapValues f).name s = d.name s := by
  cases s <;> rfl

theorem known_mapValues (f : Text → Text) (d : Document) (s : Subject) :
    (d.mapValues f).known s = (d.known s).mapValues f := by
  rw [known, known, notes?_mapValues, mapValues_name]
  cases d.notes? s <;> rfl

/-- A document all of whose values stay as they are is not changed. -/
theorem mapValues_eq_self {d : Document}
    (same : ∀ s, ∀ a ∈ d.attributesOf s, f a.value = a.value) : d.mapValues f = d := by
  refine ext_notes? rfl fun s => ?_
  rw [notes?_mapValues]
  cases known : d.notes? s with
  | none => rfl
  | some notes =>
    have attributes : d.attributesOf s = notes.attributes := by
      rw [attributesOf, known]
      rfl
    have attributes : notes.attributes.map (·.mapValue f) = notes.attributes := by
      refine (List.map_congr_left fun a inside => ?_).trans (List.map_id _)
      rw [Attribute.mapValue, same s a (attributes ▸ inside)]
      rfl
    rw [Option.map_some, Notes.mapValues, attributes]

/-! ## What is recorded -/

/-- An edit of a rewritten document, where it does the same to what is known of its subject. -/
theorem mapValues_edit (d : Document) (s : Subject) {g g' : Notes → Notes}
    (alike : ∀ n, g' (n.mapValues f) = (g n).mapValues f) :
    (d.edit s g).mapValues f = (d.mapValues f).edit s g' := by
  refine ext_notes? (by rw [edit_projectName]; exact edit_projectName d s g) fun t => ?_
  rw [notes?_mapValues, notes?_edit, notes?_edit, known_mapValues, notes?_mapValues, alike]
  split
  · rfl
  · split <;> rfl

end Document

/-- Whether a declaration is awaited does not depend on values. -/
theorem Item.awaitsDeclaration_mapValues (f : Text → Text) (s : Subject) (name : Text) (n : Notes) :
    awaitsDeclaration ⟨s, name, n.mapValues f⟩ = awaitsDeclaration ⟨s, name, n⟩ := by
  cases s with
  | project => rfl
  | classNamed owner => rfl
  | member kind owner member =>
    simp only [awaitsDeclaration, Notes.attributesNamed, Notes.mapValues, List.filter_map,
      List.isEmpty_map]
    rfl

/-- **What a rewritten entry makes of what is known** is rewritten. -/
theorem Entry.revise_mapValues (f : Text → Text) (e : Entry) (n : Notes) :
    (e.mapValues f).revise (n.mapValues f) = (e.revise n).mapValues f := by
  have described : (e.mapValues f).describe (n.mapValues f) = (e.describe n).mapValues f := by
    simp [describe, Notes.mapValues, attributes, mapValues, Attribute.mapValue]
  rw [revise, revise, described, declare, declare]
  cases declaration : e.declaration with
  | none => simp [mapValues, declaration]
  | some text =>
    simp only [mapValues, declaration, Option.map_some, Item.awaitsDeclaration_mapValues]
    split
    · simp [Notes.mapValues, Notes.add, Attribute.mapValue]
    · rfl

namespace Document

/-- **A block may be rewritten before it is recorded or afterwards.** -/
theorem mapValues_record (f : Text → Text) (d : Document) (b : Block) :
    (d.record b).mapValues f = (d.mapValues f).record (b.mapValues f) := by
  cases b with
  | broken fault => rfl
  | entry e =>
    have renamed : (d.rename e.header).mapValues f = (d.mapValues f).rename e.header := by
      cases e.header <;> rfl
    rw [Block.mapValues, record, record, recordEntry_eq_edit, recordEntry_eq_edit,
      mapValues_edit _ _ (e.revise_mapValues f), renamed]
    rfl

/-- **And so may the blocks of a source.** -/
theorem mapValues_foldl_record (f : Text → Text) (bs : List Block) (d : Document) :
    (bs.foldl record d).mapValues f = (bs.map (·.mapValues f)).foldl record (d.mapValues f) := by
  induction bs generalizing d with
  | nil => rfl
  | cons b bs ih => rw [List.foldl_cons, List.map_cons, List.foldl_cons, ih, mapValues_record]

end Document

end Docblock
