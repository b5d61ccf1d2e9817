import Docblock.Document.Operation
import Docblock.Proofs.Order

/-!
# What operations leave

No operation on a document takes anything back. Whatever a document knew of a subject it still
knows afterwards, with more attributes at the end perhaps, and only the project can get another
name. So a subject that has once been handed out is found in every document that comes later.

## Main definitions

* `Operation.subjects`: the subjects that an operation hands out
* `Operation.projectNames`: the names that it gives the project
* `Document.Extends`: a document knows all that another one knows

## Main results

* `extends_apply`: every operation extends the document
* `exists_notes?_foldl_apply`: the subjects that a run hands out are found behind it
* `projectName_apply`: the project has the last name that it is given
-/

namespace Docblock

/-- The name that a block gives the project, if it is about the project. -/
def Block.projectName? : Block → Option Text
  | broken _ => none
  | entry e =>
    match e.header with
    | .project name => some name
    | .classNamed _ => none
    | .member _ _ _ => none

/-- What an entry makes of what is known of its subject has all attributes that were there. -/
theorem Entry.attributes_prefix_revise (e : Entry) (n : Notes) :
    n.attributes <+: (e.revise n).attributes := by
  have described : n.attributes <+: (e.describe n).attributes := List.prefix_append _ _
  have declared : (e.describe n).attributes <+: (e.declare (e.describe n)).attributes := by
    rw [Entry.declare]
    split
    · split
      · exact List.prefix_append _ _
      · exact List.prefix_rfl
    · exact List.prefix_rfl
  exact described.trans declared

namespace Operation

/-- The subjects that an operation hands out: the one that it is about, and those of the blocks of a
source. -/
def subjects : Operation → List Subject
  | nameProject _ => [.project]
  | mention s => [s]
  | change s _ => [s]
  | recordSource source => sourceSubjects source

/-- The names that an operation gives the project, one after the other. -/
def projectNames : Operation → List Text
  | nameProject name => [name]
  | mention _ => []
  | change _ _ => []
  | recordSource source => (Block.ofSource source).filterMap Block.projectName?

end Operation

namespace Document

/-- One document knows all that another one knows: it has every subject of the other one, with the
same attributes and perhaps more behind them. -/
def Extends (d d' : Document) : Prop :=
  ∀ s n, d.notes? s = some n → ∃ n', d'.notes? s = some n' ∧ n.attributes <+: n'.attributes

variable {d d' d'' : Document} {s t : Subject} {b : Block}

/-! ## No operation takes anything back -/

theorem extends_refl (d : Document) : d.Extends d := by
  intro s n known
  exact ⟨n, known, List.prefix_rfl⟩

theorem Extends.trans (first : d.Extends d') (second : d'.Extends d'') : d.Extends d'' := by
  intro s n known
  obtain ⟨n', known', more⟩ := first s n known
  obtain ⟨n'', known'', others⟩ := second s n' known'
  exact ⟨n'', known'', more.trans others⟩

/-- An edit that only adds attributes extends the document. -/
theorem extends_edit {f : Notes → Notes} (adds : ∀ n, n.attributes <+: (f n).attributes)
    (d : Document) (s : Subject) : d.Extends (d.edit s f) := by
  intro t n found
  have isKnown : d.known t = n := by rw [known, found, Option.getD_some]
  rw [notes?_edit, isKnown, found]
  split
  · exact ⟨f n, rfl, adds n⟩
  · exact ⟨n, ite_self _, List.prefix_rfl⟩

/-- What is known does not depend on the name of the project. -/
theorem notes?_rename (d : Document) (header : Header) (s : Subject) :
    (d.rename header).notes? s = d.notes? s := by
  cases header with
  | project name => cases s <;> rfl
  | classNamed name => rfl
  | member kind owner name => rfl

theorem extends_record (d : Document) (b : Block) : d.Extends (d.record b) := by
  cases b with
  | broken fault => exact extends_refl d
  | entry e =>
    have renamed : d.Extends (d.rename e.header) := by
      intro s n known
      exact ⟨n, (notes?_rename d e.header s).trans known, List.prefix_rfl⟩
    rw [record, recordEntry_eq_edit]
    exact renamed.trans (extends_edit (Entry.attributes_prefix_revise e) _ _)

theorem extends_foldl_record (d : Document) (blocks : List Block) :
    d.Extends (blocks.foldl record d) := by
  induction blocks generalizing d with
  | nil => exact extends_refl d
  | cons b blocks ih => exact (extends_record d b).trans (ih (d.record b))

theorem extends_setLink (d : Document) (s : Subject) (link : Text) :
    d.Extends (d.setLink s link) := by
  have keeps (n : Notes) : n.attributes <+: { n with link := link }.attributes := List.prefix_rfl
  exact extends_edit keeps d s

theorem extends_change (d : Document) (s : Subject) (c : Change) : d.Extends (d.change s c) := by
  cases c with
  | add a => exact extends_edit (fun n => List.prefix_append n.attributes [a]) d s
  | setLink link => exact extends_setLink d s link
  | resetLink => exact extends_setLink d s (d.name s)

/-- **Every operation extends the document.** -/
theorem extends_apply (d : Document) (op : Operation) : d.Extends (d.apply op) := by
  cases op with
  | nameProject name =>
    intro s n known
    exact ⟨n, (notes?_rename d (.project name) s).trans known, List.prefix_rfl⟩
  | mention s => exact extends_edit (fun _ => List.prefix_rfl) d s
  | change s c => exact extends_change d s c
  | recordSource source => exact extends_foldl_record d (Block.ofSource source)

theorem extends_foldl_apply (d : Document) (operations : List Operation) :
    d.Extends (operations.foldl apply d) := by
  induction operations generalizing d with
  | nil => exact extends_refl d
  | cons op operations ih => exact (extends_apply d op).trans (ih (d.apply op))

/-! ## What is handed out is found -/

theorem Extends.exists_notes? (more : d.Extends d') (mentioned : ∃ n, d.notes? s = some n) :
    ∃ n, d'.notes? s = some n := by
  obtain ⟨n, known⟩ := mentioned
  obtain ⟨n', known', -⟩ := more s n known
  exact ⟨n', known'⟩

theorem exists_notes?_record (d : Document) (about : b.subject? = some s) :
    ∃ n, (d.record b).notes? s = some n := by
  cases b with
  | broken fault => cases about
  | entry e =>
    obtain rfl : e.header.subject = s := Option.some.inj about
    rw [record, recordEntry_eq_edit]
    exact ⟨_, notes?_edit_self _ _ _⟩

theorem exists_notes?_foldl_record {blocks : List Block} (d : Document) (inside : b ∈ blocks)
    (about : b.subject? = some s) : ∃ n, (blocks.foldl record d).notes? s = some n := by
  induction blocks generalizing d with
  | nil => cases inside
  | cons first blocks ih =>
    rcases List.mem_cons.1 inside with rfl | later
    · exact (extends_foldl_record _ blocks).exists_notes? (exists_notes?_record d about)
    · exact ih (d.record first) later

theorem exists_notes?_apply {op : Operation} (d : Document) (handed : s ∈ op.subjects) :
    ∃ n, (d.apply op).notes? s = some n := by
  cases op with
  | nameProject name =>
    obtain rfl := List.mem_singleton.1 handed
    exact ⟨_, rfl⟩
  | mention t =>
    obtain rfl := List.mem_singleton.1 handed
    exact ⟨_, notes?_edit_self d s id⟩
  | change t c =>
    obtain rfl := List.mem_singleton.1 handed
    cases c with
    | add a => exact ⟨_, notes?_edit_self d s _⟩
    | setLink link => exact ⟨_, notes?_edit_self d s _⟩
    | resetLink => exact ⟨_, notes?_edit_self d s _⟩
  | recordSource source =>
    obtain ⟨b, inside, about⟩ := List.mem_filterMap.1 handed
    exact exists_notes?_foldl_record d inside about

/-- **What is handed out on the way is found behind it**, and nothing later takes it away. -/
theorem exists_notes?_foldl_apply {op : Operation} {operations : List Operation} (d : Document)
    (inside : op ∈ operations) (handed : s ∈ op.subjects) :
    ∃ n, (operations.foldl apply d).notes? s = some n := by
  induction operations generalizing d with
  | nil => cases inside
  | cons first operations ih =>
    rcases List.mem_cons.1 inside with rfl | later
    · exact (extends_foldl_apply _ operations).exists_notes? (exists_notes?_apply d handed)
    · exact ih (d.apply first) later

/-! ## The name of the project -/

theorem projectName_record (d : Document) (b : Block) :
    (d.record b).projectName = b.projectName?.getD d.projectName := by
  cases b with
  | broken fault => rfl
  | entry e =>
    rw [record, recordEntry_eq_edit, edit_projectName, Block.projectName?]
    cases e.header <;> rfl

theorem projectName_foldl_record (d : Document) (blocks : List Block) :
    (blocks.foldl record d).projectName =
      (blocks.filterMap Block.projectName?).getLast?.getD d.projectName := by
  induction blocks generalizing d with
  | nil => rfl
  | cons b blocks ih =>
    rw [List.foldl_cons, ih, projectName_record, List.filterMap_cons]
    cases b.projectName? with
    | none => rfl
    | some name => rw [List.getLast?_cons, Option.getD_some, Option.getD_some]

/-- **The project has the last name that it is given**; without one it keeps its name. -/
theorem projectName_apply (d : Document) (op : Operation) :
    (d.apply op).projectName = op.projectNames.getLast?.getD d.projectName := by
  cases op with
  | nameProject name => rfl
  | mention s => exact edit_projectName d s id
  | change s c => cases c <;> exact edit_projectName d s _
  | recordSource source => exact projectName_foldl_record d (Block.ofSource source)

end Document

end Docblock
