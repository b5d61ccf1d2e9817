import Docblock.Proofs.Edits
import Docblock.Proofs.Labels
import Docblock.Proofs.Walk

/-!
# Sources about different items

All that an entry does to a document is one edit of its subject, which depends on what is known of
that subject alone; an entry about the project gives it its name as well. So entries about different
subjects may be recorded in any order, and so may sources that have no subject in common. Members of
one class are different subjects, and a class and its members are.

## Main definitions

* `Entry.revise`: what an entry makes of what is known of its subject
* `sourceSubjects`: the subjects of the blocks of a source

## Main results

* `recordEntry_eq_edit`: recording an entry is one edit
* `record_comm`: blocks about different subjects may be recorded in any order
* `recordSource_comm`: and so may sources
-/

namespace Docblock

/-- The name that a header gives its item. -/
def Header.name : Header → Text
  | project name => name
  | classNamed name => name
  | member _ _ name => name

/-- The link that a header gives an item with a name. -/
def LinkMark.linkOf (name : Text) : LinkMark → Text
  | given link => link
  | absent => name
  | faulty _ => name

/-- What is known of a subject behind the attributes of an entry. -/
def Entry.describe (e : Entry) (n : Notes) : Notes :=
  ⟨e.link.linkOf e.header.name, n.attributes ++ e.attributes⟩

/-- What is known of a subject behind a declaration, if there is one. -/
def Entry.declare (e : Entry) (n : Notes) : Notes :=
  match e.declaration with
  | some text =>
    if Item.awaitsDeclaration ⟨e.header.subject, e.header.name, n⟩ then
      n.add ⟨Attribute.declarationKeyword, text⟩
    else n
  | none => n

/-- **What an entry makes of what is known of its subject.** -/
def Entry.revise (e : Entry) (n : Notes) : Notes := e.declare (e.describe n)

/-- The subjects of the blocks of a source. -/
def sourceSubjects (source : Text) : List Subject :=
  (Block.ofSource source).filterMap Block.subject?

namespace Document

/-! ## An entry is one edit -/

/-- A document with the name that a header gives the project, if it is about the project. -/
def rename (d : Document) : Header → Document
  | .project name => d.nameProject name
  | .classNamed _ => d
  | .member _ _ _ => d

theorem rename_name (d : Document) (header : Header) :
    (d.rename header).name header.subject = header.name := by
  cases header <;> rfl

theorem rename_edit (d : Document) (header : Header) (s : Subject) (f : Notes → Notes) :
    (d.edit s f).rename header = (d.rename header).edit s f := by
  cases header with
  | project name => exact nameProject_edit d s f name
  | classNamed name => rfl
  | member kind owner name => rfl

theorem meet_eq_edit (d : Document) (header : Header) :
    d.meet header = (d.rename header).edit header.subject id := by
  cases header <;> rfl

/-- Attributes that are added to a subject make one edit more of it. -/
theorem addAttributes_edit (d : Document) (s : Subject) (f : Notes → Notes)
    (attributes : List Attribute) :
    (d.edit s f).addAttributes s attributes =
      d.edit s fun n => { f n with attributes := (f n).attributes ++ attributes } := by
  unfold addAttributes
  -- The edit grows by one attribute with each step, so the induction is on all edits.
  induction attributes generalizing f with
  | nil => simp
  | cons a attributes ih =>
    rw [List.foldl_cons, addAttribute, edit_edit, ih]
    simp [Notes.add]

theorem recordLink_edit (d : Document) (s : Subject) (f : Notes → Notes) (link : LinkMark) :
    (d.edit s f).recordLink s link =
      d.edit s fun n => { f n with link := link.linkOf (d.name s) } := by
  cases link <;> simp only [recordLink, resetLink, setLink, edit_name, edit_edit] <;> rfl

/-- The declaration makes one edit more as well. -/
theorem recordDeclaration_edit (d : Document) {e : Entry} (f : Notes → Notes)
    (called : d.name e.header.subject = e.header.name) :
    (d.edit e.header.subject f).recordDeclaration e.header.subject e.declaration =
      d.edit e.header.subject (e.declare ∘ f) := by
  -- Whether the declaration is wanted depends on what is known of the subject alone.
  have awaits : (d.edit e.header.subject f).awaitsDeclaration e.header.subject =
      Item.awaitsDeclaration ⟨e.header.subject, e.header.name, f (d.known e.header.subject)⟩ := by
    rw [awaitsDeclaration, item?, notes?_edit, if_pos rfl, edit_name, called]
    rfl
  cases declaration : e.declaration with
  | none =>
    refine edit_congr ?_
    rw [Function.comp_apply, Entry.declare, declaration]
  | some text =>
    rw [recordDeclaration, awaits]
    split
    · rename_i wanted
      rw [addAttribute, edit_edit]
      refine edit_congr ?_
      rw [Function.comp_apply, Function.comp_apply, Entry.declare, declaration]
      exact (if_pos wanted).symm
    · rename_i unwanted
      refine edit_congr ?_
      rw [Function.comp_apply, Entry.declare, declaration]
      exact (if_neg unwanted).symm

theorem describe_eq_edit (d : Document) (e : Entry) :
    d.describe e = (d.rename e.header).edit e.header.subject e.describe := by
  rw [describe, meet_eq_edit, recordLink_edit, addAttributes_edit, rename_name]
  rfl

/-- **Recording an entry is one edit of its subject**, and a new name where it is about the
project. -/
theorem recordEntry_eq_edit (d : Document) (e : Entry) :
    d.recordEntry e = (d.rename e.header).edit e.header.subject e.revise := by
  rw [recordEntry_eq, describe_eq_edit, recordDeclaration_edit _ _ (d.rename_name e.header)]
  rfl

/-! ## Entries about different subjects -/

theorem rename_comm {h h' : Header} (different : h.subject ≠ h'.subject) (d : Document) :
    (d.rename h).rename h' = (d.rename h').rename h := by
  -- Only two headers of the project would rename it twice, and they have the same subject.
  cases h with
  | project name =>
    cases h' with
    | project name' => exact absurd rfl different
    | classNamed name' => rfl
    | member kind owner name' => rfl
  | classNamed name => rfl
  | member kind owner name => rfl

/-- **Entries about different subjects may be recorded in any order.** -/
theorem recordEntry_comm {e e' : Entry} (different : e.header.subject ≠ e'.header.subject)
    (d : Document) : (d.recordEntry e).recordEntry e' = (d.recordEntry e').recordEntry e := by
  simp only [recordEntry_eq_edit, rename_edit]
  rw [edit_comm different, rename_comm different]

/-- Blocks about different subjects may be recorded in any order. -/
theorem record_comm {b b' : Block} (different : ∀ s, b.subject? = some s → b'.subject? ≠ some s)
    (d : Document) : (d.record b).record b' = (d.record b').record b := by
  cases b with
  | broken fault => rfl
  | entry e =>
    cases b' with
    | broken fault => rfl
    | entry e' =>
      exact recordEntry_comm (fun same => different _ rfl (congrArg some same.symm)) d

variable {bs bs' : List Block}

theorem foldl_record_comm {b : Block}
    (different : ∀ b' ∈ bs', ∀ s, b.subject? = some s → b'.subject? ≠ some s) (d : Document) :
    bs'.foldl record (d.record b) = (bs'.foldl record d).record b := by
  induction bs' generalizing d with
  | nil => rfl
  | cons b' bs' ih =>
    obtain ⟨here, others⟩ := List.forall_mem_cons.1 different
    rw [List.foldl_cons, List.foldl_cons, record_comm here, ih others]

/-- **Lists of blocks without a subject in common** may be recorded in any order. -/
theorem foldl_record_foldl_comm
    (different : ∀ b ∈ bs, ∀ b' ∈ bs', ∀ s, b.subject? = some s → b'.subject? ≠ some s)
    (d : Document) :
    bs'.foldl record (bs.foldl record d) = bs.foldl record (bs'.foldl record d) := by
  induction bs generalizing d with
  | nil => rfl
  | cons b bs ih =>
    obtain ⟨here, others⟩ := List.forall_mem_cons.1 different
    rw [List.foldl_cons, List.foldl_cons, ih others, foldl_record_comm here]

/-! ## Sources -/

/-- **Sources without a subject in common may be recorded in any order**: the documents are equal,
and a walk through either source gives the same diagnostics before and after the other one. -/
theorem recordSource_comm (d : Document) {s₁ s₂ : Text}
    (apart : ∀ s ∈ sourceSubjects s₁, s ∉ sourceSubjects s₂) :
    (d.recordSource s₁).recordSource s₂ = (d.recordSource s₂).recordSource s₁ ∧
      (d.walk s₁).faults = ((d.recordSource s₂).walk s₁).faults ∧
      ((d.recordSource s₁).walk s₂).faults = (d.walk s₂).faults := by
  have different : ∀ b ∈ Block.ofSource s₁, ∀ b' ∈ Block.ofSource s₂, ∀ s,
      b.subject? = some s → b'.subject? ≠ some s := by
    intro b inFirst b' inSecond s first second
    exact apart s (List.mem_filterMap.2 ⟨b, inFirst, first⟩)
      (List.mem_filterMap.2 ⟨b', inSecond, second⟩)
  refine ⟨foldl_record_foldl_comm different d, ?_, ?_⟩
  · rw [walk_faults, walk_faults]
  · rw [walk_faults, walk_faults]

/-- A class and one of its members may be recorded in any order. -/
theorem recordSource_comm_member :
    let s₁ := "/*: A::f */".toList
    let s₂ := "/*: Class A */".toList
    (∀ s ∈ sourceSubjects s₁, s ∉ sourceSubjects s₂) ∧
      (empty.recordSource s₁).recordSource s₂ = (empty.recordSource s₂).recordSource s₁ ∧
      (empty.walk s₁).faults = ((empty.recordSource s₂).walk s₁).faults ∧
      ((empty.recordSource s₁).walk s₂).faults = (empty.walk s₂).faults := by
  intro s₁ s₂
  have ofMember : sourceSubjects s₁ = [.member .function ['A'] ['f']] := by
    have header : Block.readHeader ⟨1, " A::f */".toList, none⟩ =
        .ok (.member .function ['A'] ['f'], .absent) ⟨1, [], some .closing⟩ := rfl
    rw [sourceSubjects, Block.ofSource_of_closing rfl header rfl rfl]
    rfl
  have ofClass : sourceSubjects s₂ = [.classNamed ['A']] := by
    have header : Block.readHeader ⟨1, " Class A */".toList, none⟩ =
        .ok (.classNamed ['A'], .absent) ⟨1, [], some .closing⟩ := rfl
    rw [sourceSubjects, Block.ofSource_of_closing rfl header rfl rfl]
    rfl
  have apart : ∀ s ∈ sourceSubjects s₁, s ∉ sourceSubjects s₂ := by
    rw [ofMember, ofClass]
    decide
  exact ⟨apart, recordSource_comm empty apart⟩

end Document

end Docblock
