import Docblock.Proofs.Attributes
import Docblock.Proofs.Starts

/-!
# Reading and recording in one walk

A source may be read and recorded in one walk: the document comes to know a block before the next
one is looked for, and the reader goes over the declaration behind a block only if the document wants
it. So the document decides where the reader stands. But no block opens in a declaration, so the walk
finds the same blocks from both places, and it gives what reading all the blocks first and recording
them afterwards gives. What a source says does not depend on the document that it is recorded in.

## Main definitions

* `Document.visit`: records one block, and takes the declaration behind it if it is wanted
* `Walk`: what a walk gives: the document, the diagnostics and the blocks that have been met
* `Document.walk`: the walk through a source

## Main results

* `not_begins_opening_declaration`: no block opens in a declaration
* `walkFrom_eq`: a walk records the blocks of the source, wherever the declarations leave the reader
* `walk_independent`: two walks through a source differ in declarations alone
-/

namespace Docblock

/-- The item that a block is about; a block with a broken header is about none. -/
def Block.subject? : Block → Option Subject
  | broken _ => none
  | entry e => some e.header.subject

/-- A block that is met: the place behind its opening, and the item that it is about. -/
structure Visit where
  start : Reader
  subject? : Option Subject

/-- What a walk gives: the document, the diagnostics and the blocks that have been met. -/
structure Walk where
  document : Document
  faults : List Diagnostic
  visits : List Visit

namespace Document

/-- Records a block that is read up to a place. The declaration that stands there is taken if the
block has an end and its item awaits a declaration, and only then does the reader go behind it. -/
def visit (d : Document) (b : Block) (r : Reader) : Document × Reader :=
  match b with
  | .broken _ => (d, r)
  | .entry e =>
    if e.declaration.isSome && (d.describe e).awaitsDeclaration e.header.subject then
      ((d.describe e).addAttribute e.header.subject
        ⟨Attribute.declarationKeyword, Block.declarationHere r⟩, r.declaration.2)
    else (d.describe e, r)

/-- Recording a block goes behind the declaration at most. -/
theorem visit_rest_suffix (d : Document) (b : Block) (r : Reader) :
    (d.visit b r).2.rest <:+ r.rest := by
  unfold visit
  split
  · exact List.suffix_rfl
  · split
    · exact r.declaration_rest_suffix
    · exact List.suffix_rfl

/-- The walk from here on: a block is looked for, read and recorded, and the walk goes on from the
place that this leaves the reader at. -/
def walkFrom (d : Document) (r : Reader) : Walk :=
  if _ : r.seekBlock.1 = .endOfSource then ⟨d, [], []⟩
  else
    let start := r.seekBlock.2
    let block := Block.read start
    let behind := d.visit block.1 block.2
    let others := walkFrom behind.1 behind.2
    { document := others.document
      faults := block.1.faults ++ others.faults
      visits := ⟨start, block.1.subject?⟩ :: others.visits }
termination_by r.rest.length
decreasing_by
  have taken := Reader.length_seekBlock_rest_lt ‹_›
  have visited := d.visit_rest_suffix (Block.read r.seekBlock.2).1 (Block.read r.seekBlock.2).2
  have behind := (visited.trans (Block.read_rest_suffix r.seekBlock.2)).length_le
  omega

/-- The walk through a source. -/
def walk (d : Document) (source : Text) : Walk := d.walkFrom (.ofSource source)

end Document

/-! ## Where the walk goes on -/

/-- **No block opens in a declaration**, nor across its end. -/
theorem not_begins_opening_declaration (t : Text) :
    ¬ Begins opening (declaration t).1 (declaration t).2 := by
  have noColon (u : Text) : ¬ opening <+: ':' :: u := by
    rintro ⟨v, whole⟩
    exact nomatch whole
  fun_induction declaration t with
  | case1 => exact not_begins_nil _ _
  | case2 t ih =>
    rw [begins_cons, begins_cons, not_or, not_or]
    exact ⟨noColon _, noColon _, ih⟩
  | case3 c t _ ends => exact not_begins_nil _ _
  | case4 c t _ goes ih =>
    rw [begins_cons, declaration_append, not_or]
    refine ⟨fun opens => goes ?_, ih⟩
    rw [List.isPrefixOf_iff_prefix.2 opens, Bool.or_true]

/-- **Behind a declaration the next block is the same** as in front of it, in the same line. -/
theorem Reader.firstStart?_declaration (r : Reader) :
    r.declaration.2.firstStart? = r.firstStart? := by
  have passed := behindFirst_append_of_not_begins (not_begins_opening_declaration r.rest)
  rw [declaration_append] at passed
  rw [firstStart?, firstStart?, passed]
  rfl

/-- The declaration of a block is the one that stands where the block is read to. -/
theorem Block.declaration_of_read {r r' : Reader} {e : Entry} (same : read r = (entry e, r')) :
    e.declaration = none ∨ e.declaration = some (declarationHere r') := by
  unfold read at same
  split at same
  · exact nomatch same
  · obtain ⟨isEntry, rfl⟩ := Prod.mk.inj same
    rw [← Block.entry.inj isEntry, readBody]
    split
    · exact Or.inr rfl
    · exact Or.inl rfl

namespace Document

theorem firstStart?_visit (d : Document) (b : Block) (r : Reader) :
    (d.visit b r).2.firstStart? = r.firstStart? := by
  unfold visit
  split
  · rfl
  · split
    · exact r.firstStart?_declaration
    · rfl

/-- **Recording a block on the walk** is recording what has been read of it. -/
theorem visit_fst_of_read {b : Block} {r r' : Reader} (same : Block.read r = (b, r'))
    (d : Document) : (d.visit b r').1 = d.record b := by
  cases b with
  | broken fault => rfl
  | entry e =>
    rw [record, recordEntry_eq, visit]
    -- The declaration that has been read ahead is the one that the walk takes.
    rcases Block.declaration_of_read same with none | some
    · rw [none]
      rfl
    · rw [some, Option.isSome_some, Bool.true_and, recordDeclaration]
      split <;> rfl

/-- **A walk records the blocks of the source**, one after the other: it may start wherever the same
block is the next one. -/
theorem walkFrom_eq (d : Document) {r s : Reader} (same : r.firstStart? = s.firstStart?) :
    d.walkFrom r =
      { document := (Block.readAll s).foldl record d
        faults := (Block.readAll s).flatMap Block.faults
        visits := (Block.starts s).map fun start => ⟨start, (Block.read start).1.subject?⟩ } := by
  -- The induction takes one block after the other; the reader of the walk may be further on.
  induction s using Block.run_induction generalizing d r with
  | ended s last =>
    rw [walkFrom, dif_pos (Reader.seekBlock_of_firstStart?_eq_none (same.trans last)),
      Block.readAll_of_firstStart?_eq_none last, Block.starts_of_firstStart?_eq_none last]
    rfl
  | started s p first ih =>
    have found := Reader.seekBlock_of_firstStart?_eq_some (same.trans first)
    have recorded : (d.visit (Block.read p).1 (Block.read p).2).1 = d.record (Block.read p).1 :=
      visit_fst_of_read rfl d
    have others := ih (d.record (Block.read p).1)
      (firstStart?_visit d (Block.read p).1 (Block.read p).2)
    rw [walkFrom, found, dif_neg (by simp), Block.readAll_of_firstStart?_eq_some first,
      Block.starts_of_firstStart?_eq_some first]
    simp only [recorded, others, List.foldl_cons, List.flatMap_cons, List.map_cons]

theorem walk_document (d : Document) (source : Text) :
    (d.walk source).document = d.recordSource source := by
  rw [walk, walkFrom_eq d rfl]
  rfl

theorem walk_faults (d : Document) (source : Text) :
    (d.walk source).faults = sourceFaults source := by
  rw [walk, walkFrom_eq d rfl]
  rfl

theorem walk_visits (d : Document) (source : Text) :
    (d.walk source).visits = (Block.starts (.ofSource source)).map fun start =>
      ⟨start, (Block.read start).1.subject?⟩ := by
  rw [walk, walkFrom_eq d rfl]

/-- **What a source says does not depend on the document.** Two walks through it give the same
diagnostics and meet the same blocks at the same places, and to each subject they add the same
attributes, apart from the declarations behind blocks. They give what reading the source and
recording it gives. -/
theorem walk_independent (source : Text) (d₁ d₂ : Document) :
    ((d₁.walk source).document = d₁.recordSource source ∧
        (d₂.walk source).document = d₂.recordSource source ∧
        (d₁.walk source).faults = sourceFaults source) ∧
      (d₁.walk source).faults = (d₂.walk source).faults ∧
      (d₁.walk source).visits = (d₂.walk source).visits ∧
      ∀ s, ∃ more₁ more₂,
        (d₁.walk source).document.attributesOf s = d₁.attributesOf s ++ more₁ ∧
        (d₂.walk source).document.attributesOf s = d₂.attributesOf s ++ more₂ ∧
        more₁.filter Attribute.isWritten = more₂.filter Attribute.isWritten := by
  refine ⟨⟨d₁.walk_document source, d₂.walk_document source, d₁.walk_faults source⟩, ?_, ?_, ?_⟩
  · rw [walk_faults, walk_faults]
  · rw [walk_visits, walk_visits]
  · intro s
    have adds := exists_attributesOf_foldl_record (Block.ofSource source)
    obtain ⟨more₁, added₁, written₁⟩ := adds d₁ s
    obtain ⟨more₂, added₂, written₂⟩ := adds d₂ s
    refine ⟨more₁, more₂, ?_, ?_, written₁.trans written₂.symm⟩
    · rw [walk_document]
      exact added₁
    · rw [walk_document]
      exact added₂

end Document

end Docblock
