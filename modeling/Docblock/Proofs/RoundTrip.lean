import Docblock.Proofs.FunctionNote
import Docblock.Proofs.Recording
import Mathlib.Data.List.Forall2

/-!
# Printing and reading back

Notes on functions are printed one after the other, and a document records what is read from the
text. It comes to know the functions of the notes and no others: each with the attributes of all its
notes, in their order, and with the link of the last one.

## Main definitions

* `notesOf notes s`: what a list of notes says of a subject
* `Knows d notes`: a document knows what a list of notes says, and nothing else

## Main results

* `Block.readAll_print`: the blocks of printed notes say what the notes say
* `Knows.recordEntry`: what a document knows behind one more note
* `knows_recordSource_print`: a document that records printed notes knows what they say
-/

namespace Docblock

open FunctionNote

/-! ## The blocks of printed notes -/

namespace FunctionNote

/-- No block opens between the block of a function and the next one. -/
theorem not_begins_opening_behind (n : FunctionNote) (t : Text) : ¬ Begins opening n.behind t := by
  have lineBreak : ¬ opening <+: '\n' :: (n.declaration ++ ";\n".toList ++ t) := by
    rintro ⟨v, whole⟩
    exact nomatch whole
  rw [behind, begins_cons, begins_append]
  rintro (here | inside | behind)
  · exact lineBreak here
  · exact n.declared.not_begins_opening ('\n' :: t) inside
  · exact not_begins_of_head_notMem (by decide) t behind

end FunctionNote

namespace Block

/-- **The blocks of printed notes say what the notes say**, from wherever the search for them
starts. -/
theorem readAll_print (notes : List FunctionNote) {r : Reader}
    (here : behindFirst opening r.rest = behindFirst opening (notes.flatMap FunctionNote.print)) :
    ∃ entries : List Entry, readAll r = entries.map entry ∧
      List.Forall₂ FunctionNote.Says notes entries := by
  induction notes generalizing r with
  | nil =>
    have none : r.firstStart? = none := by
      rw [Reader.firstStart?, here]
      rfl
    exact ⟨[], readAll_of_firstStart?_eq_none none, .nil⟩
  | cons n notes ih =>
    let rest := notes.flatMap FunctionNote.print
    let s : Reader := ⟨r.lastLine, n.inside ++ (closingMark ++ (n.behind ++ rest)), none⟩
    have first : r.firstStart? = some s := by
      have found : behindFirst opening r.rest = some s.rest := by
        rw [here, behindFirst_eq_some_iff (by decide)]
        refine ⟨[], ?_, not_begins_nil _ _⟩
        simp only [List.flatMap_cons, FunctionNote.print, List.append_assoc, List.nil_append, s,
          rest]
      rw [Reader.firstStart?, found]
      rfl
    -- The block is read up to its declaration, and the search passes that.
    obtain ⟨e, agrees, read⟩ := n.read_print (r := s) rfl rfl
    have next : behindFirst opening (n.behind ++ rest) = behindFirst opening rest :=
      behindFirst_append_of_not_begins (n.not_begins_opening_behind rest)
    obtain ⟨entries, others, agreeOthers⟩ := ih (r := ⟨s.lastLine, n.behind ++ rest, none⟩) next
    refine ⟨e :: entries, ?_, .cons agrees agreeOthers⟩
    rw [readAll_of_firstStart?_eq_some first, read, others, List.map_cons]

end Block

/-! ## What a document knows -/

/-- What a list of notes says of a subject: the attributes of all its notes, and the link of the
last one. -/
def notesOf (notes : List FunctionNote) (s : Subject) : Option Notes :=
  let own := notes.filter (·.subject = s)
  own.getLast?.map fun last => ⟨last.link.text, own.flatMap FunctionNote.attributes⟩

/-- A document knows what a list of notes says of functions, and nothing else. -/
structure Knows (d : Document) (notes : List FunctionNote) : Prop where
  projectName : d.projectName = []
  project : d.notes? .project = some (.named [])
  classes : ∀ owner, d.notes? (.classNamed owner) =
    if owner ∈ notes.map (·.owner.text) then some (.named owner) else none
  members : ∀ kind owner name,
    d.notes? (.member kind owner name) = notesOf notes (.member kind owner name)

/-- What a list of notes says of the attributes of a subject. -/
theorem attributes_notesOf (notes : List FunctionNote) (s : Subject) :
    ((notesOf notes s).map (·.attributes)).getD [] =
      (notes.filter (·.subject = s)).flatMap FunctionNote.attributes := by
  cases last : (notes.filter (·.subject = s)).getLast? with
  | none =>
    rw [notesOf, List.getLast?_eq_none_iff.1 last]
    rfl
  | some n => simp [notesOf, last]

/-- A note more adds its attributes, and its link takes the place of the one before. -/
theorem notesOf_append_self (notes : List FunctionNote) (n : FunctionNote) :
    notesOf (notes ++ [n]) n.subject = some
      { link := n.link.text
        attributes := ((notesOf notes n.subject).map (·.attributes)).getD [] ++ n.attributes } := by
  rw [attributes_notesOf]
  simp [notesOf]

theorem notesOf_append_of_ne {s : Subject} {n : FunctionNote} (other : n.subject ≠ s)
    (notes : List FunctionNote) : notesOf (notes ++ [n]) s = notesOf notes s := by
  simp [notesOf, other]

/-- No attribute of a note is taken for a prototype. -/
theorem FunctionNote.ordinary (n : FunctionNote) :
    ∀ a ∈ n.attributes, a.hasKeyword "Prototype".toList = false := by
  have description : Attribute.descriptionKeyword.sameIgnoringCase "Prototype".toList = false := by
    decide
  have declaration : Attribute.declarationKeyword.sameIgnoringCase "Prototype".toList = false := by
    decide
  intro a inside
  simp only [attributes, List.cons_append, List.mem_cons, List.mem_append, List.mem_map,
    List.not_mem_nil, or_false] at inside
  rcases inside with rfl | ⟨label, -, rfl⟩ | rfl
  · exact description
  · exact label.ordinary
  · exact declaration

namespace Knows

variable {d : Document} {notes : List FunctionNote} {n : FunctionNote} {e : Entry}

/-- Behind the block of one more note a document knows its attributes as well. -/
theorem notes?_recordEntry (knows : Knows d notes) (agrees : n.Says e) :
    (d.recordEntry e).notes? n.subject = notesOf (notes ++ [n]) n.subject := by
  have before : d.attributesOf n.subject =
      (notes.filter (·.subject = n.subject)).flatMap FunctionNote.attributes := by
    rw [← attributes_notesOf, Document.attributesOf, subject, knows.members]
  -- The declaration is recorded behind the attributes that the block gives.
  have given : e.attributes ++ [⟨Attribute.declarationKeyword, n.declaration⟩] = n.attributes := by
    rw [Entry.attributes, agrees.description, agrees.labelled]
    rfl
  have ordinary : ∀ a ∈ d.attributesOf n.subject ++ e.attributes,
      a.hasKeyword "Prototype".toList = false := by
    intro a inside
    rw [before, List.mem_append, List.mem_flatMap] at inside
    rcases inside with ⟨m, -, inside⟩ | inside
    · exact m.ordinary a inside
    · exact n.ordinary a (by rw [← given]; exact List.mem_append_left _ inside)
  have recorded := d.notes?_recordEntry_self agrees.header agrees.link agrees.declaration ordinary
  rw [notesOf_append_self, attributes_notesOf, ← before, ← given, ← List.append_assoc]
  exact recorded

/-- **What a document knows behind the block of one more note** is what all the notes say. -/
theorem recordEntry (knows : Knows d notes) (agrees : n.Says e) :
    Knows (d.recordEntry e) (notes ++ [n]) := by
  have touches := d.touches_recordEntry agrees.header
  refine ⟨?_, ?_, ?_, ?_⟩
  · exact touches.projectName.trans knows.projectName
  · rw [touches.others _ (by simp) (by simp), knows.project]
  · intro owner
    by_cases same : owner = n.owner.text
    · subst same
      rw [touches.ofClass, knows.classes]
      split <;> simp
    · rw [touches.others _ (by simp) (by simpa using same), knows.classes]
      simp [same]
  · intro kind owner name
    by_cases same : n.subject = .member kind owner name
    · rw [← same]
      exact knows.notes?_recordEntry agrees
    · rw [notesOf_append_of_ne same, touches.others _ (fun other => same other.symm) (by simp),
        knows.members]

/-- What a document knows behind the blocks of more notes. -/
theorem foldl_record {more : List FunctionNote} {entries : List Entry}
    (agree : List.Forall₂ FunctionNote.Says more entries) (knows : Knows d notes) :
    Knows ((entries.map Block.entry).foldl Document.record d) (notes ++ more) := by
  induction agree generalizing d notes with
  | nil => simpa using knows
  | cons agrees _ ih =>
    have rest := ih (knows.recordEntry agrees)
    rwa [List.append_assoc, List.singleton_append] at rest

end Knows

theorem knows_empty : Knows Document.empty [] := by
  refine ⟨rfl, rfl, fun owner => rfl, fun kind owner name => rfl⟩

/-! ## Printing and reading back -/

/-- Entries that agree with notes have no faults. -/
theorem flatMap_faults_of_agree {notes : List FunctionNote} {entries : List Entry}
    (agree : List.Forall₂ FunctionNote.Says notes entries) :
    (entries.map Block.entry).flatMap Block.faults = [] := by
  induction agree with
  | nil => rfl
  | cons agrees _ ih =>
    rw [List.map_cons, List.flatMap_cons, ih, Block.faults, agrees.link, agrees.fault]
    rfl

/-- **Printed notes are read back**: a document that records the text of any notes knows what they
say and nothing else, and nothing is missing in the text. -/
theorem knows_recordSource_print (notes : List FunctionNote) :
    sourceFaults (notes.flatMap FunctionNote.print) = [] ∧
      Knows (Document.empty.recordSource (notes.flatMap FunctionNote.print)) notes := by
  obtain ⟨entries, blocks, agree⟩ := Block.readAll_print notes
    (r := .ofSource (notes.flatMap FunctionNote.print)) rfl
  have ofSource : Block.ofSource (notes.flatMap FunctionNote.print) = entries.map .entry := blocks
  constructor
  · rw [sourceFaults, ofSource, flatMap_faults_of_agree agree]
  · rw [Document.recordSource, ofSource]
    exact Knows.foldl_record agree knows_empty

example :
    let note : FunctionNote :=
      { owner := ⟨'A', [], by decide, by decide⟩
        name := ⟨'f', [], by decide, by decide⟩
        link := ⟨'f', "1".toList, by decide, by decide⟩
        description := "Does A::f:\n(twice)".toList
        labels :=
          [{ keyword := ⟨'P', "re".toList, by decide, by decide⟩
             value := "x > 0".toList
             ordinary := by decide
             plain := by decide }]
        declaration := "int A::f(int x)".toList
        plain := by decide
        declared := by decide }
    note.print = ("/*: Function: A::f #f1\nDoes A::f:\n(twice)\nPre: x > 0\n*/\n" ++
      "int A::f(int x);\n").toList := by
  rfl

end Docblock
