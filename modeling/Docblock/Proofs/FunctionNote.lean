import Docblock.Document.Record
import Docblock.Proofs.HeaderCourse
import Docblock.Proofs.PlainDeclaration
import Docblock.Proofs.PlainProse
import Docblock.Proofs.Starts

/-!
# Printed documentation of functions

What is to be known of a function can be printed as a block with the function's declaration behind
it. Such a block is read as it was printed, whatever follows the declaration.

## Main definitions

* `Label`: a label with its value
* `FunctionNote`: what is to be known of a function
* `FunctionNote.print`: the block that says it, with the declaration behind it
* `FunctionNote.Says note e`: an entry says what a note says

## Main results

* `labelledAll_of_labels`: the labels of a printed block are read
* `FunctionNote.read_print`: a printed block is read
-/

namespace Docblock

open Lexeme Reader

/-! ## What is printed -/

/-- A label with its value. It is none for the declaration. -/
structure Label where
  keyword : Identifier
  value : Text
  ordinary : keyword.text.sameIgnoringCase "Prototype".toList = false
  plain : IsProse value

namespace Label

/-- A label with its value, in a line of its own. -/
def print (l : Label) : Text := l.keyword.text ++ (": ".toList ++ (l.value ++ ['\n']))

/-- The attribute that a label gives. -/
def toAttribute (l : Label) : Attribute := ⟨l.keyword.text, l.value⟩

end Label

/-- What is to be known of a function. -/
structure FunctionNote where
  owner : Identifier
  name : Identifier
  link : Identifier
  description : Text
  labels : List Label
  declaration : Text
  plain : IsProse description
  declared : IsDeclaration declaration

namespace FunctionNote

/-- What stands in the block of a function, up to its end. -/
def inside (n : FunctionNote) : Text :=
  " Function: ".toList ++ (n.owner.text ++ ("::".toList ++ (n.name.text ++ (" #".toList ++
    (n.link.text ++ ('\n' :: (n.description ++ ('\n' :: n.labels.flatMap Label.print))))))))

/-- What stands behind the block of a function: its declaration. -/
def behind (n : FunctionNote) : Text := '\n' :: (n.declaration ++ ";\n".toList)

/-- The block of a function, with the declaration behind it. -/
def print (n : FunctionNote) : Text := opening ++ (n.inside ++ (closingMark ++ n.behind))

/-- The subject of a note. -/
def subject (n : FunctionNote) : Subject := .member .function n.owner.text n.name.text

/-- The attributes that a note gives its function: the description, the labels in order, and the
declaration. -/
def attributes (n : FunctionNote) : List Attribute :=
  ⟨Attribute.descriptionKeyword, n.description⟩ :: n.labels.map Label.toAttribute ++
    [⟨Attribute.declarationKeyword, n.declaration⟩]

/-- An entry says what a note says, and nothing is missing. -/
structure Says (n : FunctionNote) (e : Entry) : Prop where
  header : e.header = .member .function n.owner.text n.name.text
  link : e.link = .given n.link.text
  description : e.description = n.description
  labelled : e.labelled = n.labels.map Label.toAttribute
  fault : e.fault = none
  declaration : e.declaration = some n.declaration

end FunctionNote

/-! ## Reading the labels -/

theorem Passage.scan_of_closing (lineStart : Bool) (t : Text) :
    Passage.scan lineStart (closingMark ++ t) = ⟨[], .closing, t⟩ := by
  show Passage.scan lineStart ('*' :: '/' :: t) = _
  rw [Passage.scan, if_pos (by simp)]
  rfl

/-- A label at the start of a line stops a passage. -/
theorem Passage.scan_of_label (w : Identifier) {t : Text}
    (colon : startsWithLoneColon (':' :: t) = true) :
    Passage.scan true (w.text ++ ':' :: t) = ⟨[], .identifier w.text, ':' :: t⟩ := by
  have isLabel := label?_of_identifier w colon
  obtain ⟨noBlank, noBreak⟩ := isBlank_of_startsIdentifier w.starts
  have noStar : w.first ≠ '*' := ne_of_startsIdentifier w.starts (by decide)
  have noSlash : w.first ≠ '/' := ne_of_startsIdentifier w.starts (by decide)
  rw [Identifier.text, List.cons_append] at isLabel ⊢
  rw [Passage.scan, if_neg (by simp [Ne.symm noStar]), if_pos rfl,
    if_neg (by simp [isMargin, noBlank, noStar, noSlash]), if_neg (by simp [noBreak]), isLabel]

/-- What follows the prose of a block: labels, and the end. -/
def stops (labels : List Label) (t : Text) : Text :=
  labels.flatMap Label.print ++ (closingMark ++ t)

theorem stops_cons (l : Label) (labels : List Label) (t : Text) :
    stops (l :: labels) t =
      l.keyword.text ++ ':' :: ' ' :: (l.value ++ '\n' :: stops labels t) := by
  simp [stops, Label.print]

/-- No prose stands in front of a label or the end. -/
theorem scan_stops_text (labels : List Label) (t : Text) :
    (Passage.scan true (stops labels t)).text = [] := by
  cases labels with
  | nil => rw [stops, List.flatMap_nil, List.nil_append, Passage.scan_of_closing]
  | cons l labels => rw [stops_cons, Passage.scan_of_label _ rfl]

/-- **Prose in front of labels** is read without the line breaks around it. -/
theorem trim_scan_of_isProse {p : Text} (isProse : IsProse p) (labels : List Label) (t : Text)
    (before : Text) (white : before.all Text.isWhite = true) :
    (before ++ (Passage.scan true (p ++ '\n' :: stops labels t)).text).trim = p := by
  rw [Passage.scan_of_isPassage isProse.toIsPassage, Passage.prepend, scan_stops_text,
    List.append_nil]
  exact Text.trim_append_of_white white (by decide) isProse.trimmed

/-- **The labels of a printed block are read**, up to its end. -/
theorem labelledAll_of_labels (labels : List Label) (t : Text) (lastLine : Nat) :
    Block.labelledAll ⟨lastLine, (Passage.scan true (stops labels t)).rest,
        some (Passage.scan true (stops labels t)).stop⟩ =
      (labels.map Label.toAttribute, .ok () ⟨lastLine, t, some .closing⟩) := by
  induction labels with
  | nil =>
    rw [stops, List.flatMap_nil, List.nil_append, Passage.scan_of_closing]
    exact Block.labelledAll_of_closing rfl
  | cons l labels ih =>
    have value := trim_scan_of_isProse l.plain labels t [] (by simp)
    -- The space behind the colon is the margin of the first line.
    have margin : Passage.scan true (' ' :: (l.value ++ '\n' :: stops labels t)) =
        Passage.scan true (l.value ++ '\n' :: stops labels t) := by
      rw [Passage.scan, if_neg (by simp), if_pos rfl, if_pos (by decide)]
    -- What stops the passage is what stops the text behind the value.
    have behind : (Passage.scan true (l.value ++ '\n' :: stops labels t)).rest =
          (Passage.scan true (stops labels t)).rest ∧
        (Passage.scan true (l.value ++ '\n' :: stops labels t)).stop =
          (Passage.scan true (stops labels t)).stop := by
      rw [Passage.scan_of_isPassage l.plain.toIsPassage]
      exact ⟨rfl, rfl⟩
    rw [stops_cons, Passage.scan_of_label _ rfl, Block.labelledAll_of_label rfl rfl rfl]
    rw [List.nil_append] at value
    simp only [margin, value, behind.1, behind.2, ih]
    rfl

namespace FunctionNote

/-! ## Reading the header -/

/-- The word for functions. -/
def functionWord : Identifier := ⟨'F', "unction".toList, by decide, by decide⟩

/-- What stands behind the header of a printed block, up to its end. -/
def body (n : FunctionNote) : Text :=
  '\n' :: (n.description ++ '\n' :: n.labels.flatMap Label.print)

/-- The lexemes of a printed header. -/
def lexemes (n : FunctionNote) : List Lexeme :=
  [.identifier functionWord.text, .colon, .identifier n.owner.text, .scope,
    .identifier n.name.text, .hash, .identifier n.link.text]

theorem inside_append (n : FunctionNote) (t : Text) :
    n.inside ++ t = ' ' :: (functionWord.text ++ (':' :: ' ' :: (n.owner.text ++ (':' :: ':' ::
      (n.name.text ++ (' ' :: '#' :: (n.link.text ++ (n.body ++ t)))))))) := by
  have whole : n.inside = ' ' :: (functionWord.text ++ (':' :: ' ' :: (n.owner.text ++
      (':' :: ':' :: (n.name.text ++ (' ' :: '#' :: (n.link.text ++ n.body))))))) := rfl
  rw [whole]
  simp only [List.append_assoc, List.cons_append]

/-- **The lexemes of a printed header** are what its block starts with. -/
theorem lexes_inside (n : FunctionNote) (t : Text) :
    Lexes n.lexemes (n.inside ++ t) (n.body ++ t) := by
  have linkEnds : n.link.EndsBefore (n.body ++ t) := n.link.endsBefore_cons _ (by decide)
  have linked : Lexes [.hash, .identifier n.link.text] ('#' :: (n.link.text ++ (n.body ++ t)))
      (n.body ++ t) :=
    .cons (scan_hash _) (.cons (scan_identifier n.link linkEnds) .nil)
  rw [inside_append]
  -- From the first lexeme to the last: each one ends in front of a colon, a space or the line feed.
  refine .space (.cons (scan_identifier _ (functionWord.endsBefore_cons _ (by decide))) ?_)
    (List.cons_ne_nil _ _)
  refine .cons (scan_of_startsWithLoneColon rfl) (.space ?_ (by simp))
  refine .cons (scan_identifier _ (n.owner.endsBefore_cons _ (by decide))) ?_
  refine .cons (scan_scope _) ?_
  refine .cons (scan_identifier _ (n.name.endsBefore_cons _ (by decide))) ?_
  exact linked.space (by simp)

/-- **A printed header is read.** -/
theorem readHeader_print (n : FunctionNote) {r : Reader} {t : Text} (held : r.held = none)
    (rest : r.rest = n.inside ++ t) :
    Block.readHeader r = .ok (.member .function n.owner.text n.name.text, .given n.link.text)
      ⟨r.lastLine, n.body ++ t, none⟩ := by
  have lexes := n.lexes_inside t
  rw [← rest] at lexes
  have hash : nth 5 r.rest = .hash := lexes.nth rfl
  have link : nth 6 r.rest = .identifier n.link.text := lexes.nth rfl
  have kind : HeaderKind.Taken r.rest (.member .function) 2 :=
    .colon (lexes.nth (k := 0) rfl) (by decide) (lexes.nth (k := 1) rfl)
  have named : Header.Named r.rest 2 n.owner.text n.name.text 5 :=
    .owned (lexes.nth (k := 2) rfl) (lexes.nth (k := 3) rfl) (lexes.nth (k := 4) rfl)
  have course : Header.Course r.rest (.member .function n.owner.text n.name.text) 5 :=
    .function kind named (by rw [hash]; decide)
  obtain ⟨mark, m, read, linkCourse⟩ := Block.readHeader_of_course held course
  -- Of what a header may say about the link only one fits the two lexemes.
  cases linkCourse with
  | absent first => exact absurd hash first
  | given _ second =>
    obtain rfl := Lexeme.identifier.inj (second.symm.trans link)
    rw [read, ← lexes.behind]
    rfl
  | faulty _ second _ => exact absurd link (second _)

/-- The declaration of a printed block is read. -/
theorem declarationHere_behind (n : FunctionNote) (t : Text) (lastLine : Nat) :
    Block.declarationHere ⟨lastLine, n.behind ++ t, none⟩ = n.declaration := by
  have whole : n.behind ++ t = '\n' :: (n.declaration ++ ';' :: '\n' :: t) := by
    simp [behind]
  have read : Docblock.declaration (n.behind ++ t) = ('\n' :: n.declaration, ';' :: '\n' :: t) := by
    rw [whole, Docblock.declaration, if_neg (by simp [opening]), n.declared.declaration_append]
    rintro _ ⟨⟩
  have trimmed := Text.trim_append_of_white (a := ['\n']) (b := []) (by decide) (by simp)
    n.declared.trimmed
  rw [List.append_nil] at trimmed
  rw [Block.declarationHere, Reader.declaration, read]
  exact trimmed

/-- **A printed block is read as it was printed**, whatever follows the declaration. -/
theorem read_print (n : FunctionNote) {r : Reader} {t : Text} (held : r.held = none)
    (rest : r.rest = n.inside ++ (closingMark ++ (n.behind ++ t))) :
    ∃ e, n.Says e ∧ Block.read r = (.entry e, ⟨r.lastLine, n.behind ++ t, none⟩) := by
  have read := Block.read_of_readHeader_eq (n.readHeader_print held rest)
  -- The line feed behind the header goes into the passage, and is trimmed off.
  have passage : Passage.scan true (n.body ++ (closingMark ++ (n.behind ++ t))) =
      Passage.prepend ['\n'] (Passage.scan true
        (n.description ++ '\n' :: stops n.labels (n.behind ++ t))) := by
    rw [← Passage.scan_lineBreak true]
    simp [body, stops]
  have description := trim_scan_of_isProse n.plain n.labels (n.behind ++ t) ['\n']
    (by decide)
  have labelled := labelledAll_of_labels n.labels (n.behind ++ t) r.lastLine
  rw [Block.readBody_of_labelledAll_eq rfl] at read
  · refine ⟨_, ?_, read⟩
    exact
      { header := rfl
        link := rfl
        description := (congrArg (fun p => p.text.trim) passage).trans description
        labelled := rfl
        fault := rfl
        declaration := congrArg some (n.declarationHere_behind t r.lastLine) }
  · simp only [passage, Passage.prepend, Passage.scan_of_isPassage n.plain.toIsPassage]
    exact labelled

end FunctionNote

end Docblock
