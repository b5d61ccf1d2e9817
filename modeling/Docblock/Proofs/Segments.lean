import Docblock.Proofs.HeldLexeme
import Docblock.Proofs.Order
import Mathlib.Data.List.DropRight

/-!
# The shape of the attributes of an item

Every block adds one segment to the attributes of its item: its description, its labelled
attributes, and the declaration behind it if the block is closed and the item is a member of which
no prototype is known by then. Nothing else is ever added, so the attributes of an item are the
segments of its blocks one after the other, whatever the sources are.

## Main definitions

* `Segment`: what a block adds to the attributes of its item
* `Segment.Behind`: a segment is that of a block, with some attributes in front of it
* `Accrued`: attributes are the segments of some blocks, one after the other
* `Document.Accrues`: so are the attributes of all subjects of a document

## Main results

* `attributesOf_recordEntry`, `behind_segmentOf`: what is recorded of a block is one segment
* `accrues_foldl_recordSource`: recording sources adds segments alone
* `Document.shape_of_sources`: the shape of the items of sources
-/

namespace Docblock

open Lexeme Reader Reading

/-! ## Values -/

namespace Text

theorem trimRight_trimRight (t : Text) : t.trimRight.trimRight = t.trimRight := by
  simp only [trimRight, List.reverse_reverse, List.dropWhile_idempotent]

/-- White space that is taken from the end leaves the start as it is. -/
theorem trimLeft_trim (t : Text) : t.trim.trimLeft = t.trim := by
  cases trimmed : t.trim with
  | nil => rfl
  | cons c u =>
    obtain ⟨w, whole⟩ := trimRight_isPrefix t.trimLeft
    have first : (t.dropWhile isWhite).head? = some c := by
      show t.trimLeft.head? = some c
      rw [← whole, show t.trimLeft.trimRight = c :: u from trimmed]
      rfl
    have visible : isWhite c = false := by
      simpa [first] using List.head?_dropWhile_not isWhite t
    exact List.dropWhile_cons_of_neg (by simp [visible])

/-- **What has been trimmed is trimmed.** -/
theorem trim_trim (t : Text) : t.trim.trim = t.trim := by
  calc t.trim.trim = t.trim.trimLeft.trimRight := rfl
    _ = t.trim.trimRight := by rw [trimLeft_trim]
    _ = t.trim := trimRight_trimRight t.trimLeft

end Text

/-! ## Subjects -/

/-- Functions and variables are members, the project and the classes are not. -/
def Subject.IsMember (s : Subject) : Prop := ∃ kind owner name, s = .member kind owner name

/-- The names of members are identifiers, and so are those of classes but for the global one. -/
def Subject.WellNamed : Subject → Prop
  | .project => True
  | .classNamed name => name = globalClass ∨ IsWord name
  | .member _ owner name => (owner = globalClass ∨ IsWord owner) ∧ IsWord name

theorem Header.Said.isWord {t name : Text} {m : Nat} (said : Header.Said t m name) :
    IsWord name := by
  obtain ⟨k, -, named⟩ := said
  exact isWord_of_nth named

/-- **A header that is read names its item by identifiers**, and never the global class. -/
theorem Header.Course.wellNamed {t : Text} {header : Header} {m : Nat}
    (course : Header.Course t header m) :
    header.subject.WellNamed ∧ header.subject ≠ .classNamed globalClass := by
  have member {owner name : Text} {n m : Nat} (kind : MemberKind)
      (named : Header.Named t n owner name m) : (Subject.member kind owner name).WellNamed := by
    obtain ⟨-, ownerSaid, nameSaid⟩ := named.inner
    exact ⟨ownerSaid.imp_right Header.Said.isWord, nameSaid.isWord⟩
  cases course with
  | project kind named => exact ⟨trivial, Subject.noConfusion⟩
  | classNamed kind named =>
    have isWord := isWord_of_nth named
    refine ⟨Or.inr isWord, ?_⟩
    intro isGlobal
    exact isWord.ne_nil (Subject.classNamed.inj isGlobal)
  | function kind named behind => exact ⟨member _ named, Subject.noConfusion⟩
  | parentheses kind named behind => exact ⟨member _ named, Subject.noConfusion⟩
  | data kind named => exact ⟨member _ named, Subject.noConfusion⟩

/-! ## Segments -/

/-- Whether an attribute is a prototype that is written in a block. -/
def Attribute.isPrototype (a : Attribute) : Bool := a.hasKeyword "Prototype".toList

/-- What a block adds to the attributes of its item. -/
structure Segment where
  description : Text
  labelled : List Attribute
  declaration : Option Text

namespace Segment

/-- What is written in the block: the description, and the labelled attributes. -/
def written (g : Segment) : List Attribute :=
  ⟨Attribute.descriptionKeyword, g.description⟩ :: g.labelled

/-- What is written in the block, and the declaration if it is kept. -/
def attributes (g : Segment) : List Attribute :=
  g.written ++ g.declaration.toList.map fun text => ⟨Attribute.declarationKeyword, text⟩

/-- A segment is that of the block behind an opening, about a subject that has some attributes. Its
labels are identifiers and its values are trimmed. It has a declaration exactly if the subject is a
member, the block is closed, and no attribute up to there is a prototype. -/
structure Behind (s : Subject) (before : List Attribute) (p : Reader) (g : Segment) : Prop where
  words : ∀ a ∈ g.labelled, IsWord a.keyword
  trimmed : ∀ a ∈ g.attributes, a.value.trim = a.value
  declared : g.declaration.isSome = true ↔ s.IsMember ∧ (∃ q, Block.ClosedAt p q) ∧
    ∀ a ∈ before ++ g.written, a.isPrototype = false

end Segment

/-- Attributes of a subject are the segments of some blocks, one after the other. -/
inductive Accrued (s : Subject) : List Reader → List Attribute → Prop
  /-- No block, and no attribute. -/
  | none : Accrued s [] []
  /-- One block more, and its segment behind the attributes so far. -/
  | block {starts : List Reader} {before : List Attribute} {p : Reader} {g : Segment}
      (earlier : Accrued s starts before) (segment : g.Behind s before p) :
      Accrued s (starts ++ [p]) (before ++ g.attributes)

namespace Segment

variable {s : Subject} {before : List Attribute} {p : Reader} {g : Segment} {a : Attribute}

theorem mem_attributes_iff :
    a ∈ g.attributes ↔
      a ∈ g.written ∨
        ∃ text, g.declaration = some text ∧ a = ⟨Attribute.declarationKeyword, text⟩ := by
  rw [attributes, List.mem_append, List.mem_map]
  simp only [Option.mem_toList, eq_comm]

/-- **What is written in a block is no declaration.** -/
theorem Behind.keyword_ne (segment : g.Behind s before p) (inside : a ∈ g.written) :
    a.keyword ≠ Attribute.declarationKeyword := by
  rcases List.mem_cons.1 inside with rfl | labelled
  · show Attribute.descriptionKeyword ≠ Attribute.declarationKeyword
    decide
  · intro same
    refine (segment.words a labelled).head?_ne_star ?_
    rw [same]
    rfl

/-- A declaration stands behind attributes that are no prototypes. -/
theorem Behind.of_declaration (segment : g.Behind s before p) (inside : a ∈ g.attributes)
    (isDeclaration : a.keyword = Attribute.declarationKeyword) :
    s.IsMember ∧ ∀ b ∈ before ++ g.written, b.isPrototype = false := by
  rcases mem_attributes_iff.1 inside with written | ⟨text, kept, -⟩
  · exact absurd isDeclaration (segment.keyword_ne written)
  · obtain ⟨isMember, -, ordinary⟩ := segment.declared.1 (by rw [kept]; rfl)
    exact ⟨isMember, ordinary⟩

end Segment

namespace Accrued

variable {s : Subject} {starts : List Reader} {attributes : List Attribute} {a : Attribute}

/-- An attribute is in the segment of one of the blocks. -/
theorem exists_segment (accrued : Accrued s starts attributes) (inside : a ∈ attributes) :
    ∃ (before : List Attribute) (p : Reader) (g : Segment), g.Behind s before p ∧
      a ∈ g.attributes := by
  induction accrued with
  | none => cases inside
  | block earlier segment ih =>
    rcases List.mem_append.1 inside with isEarlier | isHere
    · exact ih isEarlier
    · exact ⟨_, _, _, segment, isHere⟩

/-- **Every value is trimmed.** -/
theorem trimmed (accrued : Accrued s starts attributes) (inside : a ∈ attributes) :
    a.value.trim = a.value := by
  obtain ⟨before, p, g, segment, isHere⟩ := accrued.exists_segment inside
  exact segment.trimmed a isHere

/-- **Only members have declarations.** -/
theorem keyword_ne (accrued : Accrued s starts attributes) (noMember : ¬ s.IsMember)
    (inside : a ∈ attributes) : a.keyword ≠ Attribute.declarationKeyword := by
  obtain ⟨before, p, g, segment, isHere⟩ := accrued.exists_segment inside
  intro isDeclaration
  exact noMember (segment.of_declaration isHere isDeclaration).1

/-- **No declaration stands behind a prototype.** -/
theorem pairwise (accrued : Accrued s starts attributes) :
    attributes.Pairwise fun a b =>
      a.isPrototype = true → b.keyword ≠ Attribute.declarationKeyword := by
  induction accrued with
  | none => exact List.Pairwise.nil
  | @block starts before p g earlier segment ih =>
    -- The induction takes one segment more, with all attributes so far in front of it. What stands
    -- in front of a declaration, in this segment or before it, is no prototype.
    have behind {a b : Attribute} (first : a ∈ before ++ g.written) (second : b ∈ g.attributes)
        (prototype : a.isPrototype = true) :
        b.keyword ≠ Attribute.declarationKeyword := by
      intro isDeclaration
      have ordinary := (segment.of_declaration second isDeclaration).2 a first
      rw [prototype] at ordinary
      cases ordinary
    have inner : g.attributes.Pairwise fun a b =>
        a.isPrototype = true → b.keyword ≠ Attribute.declarationKeyword := by
      refine List.pairwise_append.2 ⟨?_, ?_, ?_⟩
      · exact List.pairwise_of_forall_mem_list fun a first b second _ => segment.keyword_ne second
      · cases g.declaration <;> simp
      · intro a first b second
        exact behind (List.mem_append_right _ first) (List.mem_append_right _ second)
    refine List.pairwise_append.2 ⟨ih, inner, ?_⟩
    intro a first b second
    exact behind (List.mem_append_left _ first) second

theorem eq_nil (accrued : Accrued s starts attributes) (noBlock : starts = []) :
    attributes = [] := by
  cases accrued with
  | none => rfl
  | block earlier segment => exact absurd noBlock (by simp)

end Accrued

/-! ## What blocks say -/

/-- An entry as it is read from a source: it is about a subject with a proper name, its labels are
identifiers, and its values are trimmed. -/
structure Entry.Shaped (e : Entry) : Prop where
  subject : e.header.subject.WellNamed
  notGlobal : e.header.subject ≠ .classNamed globalClass
  words : ∀ a ∈ e.labelled, IsWord a.keyword
  attributes : ∀ a ∈ e.attributes, a.value.trim = a.value
  declaration : ∀ text ∈ e.declaration, text.trim = text

namespace Block

variable {p q : Reader} {e : Entry}

/-- **What is read has the shape of an entry.** -/
theorem shaped_of_read (unheld : p.held = none) (isEntry : read p = (entry e, q)) :
    e.Shaped := by
  rcases readHeader_cases unheld with
    ⟨header, link, i, m, succeeded, course, -⟩ | ⟨expected, m, failed, -⟩
  · have labelled {a : Attribute} (inside : a ∈ (labelledAll (link.reader m p).freeText.2).1) :=
      of_mem_labelledAll (attached_freeText unheld succeeded) inside
    have declared := declaration_of_read isEntry
    rw [read_of_readHeader_eq succeeded] at isEntry
    obtain ⟨same, -⟩ := Prod.mk.inj isEntry
    obtain rfl := Block.entry.inj same
    refine ⟨course.wellNamed.1, course.wellNamed.2, fun a inside => (labelled inside).1, ?_, ?_⟩
    · intro a inside
      rcases List.mem_cons.1 inside with rfl | inside
      · exact Text.trim_trim _
      · obtain ⟨-, t, value⟩ := labelled inside
        rw [value, Text.trim_trim]
    · intro text given
      rcases declared with none | some
      · rw [none] at given
        cases given
      · rw [some] at given
        obtain rfl := Option.some.inj given
        exact Text.trim_trim _
  · rw [read, failed] at isEntry
    cases isEntry

/-- Whether the block behind an opening is about a subject. -/
def isAbout (s : Subject) (p : Reader) : Bool := (read p).1.subject? == some s

end Block

/-! ## What is recorded -/

namespace Document

variable {d : Document} {s : Subject} {e : Entry} {p q : Reader}

/-- A member that has been mentioned awaits a declaration as long as it has no prototype. -/
theorem awaitsDeclaration_iff (mentioned : d.notes? s ≠ none) :
    d.awaitsDeclaration s = true ↔
      s.IsMember ∧ ∀ a ∈ d.attributesOf s, a.isPrototype = false := by
  obtain ⟨n, known⟩ := Option.ne_none_iff_exists'.1 mentioned
  rw [awaitsDeclaration, item?, attributesOf, known]
  cases s with
  | project => simp [Item.awaitsDeclaration, Subject.IsMember]
  | classNamed name => simp [Item.awaitsDeclaration, Subject.IsMember]
  | member kind owner name =>
    simp [Item.awaitsDeclaration, Notes.attributesNamed, Subject.IsMember, Attribute.isPrototype]

theorem notes?_describe_ne_none (d : Document) (e : Entry) :
    (d.describe e).notes? e.header.subject ≠ none := by
  rw [describe_eq_edit, notes?_edit_self]
  exact Option.some_ne_none _

/-- The segment that is recorded of an entry: the declaration is kept if it is awaited. -/
def segmentOf (d : Document) (e : Entry) : Segment where
  description := e.description
  labelled := e.labelled
  declaration :=
    if (d.describe e).awaitsDeclaration e.header.subject then e.declaration else none

/-- **What is recorded of an entry is one segment**, of its subject alone. -/
theorem attributesOf_recordEntry (d : Document) (e : Entry) (s : Subject) :
    (d.recordEntry e).attributesOf s =
      d.attributesOf s ++ if s = e.header.subject then (d.segmentOf e).attributes else [] := by
  have described : (d.describe e).attributesOf s =
      d.attributesOf s ++ if s = e.header.subject then e.attributes else [] :=
    attributesOf_describe d e s
  rw [recordEntry_eq, segmentOf, Segment.attributes, Segment.written]
  -- Without a declaration it does not matter whether one is awaited.
  cases declaration : e.declaration with
  | none =>
    rw [recordDeclaration, described, ite_self]
    simp [Entry.attributes]
  | some text =>
    rw [recordDeclaration]
    split
    · rw [attributesOf_addAttribute, described, List.append_assoc]
      split
      · rfl
      · rfl
    · rw [described]
      simp [Entry.attributes]

/-- The segment that is recorded of a block is a segment of it. -/
theorem behind_segmentOf (unheld : p.held = none) (isEntry : Block.read p = (.entry e, q)) :
    (d.segmentOf e).Behind e.header.subject (d.attributesOf e.header.subject) p := by
  have shaped := Block.shaped_of_read unheld isEntry
  have described : (d.describe e).attributesOf e.header.subject =
      d.attributesOf e.header.subject ++ (d.segmentOf e).written := by
    have added := attributesOf_describe d e e.header.subject
    rw [Block.attributesFor, if_pos rfl] at added
    exact added
  have awaits := awaitsDeclaration_iff (notes?_describe_ne_none d e)
  rw [described] at awaits
  refine ⟨shaped.words, ?_, ?_⟩
  · intro a inside
    rcases Segment.mem_attributes_iff.1 inside with written | ⟨text, kept, rfl⟩
    · exact shaped.attributes a written
    · rw [segmentOf] at kept
      split at kept
      · exact shaped.declaration text kept
      · cases kept
  · -- The declaration is kept if it is there and awaited, and it is there if the block is closed.
    have closed : (∃ t, Block.ClosedAt p t) ↔ e.declaration.isSome = true :=
      ⟨fun ⟨t, h⟩ => ((Block.closedAt_iff isEntry t).1 h).1,
        fun h => ⟨q, (Block.closedAt_iff isEntry q).2 ⟨h, rfl⟩⟩⟩
    rw [closed, and_left_comm, ← awaits, segmentOf]
    split
    · rename_i wanted
      simp [wanted]
    · rename_i unwanted
      simp [unwanted]

/-- The attributes of all subjects of a document are the segments of blocks, and what has been
mentioned has a proper name. -/
structure Accrues (d : Document) (starts : List Reader) : Prop where
  attributes : ∀ s, Accrued s (starts.filter (Block.isAbout s)) (d.attributesOf s)
  named : ∀ s, d.notes? s ≠ none → s.WellNamed

theorem accrues_empty : empty.Accrues [] where
  attributes s := by cases s <;> exact .none
  named s mentioned := by
    cases s with
    | project => trivial
    | classNamed name => exact absurd rfl mentioned
    | member kind owner name => exact absurd rfl mentioned

/-- An entry brings nothing into a document but its subject, and the class of a member. -/
theorem wellNamed_recordEntry (named : ∀ s, d.notes? s ≠ none → s.WellNamed)
    (proper : e.header.subject.WellNamed) (mentioned : (d.recordEntry e).notes? s ≠ none) :
    s.WellNamed := by
  rw [recordEntry_eq_edit, notes?_edit] at mentioned
  split at mentioned
  · rename_i isSubject
    rw [isSubject]
    exact proper
  · split at mentioned
    · rename_i isClass
      cases subject : e.header.subject with
      | project =>
        rw [subject] at isClass
        cases isClass
      | classNamed name =>
        rw [subject] at isClass
        cases isClass
      | member kind owner name =>
        rw [subject] at isClass proper
        obtain rfl := Option.some.inj isClass
        exact proper.1
    · -- The name of the project is no part of the notes.
      have same : (d.rename e.header).notes? s = d.notes? s := by
        cases e.header <;> cases s <;> rfl
      exact named s (same ▸ mentioned)

/-- **Recording a block adds its segment**, and nothing else. -/
theorem Accrues.record {starts : List Reader} (accrues : d.Accrues starts)
    (unheld : p.held = none) : (d.record (Block.read p).1).Accrues (starts ++ [p]) := by
  cases read : (Block.read p).1 with
  | broken fault =>
    have about (s : Subject) : Block.isAbout s p = false := by
      rw [Block.isAbout, read]
      rfl
    refine ⟨?_, accrues.named⟩
    intro s
    rw [List.filter_append, List.filter_cons_of_neg (by simp [about]), List.filter_nil,
      List.append_nil]
    exact accrues.attributes s
  | entry e =>
    have isEntry : Block.read p = (.entry e, (Block.read p).2) := Prod.ext read rfl
    have about (s : Subject) : Block.isAbout s p = (e.header.subject == s) := by
      rw [Block.isAbout, read]
      rfl
    constructor
    · intro s
      rw [Document.record, attributesOf_recordEntry, List.filter_append]
      by_cases same : s = e.header.subject
      · subst same
        rw [if_pos rfl, List.filter_cons_of_pos (by simp [about]), List.filter_nil]
        exact .block (accrues.attributes _) (behind_segmentOf unheld isEntry)
      · rw [if_neg same, List.filter_cons_of_neg (by simp [about, Ne.symm same]), List.filter_nil,
          List.append_nil, List.append_nil]
        exact accrues.attributes s
    · intro s mentioned
      have shaped := Block.shaped_of_read unheld isEntry
      exact wellNamed_recordEntry accrues.named shaped.subject mentioned

theorem Accrues.foldl_record {starts : List Reader} (accrues : d.Accrues starts)
    {others : List Reader} (unheld : ∀ p ∈ others, p.held = none) :
    ((others.map fun p => (Block.read p).1).foldl Document.record d).Accrues
      (starts ++ others) := by
  induction others generalizing d starts with
  | nil => simpa using accrues
  | cons p others ih =>
    obtain ⟨first, behind⟩ := List.forall_mem_cons.1 unheld
    have more := ih (accrues.record first) behind
    rwa [List.append_assoc, List.singleton_append] at more

/-- **Recording sources adds segments alone**: those of their blocks, in order. -/
theorem accrues_foldl_recordSource (sources : List Text) {starts : List Reader}
    (accrues : d.Accrues starts) :
    (sources.foldl recordSource d).Accrues
      (starts ++ sources.flatMap fun source => Block.starts (.ofSource source)) := by
  induction sources generalizing d starts with
  | nil => simpa using accrues
  | cons source sources ih =>
    have first : (d.recordSource source).Accrues (starts ++ Block.starts (.ofSource source)) := by
      rw [recordSource, Block.ofSource, Block.readAll_eq_map_starts]
      exact accrues.foldl_record fun p started => Block.held_of_mem_starts started
    rw [List.flatMap_cons, ← List.append_assoc]
    exact ih first

/-- The starts of the blocks of sources that are about a subject, in order. -/
def startsAbout (s : Subject) (sources : List Text) : List Reader :=
  (sources.flatMap fun source => Block.starts (.ofSource source)).filter (Block.isAbout s)

/-- No block is about the global class. -/
theorem startsAbout_globalClass (sources : List Text) :
    startsAbout (.classNamed globalClass) sources = [] := by
  apply List.filter_eq_nil_iff.2
  intro p inside about
  obtain ⟨source, -, started⟩ := List.mem_flatMap.1 inside
  have subject : (Block.read p).1.subject? = some (.classNamed globalClass) := beq_iff_eq.1 about
  cases read : (Block.read p).1 with
  | broken fault =>
    rw [read] at subject
    cases subject
  | entry e =>
    rw [read] at subject
    have isEntry : Block.read p = (.entry e, (Block.read p).2) := Prod.ext read rfl
    have shaped := Block.shaped_of_read (Block.held_of_mem_starts started) isEntry
    exact shaped.notGlobal (Option.some.inj subject)

/-- **The shape of everything that is recorded of sources.** The attributes of each item are the
segments of the blocks about it, one after the other. So their values are trimmed, no declaration
stands behind a prototype, and only members have declarations. Members and classes are named by
identifiers, but for the global class, which no block is about and which has no attributes. An
identifier is not empty, starts with no star and is none of the keywords that are given. -/
theorem shape_of_sources (sources : List Text) :
    (∀ s i, (sources.foldl recordSource empty).item? s = some i →
      Accrued s (startsAbout s sources) i.notes.attributes ∧
      (∀ a ∈ i.notes.attributes, a.value.trim = a.value) ∧
      (i.notes.attributes.Pairwise fun a b =>
        a.isPrototype = true → b.keyword ≠ Attribute.declarationKeyword) ∧
      (¬ s.IsMember → ∀ a ∈ i.notes.attributes, a.keyword ≠ Attribute.declarationKeyword) ∧
      (s.IsMember → IsWord i.name) ∧
      (∀ name, s = .classNamed name → name ≠ globalClass → IsWord i.name) ∧
      (s = .classNamed globalClass → i.notes.attributes = [])) ∧
    startsAbout (.classNamed globalClass) sources = [] ∧
    ∀ word, IsWord word → word ≠ [] ∧ word.head? ≠ some '*' ∧
      word ≠ Attribute.descriptionKeyword ∧ word ≠ Attribute.declarationKeyword := by
  have accrues := accrues_foldl_recordSource sources accrues_empty
  rw [List.nil_append] at accrues
  refine ⟨?_, startsAbout_globalClass sources, ?_⟩
  · intro s i found
    obtain ⟨n, known, rfl⟩ := Option.map_eq_some_iff.1 found
    have accrued := accrues.attributes s
    have proper := accrues.named s (by simp [known])
    have same : (sources.foldl recordSource empty).attributesOf s = n.attributes := by
      rw [attributesOf, known]
      rfl
    rw [same] at accrued
    refine ⟨accrued, fun a => accrued.trimmed, accrued.pairwise,
      fun noMember a => accrued.keyword_ne noMember, ?_, ?_, ?_⟩
    · rintro ⟨kind, owner, name, rfl⟩
      exact proper.2
    · rintro name rfl notGlobal
      exact proper.resolve_left notGlobal
    · rintro rfl
      exact accrued.eq_nil (startsAbout_globalClass sources)
  · intro word isWord
    have noStar := isWord.head?_ne_star
    refine ⟨isWord.ne_nil, noStar, ?_, ?_⟩
    · rintro rfl
      exact noStar rfl
    · rintro rfl
      exact noStar rfl

end Document

end Docblock
