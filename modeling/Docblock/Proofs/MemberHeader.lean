import Docblock.Document.Record
import Docblock.Proofs.HeaderCourse
import Docblock.Proofs.Labels
import Docblock.Proofs.Starts

/-!
# Headers of members

The header of a member names its class and the member, and may say which kind of member it is. The
word for the kind is found by its spelling before any name is read. So the member is filed under the
names in the header, unless there is no word for the kind and the class is called like one.

## Main definitions

* `KindWord kind`: a word for a kind of members, in any case of its letters
* `KindSign`: how a header gives the kind of its member
* `MemberHeader`: the header of a member, with the gaps between its lexemes
* `Document.single`: the document with one member

## Main results

* `KindWord.ofWord?_text`: the word for a kind is found by its letters
* `MemberHeader.lexes_text`: the lexemes of a header
* `MemberHeader.filed`: the member is the only one that a document comes to know
-/

namespace Docblock

open Lexeme Reader

/-! ## The words for the kinds of members -/

/-- The words for a kind of members. -/
def MemberKind.words : MemberKind → List Text
  | .function => ["Function".toList, "Member".toList, "Routine".toList]
  | .data => ["Variable".toList]

/-- A word for a kind of members, in any case of its letters. -/
structure KindWord (kind : MemberKind) where
  text : Text
  isWord : ∃ word ∈ kind.words, word.sameIgnoringCase text = true

theorem HeaderKind.ofWord?_congr {word other : Text} (same : word.sameIgnoringCase other = true) :
    ofWord? other = ofWord? word := by
  have letters := Text.sameIgnoringCase_iff.1 same
  have agree (entry : Text) : entry.sameIgnoringCase other = entry.sameIgnoringCase word := by
    rw [Bool.eq_iff_iff, Text.sameIgnoringCase_iff, Text.sameIgnoringCase_iff, letters]
  simp only [ofWord?, agree]

/-- **The word for a kind is found by its letters**, in any case. -/
theorem KindWord.ofWord?_text {kind : MemberKind} (word : KindWord kind) :
    HeaderKind.ofWord? word.text = some (.member kind) := by
  have known : ∀ w ∈ kind.words, HeaderKind.ofWord? w = some (.member kind) := by
    cases kind <;> decide
  obtain ⟨w, inside, same⟩ := word.isWord
  rw [HeaderKind.ofWord?_congr same]
  exact known w inside

/-- A letter is one in either case. -/
theorem starts_and_continues_of_toLower {c : Char}
    (lower : startsIdentifier c.toLower = true ∧ continuesIdentifier c.toLower = true) :
    startsIdentifier c = true ∧ continuesIdentifier c = true := by
  -- The capitals are few enough to be looked through.
  have capital : ∀ n ∈ List.range' 65 26,
      startsIdentifier (Char.ofNat n) = true ∧ continuesIdentifier (Char.ofNat n) = true := by
    decide
  by_cases isCapital : c.val ≥ 'A'.val ∧ c.val ≤ 'Z'.val
  · have from65 : 65 ≤ c.toNat := isCapital.1
    have to90 : c.toNat ≤ 90 := isCapital.2
    have inside := capital c.toNat (List.mem_range'_1.2 ⟨from65, by omega⟩)
    rwa [Char.ofNat_toNat] at inside
  · have same : c.toLower = c := dif_neg isCapital
    rwa [same] at lower

/-- A word for a kind is an identifier. -/
theorem KindWord.exists_identifier {kind : MemberKind} (word : KindWord kind) :
    ∃ w : Identifier, w.text = word.text := by
  have letters : ∀ w ∈ kind.words, w ≠ [] ∧
      w.lowerAscii.all (fun c => startsIdentifier c && continuesIdentifier c) = true := by
    cases kind <;> decide
  obtain ⟨w, inside, same⟩ := word.isWord
  obtain ⟨nonempty, lower⟩ := letters w inside
  simp only [Text.sameIgnoringCase_iff.1 same, List.all_eq_true, Bool.and_eq_true] at lower
  have all : ∀ c ∈ word.text, startsIdentifier c = true ∧ continuesIdentifier c = true :=
    fun c listed => starts_and_continues_of_toLower (lower _ (List.mem_map_of_mem listed))
  cases shape : word.text with
  | nil =>
    -- A word in another case is as long.
    have short := congrArg List.length (Text.sameIgnoringCase_iff.1 same)
    rw [shape, Text.lowerAscii, List.length_map] at short
    exact absurd (List.length_eq_zero_iff.1 short) nonempty
  | cons c others =>
    rw [shape] at all
    have continues : others.all continuesIdentifier = true :=
      List.all_eq_true.2 fun d listed => (all d (List.mem_cons_of_mem c listed)).2
    exact ⟨⟨c, others, (all c List.mem_cons_self).1, continues⟩, rfl⟩

/-! ## The text of a header -/

/-- How a header gives the kind of its member. -/
inductive KindSign where
  /-- Not at all: the member is a function. -/
  | absent
  /-- By a word that a gap parts from the name. -/
  | bare (kind : MemberKind) (word : KindWord kind) (gap : Gap) (apart : gap.chars ≠ [])
  /-- By a word and a colon. -/
  | colon (kind : MemberKind) (word : KindWord kind) (before behind : Gap)

namespace KindSign

/-- The kind that is given. -/
def kind : KindSign → MemberKind
  | absent => .function
  | bare kind _ _ _ => kind
  | colon kind _ _ _ => kind

/-- How it is written. -/
def text : KindSign → Text
  | absent => []
  | bare _ word gap _ => word.text ++ gap.chars
  | colon _ word before behind => word.text ++ (before.chars ++ ':' :: behind.chars)

/-- Its lexemes. -/
def lexemes : KindSign → List Lexeme
  | absent => []
  | bare _ word _ _ => [.identifier word.text]
  | colon _ word _ _ => [.identifier word.text, .colon]

end KindSign

/-- The header of a member, with the gaps between its lexemes. -/
structure MemberHeader where
  front : Gap
  sign : KindSign
  owner : Identifier
  beforeScope : Gap
  behindScope : Gap
  name : Identifier
  back : Gap

namespace MemberHeader

/-- What is written between the opening of the block and its end. -/
def text (h : MemberHeader) : Text :=
  h.front.chars ++ (h.sign.text ++ (h.owner.text ++ (h.beforeScope.chars ++
    (':' :: ':' :: (h.behindScope.chars ++ (h.name.text ++ h.back.chars))))))

/-- A source with a header alone. -/
def source (h : MemberHeader) : Text := opening ++ (h.text ++ closingMark)

/-- The words that stand for a kind of items, in any case of their letters. -/
def reserved : List Text :=
  ["Project".toList, "Class".toList, "Variable".toList, "Function".toList, "Member".toList,
    "Routine".toList]

/-- A class is not called like a kind of items where no word for a kind stands before it. -/
def Unmistakable (h : MemberHeader) : Prop :=
  h.sign = .absent → ∀ word ∈ reserved, word.sameIgnoringCase h.owner.text = false

/-- Only the word `operator` needs a gap in front of the end of the block. -/
def Parted (h : MemberHeader) : Prop := h.back.chars = [] → h.name.text ≠ "operator".toList

end MemberHeader

/-! ## The lexemes of a header -/

/-- **The lexemes for the kind** come first; in front of the name there may be a gap left. -/
theorem KindSign.lexes (sign : KindSign) (w : Identifier) (t : Text) :
    ∃ gap : Gap, Lexes sign.lexemes (sign.text ++ (w.text ++ t)) (gap.chars ++ (w.text ++ t)) := by
  cases sign with
  | absent => exact ⟨.none, .nil⟩
  | bare kind word gap apart =>
    obtain ⟨k, same⟩ := word.exists_identifier
    refine ⟨gap, .cons ?_ .nil⟩
    rw [KindSign.text, ← same, List.append_assoc]
    exact scan_identifier k (k.endsBefore_gap_of_ne_nil apart _)
  | colon kind word before behind =>
    obtain ⟨k, same⟩ := word.exists_identifier
    have alone := startsWithLoneColon_gap behind w t
    refine ⟨behind, .cons (u := before.chars ++ ':' :: (behind.chars ++ (w.text ++ t))) ?_
      (.cons ?_ .nil)⟩
    · rw [KindSign.text, ← same, List.append_assoc, List.append_assoc, List.cons_append]
      exact scan_identifier k (k.endsBefore_gap before (k.endsBefore_cons _ (by decide)))
    · rw [scan_gap]
      exact scan_of_startsWithLoneColon alone

namespace MemberHeader

/-- The name of a member ends before the end of the block. -/
theorem endsBefore_closing {h : MemberHeader} (parted : h.Parted) (t : Text) :
    h.name.EndsBefore (h.back.chars ++ (closingMark ++ t)) := by
  by_cases apart : h.back.chars = []
  · -- The star of the end follows, which is a sign of an operator.
    rw [apart, List.nil_append]
    intro c first
    obtain rfl := Option.some.inj first
    exact ⟨by decide, fun operator => absurd operator (parted apart)⟩
  · exact h.name.endsBefore_gap_of_ne_nil apart _

/-- **The lexemes of a header**: those for the kind, the class, two colons, the member and the end
of the block. -/
theorem lexes_text {h : MemberHeader} (parted : h.Parted) (t : Text) :
    Lexes (h.sign.lexemes ++
      [.identifier h.owner.text, .scope, .identifier h.name.text, .closing])
      (h.text ++ (closingMark ++ t)) t := by
  have ownerEnds {v : Text} : h.owner.EndsBefore (h.beforeScope.chars ++ ':' :: v) :=
    h.owner.endsBefore_gap h.beforeScope (h.owner.endsBefore_cons v (by decide))
  -- Each lexeme is scanned behind the gap in front of it, from the last one to the first.
  have closes : Lexes [.closing] (h.back.chars ++ (closingMark ++ t)) t :=
    .gap h.back (.cons (scan_closing t) .nil) (by simp)
  have named := Lexes.gap h.behindScope
    (.cons (scan_identifier h.name (endsBefore_closing parted t)) closes) (by simp)
  have joined := Lexes.gap h.beforeScope (.cons (scan_scope _) named) (by simp)
  have owned := Lexes.cons (scan_identifier h.owner ownerEnds) joined
  obtain ⟨gap, sign⟩ := h.sign.lexes h.owner _
  have whole := Lexes.gap h.front (sign.append (owned.gap gap (by simp))) (by simp)
  simpa only [text, List.append_assoc, List.cons_append] using whole

/-! ## Reading a header -/

/-- **The kind of a header is read along its lexemes.** -/
theorem taken_kind {h : MemberHeader} (unmistakable : h.Unmistakable) {t u : Text}
    {others : List Lexeme}
    (lexes : Lexes (h.sign.lexemes ++ .identifier h.owner.text :: others) t u) :
    HeaderKind.Taken t (.member h.sign.kind) h.sign.lexemes.length := by
  have unreserved : ∀ {word : Text}, (∀ w ∈ reserved, w.sameIgnoringCase word = false) →
      HeaderKind.ofWord? word = none := by
    intro word different
    rw [HeaderKind.ofWord?, Option.map_eq_none_iff, List.find?_eq_none]
    intro entry inside
    have listed : ∀ e ∈ HeaderKind.words, e.1 ∈ reserved := by decide
    simp [different entry.1 (listed entry inside)]
  cases kind : h.sign with
  | absent =>
    rw [kind] at lexes
    apply HeaderKind.Taken.absent
    intro word first
    have owner : nth 0 t = .identifier h.owner.text := lexes.nth rfl
    rw [owner] at first
    obtain rfl := Lexeme.identifier.inj first
    exact unreserved (unmistakable kind)
  | bare memberKind word gap apart =>
    rw [kind] at lexes
    have second : nth 1 t = .identifier h.owner.text := lexes.nth rfl
    exact .bare (lexes.nth rfl) word.ofWord?_text (by rw [second]; exact Lexeme.noConfusion)
  | colon memberKind word before behind =>
    rw [kind] at lexes
    exact .colon (lexes.nth rfl) word.ofWord?_text (lexes.nth rfl)

/-- **The header is read as it is written**: nothing stands between it and the end of the block. -/
theorem readHeader_text {h : MemberHeader} (unmistakable : h.Unmistakable) (parted : h.Parted)
    {r : Reader} {t : Text} (held : r.held = none) (rest : r.rest = h.text ++ (closingMark ++ t)) :
    Block.readHeader r = .ok (.member h.sign.kind h.owner.text h.name.text, .absent)
      ⟨r.lastLine, t, some .closing⟩ := by
  have lexes := h.lexes_text parted t
  rw [← rest] at lexes
  have taken := taken_kind unmistakable lexes
  obtain ⟨n, length⟩ : ∃ n, h.sign.lexemes.length = n := ⟨_, rfl⟩
  -- The lexemes behind those of the kind are the same for every way to give the kind.
  have behindKind {k : Nat} {x : Lexeme}
      (listed : [.identifier h.owner.text, .scope, .identifier h.name.text, .closing][k]? =
        some x) : nth (n + k) r.rest = x := by
    refine lexes.nth ?_
    rw [← length, List.getElem?_append_right (Nat.le_add_right _ k), Nat.add_sub_cancel_left]
    exact listed
  have closes : nth (n + 3) r.rest = .closing := behindKind rfl
  have named : Header.Named r.rest n h.owner.text h.name.text (n + 3) :=
    .owned (behindKind (k := 0) rfl) (behindKind (k := 1) rfl) (behindKind (k := 2) rfl)
  have course : Header.Course r.rest (.member h.sign.kind h.owner.text h.name.text) (n + 3) := by
    rw [length] at taken
    cases kind : h.sign.kind with
    | function =>
      rw [kind] at taken
      exact .function taken named (by rw [closes]; decide)
    | data =>
      rw [kind] at taken
      exact .data taken named
  obtain ⟨link, m, read, linkCourse⟩ := Block.readHeader_of_course held course
  have noHash : nth (n + 3) r.rest ≠ .hash := by
    rw [closes]
    decide
  cases linkCourse with
  | absent _ =>
    have behindAll : behind (n + 4) r.rest = t := by
      have whole := lexes.behind
      rwa [List.length_append, length] at whole
    rw [read, ← behindAll, ← closes]
    rfl
  | given first _ => exact absurd first noHash
  | faulty first _ _ => exact absurd first noHash

end MemberHeader

/-! ## A document with one member -/

namespace Document

variable {kind : MemberKind} {owner name : Text}

/-- The document that knows one member, and its class by name. -/
def single (kind : MemberKind) (owner name : Text) (notes : Notes) : Document :=
  { classes := ⟨[(owner, (ClassNotes.named owner).setMembers
      ⟨[(name, notes)], List.pairwise_singleton _ _⟩ kind)], List.pairwise_singleton _ _⟩ }

theorem edit_empty (f : Notes → Notes) :
    empty.edit (.member kind owner name) f = single kind owner name (f (.named name)) := by
  cases kind <;> rfl

theorem edit_single (notes : Notes) (f : Notes → Notes) :
    (single kind owner name notes).edit (.member kind owner name) f =
      single kind owner name (f notes) := by
  cases kind <;>
    simp [edit, single, Catalog.update, Catalog.put, Key.before_irrefl, ClassNotes.editMember,
      ClassNotes.members, ClassNotes.setMembers]

theorem notes?_single (notes : Notes) :
    (single kind owner name notes).notes? (.member kind owner name) = some notes := by
  cases kind <;>
    simp [notes?, single, Catalog.get?, Catalog.find, Key.before_irrefl, ClassNotes.members,
      ClassNotes.setMembers]

/-- What a block without a word behind its header says of a member. -/
theorem recordEntry_empty {e : Entry} (header : e.header = .member kind owner name)
    (link : e.link = .absent) (attributes : e.attributes = [⟨Attribute.descriptionKeyword, []⟩])
    (declaration : e.declaration = some []) :
    empty.recordEntry e = single kind owner name
      ⟨name, [⟨Attribute.descriptionKeyword, []⟩, ⟨Attribute.declarationKeyword, []⟩]⟩ := by
  -- The member is met, its link is its name, and the description is empty.
  have described : ((empty.meet e.header).recordLink e.header.subject e.link).addAttributes
      e.header.subject e.attributes = single kind owner name
        ⟨name, [⟨Attribute.descriptionKeyword, []⟩]⟩ := by
    rw [header, link, attributes]
    simp only [meet, mention, Header.subject, edit_empty, recordLink, resetLink, setLink,
      edit_single, addAttributes, List.foldl_cons, List.foldl_nil, addAttribute]
    rfl
  have awaits : (single kind owner name ⟨name,
      [⟨Attribute.descriptionKeyword, []⟩]⟩).awaitsDeclaration (.member kind owner name) := by
    rw [awaitsDeclaration, item?, notes?_single]
    rfl
  simp only [recordEntry, described]
  rw [header, declaration, Header.subject, recordDeclaration, if_pos awaits, addAttribute,
    edit_single]
  rfl

end Document

/-! ## Where a member is filed -/

namespace MemberHeader

/-- The member of a header, with nothing in its block. -/
def item (h : MemberHeader) : Item :=
  { subject := .member h.sign.kind h.owner.text h.name.text
    name := h.name.text
    notes :=
      { link := h.name.text
        attributes :=
          [⟨Attribute.descriptionKeyword, []⟩, ⟨Attribute.declarationKeyword, []⟩] } }

/-- The class of a header, with the member alone. -/
def listing (h : MemberHeader) : Listing :=
  { item := ⟨.classNamed h.owner.text, h.owner.text, .named h.owner.text⟩
    functions := if h.sign.kind = .function then [h.item] else []
    data := if h.sign.kind = .data then [h.item] else [] }

/-- A source with a header alone has one block, with nothing but the header in it. -/
theorem ofSource_source {h : MemberHeader} (unmistakable : h.Unmistakable) (parted : h.Parted) :
    ∃ line, Block.ofSource h.source = [.entry
      { line
        header := .member h.sign.kind h.owner.text h.name.text
        link := .absent
        description := []
        labelled := []
        fault := none
        declaration := some [] }] := by
  let r : Reader := ⟨(Reader.ofSource h.source).lastLine, h.text ++ (closingMark ++ []), none⟩
  have first : (Reader.ofSource h.source).firstStart? = some r := by
    have found : behindFirst opening h.source = some (h.text ++ (closingMark ++ [])) :=
      (behindFirst_eq_some_iff (by decide)).2
        ⟨[], by rw [source, List.append_nil, List.nil_append], not_begins_nil _ _⟩
    rw [Reader.firstStart?, Reader.ofSource_rest, found]
    rfl
  have header := readHeader_text unmistakable parted (r := r) rfl rfl
  have read := Block.read_of_readHeader_eq header
  rw [Block.readBody_of_closing rfl] at read
  exact ⟨r.line, Block.ofSource_eq_singleton first read rfl⟩

/-- **A member is filed under the names in its header**: of a source with that header alone a
document comes to know the class with that member, and nothing is missing. -/
theorem filed (h : MemberHeader) (unmistakable : h.Unmistakable) (parted : h.Parted) :
    sourceFaults h.source = [] ∧
      (Document.empty.recordSource h.source).projectItem = Document.empty.projectItem ∧
      (Document.empty.recordSource h.source).listings = [h.listing] := by
  obtain ⟨line, blocks⟩ := ofSource_source unmistakable parted
  refine ⟨?_, ?_⟩
  · rw [sourceFaults, blocks]
    rfl
  · rw [Document.recordSource, blocks, List.foldl_cons, List.foldl_nil, Document.record,
      Document.recordEntry_empty rfl rfl rfl rfl]
    refine ⟨rfl, ?_⟩
    cases kind : h.sign.kind <;> simp [listing, item, kind] <;> rfl

/-- A member of a class that is called like a kind of items, behind a word for its kind. -/
def operatorOfClass : MemberHeader where
  front := .space
  sign :=
    .bare .function ⟨"mEmBeR".toList, "Member".toList, by decide, by decide⟩ .space (by decide)
  owner := ⟨'C', "lass".toList, by decide, by decide⟩
  beforeScope := .none
  behindScope := .space
  name := ⟨'o', "perator".toList, by decide, by decide⟩
  back := .space

/-- Behind a word for the kind neither names nor letters are mistaken. -/
theorem filed_operatorOfClass :
    operatorOfClass.source = "/*: mEmBeR Class:: operator */".toList ∧
      operatorOfClass.Unmistakable ∧ operatorOfClass.Parted ∧
      sourceFaults operatorOfClass.source = [] ∧
      (Document.empty.recordSource operatorOfClass.source).projectItem =
        Document.empty.projectItem ∧
      (Document.empty.recordSource operatorOfClass.source).listings =
        [operatorOfClass.listing] := by
  have unmistakable : operatorOfClass.Unmistakable := fun absent => nomatch absent
  have parted : operatorOfClass.Parted := fun joined => nomatch joined
  exact ⟨rfl, unmistakable, parted, filed operatorOfClass unmistakable parted⟩

/-- A member of a class that is called like a kind of items. -/
def sizeOfMember : MemberHeader where
  front := .space
  sign := .absent
  owner := ⟨'M', "ember".toList, by decide, by decide⟩
  beforeScope := .none
  behindScope := .none
  name := ⟨'s', "ize".toList, by decide, by decide⟩
  back := .space

/-- **The name of the class is taken for the kind** where no word for the kind stands before it, and
the member is filed under the global class. -/
theorem not_filed_sizeOfMember :
    sizeOfMember.source = "/*: Member::size */".toList ∧ sizeOfMember.Parted ∧
      (Document.empty.recordSource sizeOfMember.source).listings ≠ [sizeOfMember.listing] := by
  refine ⟨rfl, (fun joined => nomatch joined), ?_⟩
  intro same
  let r : Reader := ⟨1, " Member::size */".toList, none⟩
  have header : Block.readHeader r = .ok (.member .function globalClass "size".toList, .absent)
      ⟨1, [], some .closing⟩ := rfl
  have read := Block.read_of_readHeader_eq header
  rw [Block.readBody_of_closing rfl] at read
  have first : (Reader.ofSource sizeOfMember.source).firstStart? = some r := rfl
  rw [Document.recordSource, Block.ofSource_eq_singleton first read rfl, List.foldl_cons,
    List.foldl_nil, Document.record, Document.recordEntry_empty rfl rfl rfl rfl] at same
  have names := congrArg (List.map fun listing : Listing => listing.item.name) same
  exact absurd names (by decide)

end MemberHeader

end Docblock
