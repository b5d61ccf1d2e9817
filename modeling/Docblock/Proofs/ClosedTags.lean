import Docblock.Proofs.Labels
import Docblock.Proofs.PagePieces

/-!
# Pages with closed tags

Prose and titles stand in a page as they are given, so the tags of a page are closed only if theirs
are. A paragraph mark is put into prose where lines are blank, which is in no tag if no tag goes
over the end of a line. A title is the first sentence of a description, and the full stop may be one
in a tag, such as that of a file name in a reference. Then the page shows a tag that is cut off; it
is the only way in which tidy prose makes a page with an open tag.

## Main definitions

* `TagsInLine`: no tag goes over the end of a line
* `StopsInTag`: the first full stop of a text stands in a tag
* `Document.Tidy`: all prose of a document has closed tags, each in one line
* `Item.CutsTag`: the title of an item ends in a tag

## Main results

* `tagClosed_prose`: paragraph marks cut no tags
* `tagClosed_firstSentence_iff`: the first sentence cuts a tag if the first full stop stands in it
* `tagClosed_pages_of_sources`: which pages of sources have closed tags
* `not_tagClosed_reference`: a reference to a file in a first sentence is cut off
-/

namespace Docblock

namespace Markup

variable {s t : Text} {c : Char}

/-! ## Paragraphs -/

/-- No tag goes over the end of a line. -/
def TagsInLine (t : Text) : Prop :=
  ∀ front inner rest, t = front ++ '<' :: (inner ++ '>' :: rest) → '>' ∉ inner → '\n' ∉ inner

/-- A tag that is open in front of a text is closed by it in the same line. -/
def ClosesInLine (t : Text) : Prop :=
  ∃ inner rest, t = inner ++ '>' :: rest ∧ '<' ∉ inner ∧ '\n' ∉ inner

/-- Where closed tags go over no end of a line, each one is closed in its line. -/
theorem closesInLine_of_tagsInLine (closed : TagClosed t) (inLine : TagsInLine t)
    {front behind : Text} (whole : t = front ++ '<' :: behind) : ClosesInLine behind := by
  have closes := closed front behind whole
  obtain ⟨inner, rest, rfl, first⟩ := List.eq_append_cons_of_mem closes.mem
  have outside : '<' ∉ inner := by
    rcases closes_append_iff.1 closes with early | ⟨outside, -⟩
    · exact absurd early.mem first
    · exact outside
  exact ⟨inner, rest, rfl, outside, inLine front inner rest whole first⟩

/-- Paragraphs with a mark between them. -/
def joined (paragraphs : List Text) : Text := List.intercalate "\n<p>\n".toList paragraphs

theorem joined_consFirst (c : Char) (paragraphs : List Text) :
    joined (consFirst c paragraphs) = c :: joined paragraphs := by
  cases paragraphs with
  | nil => rfl
  | cons p others => cases others <;> rfl

theorem joined_nil_cons {paragraphs : List Text} (some : paragraphs ≠ []) :
    joined ([] :: paragraphs) = "\n<p>\n".toList ++ joined paragraphs := by
  obtain ⟨p, others, rfl⟩ := List.exists_cons_of_ne_nil some
  rfl

theorem paragraphsFrom_ne_nil (inGap : Bool) (t : Text) : paragraphsFrom inGap t ≠ [] := by
  have consFirst_ne_nil (c : Char) (ps : List Text) : consFirst c ps ≠ [] := by
    cases ps with
    | nil => exact List.cons_ne_nil _ _
    | cons p ps => exact List.cons_ne_nil _ _
  induction t generalizing inGap with
  | nil => exact List.cons_ne_nil _ _
  | cons c t ih =>
    rw [paragraphsFrom]
    split
    · split
      · exact ih true
      · exact consFirst_ne_nil c _
    · split
      · exact List.cons_ne_nil _ _
      · exact consFirst_ne_nil c _

/-- A gap starts with a line feed, or with a carriage return in front of one. -/
theorem startsWithGap_cons (starts : startsWithGap (c :: t) = true) :
    c = '\n' ∨ c = '\r' ∧ t.head? = some '\n' := by
  unfold startsWithGap at starts
  split at starts
  · rename_i same
    exact Or.inl (List.cons.inj same).1
  · rename_i same
    obtain ⟨rfl, rfl⟩ := List.cons.inj same
    exact Or.inr ⟨rfl, rfl⟩
  · exact nomatch starts

/-- **No paragraph mark is put into a tag** that is closed in its line. -/
theorem closes_joined (closes : ClosesInLine t) : Closes (joined (paragraphsFrom false t)) := by
  obtain ⟨inner, rest, rfl, noStart, noBreak⟩ := closes
  induction inner with
  | nil =>
    have noGap : startsWithGap ('>' :: rest) = false := rfl
    rw [List.nil_append, paragraphsFrom, if_neg Bool.false_ne_true, noGap,
      if_neg Bool.false_ne_true, joined_consFirst]
    exact closes_cons_iff.2 (Or.inl rfl)
  | cons c inner ih =>
    rw [List.mem_cons, not_or] at noStart noBreak
    have noGap : ¬ startsWithGap (c :: (inner ++ '>' :: rest)) = true := by
      intro starts
      rcases startsWithGap_cons starts with rfl | ⟨-, follows⟩
      · exact noBreak.1 rfl
      · cases inner with
        | nil => exact nomatch follows
        | cons c' inner =>
          obtain rfl : c' = '\n' := Option.some.inj follows
          exact noBreak.2 List.mem_cons_self
    rw [List.cons_append, paragraphsFrom, if_neg Bool.false_ne_true, if_neg noGap, joined_consFirst]
    exact closes_cons_iff.2 (Or.inr ⟨Ne.symm noStart.1, ih noStart.2 noBreak.2⟩)

theorem tagClosed_joined
    (inLine : ∀ front behind, t = front ++ '<' :: behind → ClosesInLine behind) (inGap : Bool) :
    TagClosed (joined (paragraphsFrom inGap t)) := by
  induction t generalizing inGap with
  | nil => exact tagClosed_nil
  | cons c t ih =>
    have others (inGap : Bool) : TagClosed (joined (paragraphsFrom inGap t)) := by
      refine ih (fun front behind whole => ?_) inGap
      exact inLine (c :: front) behind (congrArg (c :: ·) whole)
    have more : TagClosed (joined (consFirst c (paragraphsFrom false t))) := by
      rw [joined_consFirst]
      refine tagClosed_cons_iff.2 ⟨?_, others false⟩
      rintro rfl
      exact closes_joined (inLine [] t rfl)
    rw [paragraphsFrom]
    split
    · split
      · exact others true
      · exact more
    · split
      · have mark : TagClosed "\n<p>\n".toList := by decide
        rw [joined_nil_cons (paragraphsFrom_ne_nil _ _)]
        exact mark.append (others true)
      · exact more

/-- **Prose with closed tags stays so** when its gaps are replaced by paragraph marks. -/
theorem tagClosed_prose (trimmed : t.trim = t) (closed : TagClosed t) (inLine : TagsInLine t) :
    TagClosed (prose t) := by
  rw [prose, trimmed]
  exact tagClosed_joined (fun _ _ => closesInLine_of_tagsInLine closed inLine) false

/-! ## First sentences -/

/-- The first full stop of a text stands in a tag. -/
def StopsInTag (t : Text) : Prop :=
  ∃ front inner rest, t = front ++ '<' :: (inner ++ '.' :: rest) ∧
    '.' ∉ front ∧ '.' ∉ inner ∧ '>' ∉ inner

theorem firstSentence_of_notMem (none : '.' ∉ t) : Item.firstSentence t = t := by
  induction t with
  | nil => rfl
  | cons c t ih =>
    rw [List.mem_cons, not_or] at none
    have other : ¬ (c == '.') = true := fun same => none.1 (beq_iff_eq.1 same).symm
    rw [Item.firstSentence, if_neg other, ih none.2]

theorem firstSentence_append (none : '.' ∉ s) (t : Text) :
    Item.firstSentence (s ++ '.' :: t) = s ++ ['.'] := by
  induction s with
  | nil => rfl
  | cons c s ih =>
    rw [List.mem_cons, not_or] at none
    have other : ¬ (c == '.') = true := fun same => none.1 (beq_iff_eq.1 same).symm
    rw [List.cons_append, Item.firstSentence, if_neg other, ih none.2, List.cons_append]

/-- A text has its first full stop in one place. -/
theorem stopsInTag_append_iff (none : '.' ∉ s) :
    StopsInTag (s ++ '.' :: t) ↔ ∃ front inner, s = front ++ '<' :: inner ∧ '>' ∉ inner := by
  constructor
  · rintro ⟨front, inner, rest, whole, noFront, noInner, noEnd⟩
    rw [← List.cons_append, ← List.append_assoc] at whole
    have noStop : '.' ∉ front ++ '<' :: inner := by simp [noFront, noInner]
    have same := congrArg Item.firstSentence whole
    rw [firstSentence_append none, firstSentence_append noStop] at same
    obtain rfl := List.append_cancel_right same
    exact ⟨front, inner, rfl, noEnd⟩
  · rintro ⟨front, inner, rfl, noEnd⟩
    rw [List.mem_append, List.mem_cons, not_or, not_or] at none
    exact ⟨front, inner, t, by simp, none.1, none.2.2, noEnd⟩

/-- **The first sentence cuts a tag** exactly if its full stop stands in one. -/
theorem tagClosed_firstSentence_iff (closed : TagClosed t) :
    TagClosed (Item.firstSentence t) ↔ ¬ StopsInTag t := by
  by_cases stop : '.' ∈ t
  · obtain ⟨s, rest, rfl, none⟩ := List.eq_append_cons_of_mem stop
    rw [firstSentence_append none, stopsInTag_append_iff none]
    constructor
    · rintro cut ⟨front, inner, rfl, noEnd⟩
      have ends := (cut front (inner ++ ['.']) (by simp)).mem
      simp [noEnd] at ends
    · intro notInTag front behind whole
      -- The tag starts in front of the full stop, and it ends there as well.
      rcases List.eq_nil_or_concat behind with rfl | ⟨inner, c, rfl⟩
      · have last := congrArg List.getLast? whole
        simp at last
      · rw [List.concat_eq_append, ← List.cons_append, ← List.append_assoc] at whole
        obtain ⟨rfl, -⟩ := List.append_inj' whole rfl
        have ends : '>' ∈ inner := by
          by_contra noEnd
          exact notInTag ⟨front, inner, rfl, noEnd⟩
        have closes : Closes (inner ++ '.' :: rest) := closed front _ (by simp)
        rw [List.concat_eq_append]
        refine closes_append_iff.2 (Or.inl ?_)
        rcases closes_append_iff.1 closes with early | ⟨noStart, -⟩
        · exact early
        · exact closes_of_mem ends noStart
  · have notInTag : ¬ StopsInTag t := by
      rintro ⟨front, inner, rest, rfl, -⟩
      simp at stop
    rw [firstSentence_of_notMem stop]
    exact iff_of_true closed notInTag

theorem tagsInLine_of_notMem (oneLine : '\n' ∉ t) : TagsInLine t := by
  rintro front inner rest rfl -
  simp only [List.mem_append, List.mem_cons, not_or] at oneLine
  exact oneLine.2.2.1

end Markup

open Markup Html

/-! ## Tidy items -/

/-- Whether an attribute is a prototype or the declaration behind a block. -/
def Attribute.isDeclaration (a : Attribute) : Bool := Section.hasOneOf Section.declarationKeywords a

/-- The title of an item is the first sentence of its first attribute, and ends in a tag. -/
def Item.CutsTag (i : Item) : Prop :=
  i.notes.attributesNamed "Title".toList = [] ∧
    ∃ a others, i.notes.attributes = a :: others ∧ StopsInTag a.value

/-- The prose of an item is trimmed, its tags are closed and go over no end of a line; and what
comes first is prose. -/
structure Item.Tidy (i : Item) : Prop where
  trimmed : ∀ a ∈ i.notes.attributes, a.value.trim = a.value
  prose : ∀ a ∈ i.notes.attributes, a.isDeclaration = false →
    TagClosed a.value ∧ TagsInLine a.value
  starts : ∀ a ∈ i.notes.attributes.head?, a.isDeclaration = false

/-- An attribute with another keyword is no declaration. -/
theorem isDeclaration_eq_false {a : Attribute} {keyword : Text} (has : a.hasKeyword keyword = true)
    (other : ∀ k ∈ Section.declarationKeywords, k.lowerAscii ≠ keyword.lowerAscii) :
    a.isDeclaration = false := by
  refine List.any_eq_false.2 fun k declares hasToo => other k declares ?_
  exact (Text.sameIgnoringCase_iff.1 hasToo).symm.trans (Text.sameIgnoringCase_iff.1 has)

namespace Item.Tidy

variable {i : Item}

theorem tagClosed_prose (tidy : i.Tidy) {a : Attribute} (inside : a ∈ i.notes.attributes)
    (isProse : a.isDeclaration = false) : TagClosed (Markup.prose a.value) := by
  obtain ⟨closed, inLine⟩ := tidy.prose a inside isProse
  exact Markup.tagClosed_prose (tidy.trimmed a inside) closed inLine

/-- **The section of a tidy item** gives prose with closed tags alone. -/
theorem tagClosed_given (tidy : i.Tidy) {t : Text} (given : t ∈ (Section.ofItem i).given) :
    TagClosed t := by
  rcases List.mem_append.1 given with description | other
  · obtain ⟨value, isValue, rfl⟩ := List.mem_map.1 description
    obtain ⟨keyword, isKeyword, isValue⟩ := List.mem_flatMap.1 isValue
    obtain ⟨a, named, rfl⟩ := List.mem_map.1 (List.mem_filter.1 isValue).1
    obtain ⟨inside, has⟩ := List.mem_filter.1 named
    have differ : ∀ keyword ∈ Section.descriptionKeywords, ∀ k ∈ Section.declarationKeywords,
        k.lowerAscii ≠ keyword.lowerAscii := by decide
    exact tidy.tagClosed_prose inside (isDeclaration_eq_false has (differ keyword isKeyword))
  · obtain ⟨a, isOther, rfl⟩ := List.mem_map.1 other
    obtain ⟨inside, others⟩ := List.mem_filter.1 isOther
    refine tidy.tagClosed_prose inside ?_
    rw [Section.hasOneOf, List.any_append, Bool.not_eq_true', Bool.or_eq_false_iff] at others
    exact others.1

/-- **The title of a tidy item** has closed tags unless it ends in one. -/
theorem tagClosed_title_iff (tidy : i.Tidy) : TagClosed i.title ↔ ¬ i.CutsTag := by
  unfold Item.title Item.CutsTag
  split
  · rename_i a others titles
    have isTitle : a ∈ i.notes.attributesNamed "Title".toList := titles ▸ List.mem_cons_self
    obtain ⟨inside, has⟩ := List.mem_filter.1 isTitle
    have isProse := isDeclaration_eq_false has (by decide)
    refine iff_of_true (tidy.prose a inside isProse).1 ?_
    rintro ⟨noTitle, -⟩
    exact List.cons_ne_nil _ _ (titles.symm.trans noTitle)
  · rename_i a others noTitle attributes
    have first : a ∈ i.notes.attributes.head? := by rw [attributes]; rfl
    have inside : a ∈ i.notes.attributes := attributes ▸ List.mem_cons_self
    rw [tagClosed_firstSentence_iff (tidy.prose a inside (tidy.starts a first)).1]
    refine not_congr ⟨fun stops => ⟨noTitle, a, others, attributes, stops⟩, ?_⟩
    rintro ⟨-, a', others', same, stops⟩
    obtain ⟨rfl, -⟩ := List.cons.inj (attributes.symm.trans same)
    exact stops
  · rename_i noTitle noAttribute
    refine iff_of_true tagClosed_nil ?_
    rintro ⟨-, a, others, attributes, -⟩
    exact List.cons_ne_nil _ _ (attributes.symm.trans noAttribute)

end Item.Tidy

/-! ## Pages of tidy documents -/

/-- What comes first of an item is the description in front of the labels of a block. -/
theorem Accrued.keyword_head {s : Subject} {starts : List Reader} {attributes : List Attribute}
    (accrued : Accrued s starts attributes) :
    ∀ a ∈ attributes.head?, a.keyword = Attribute.descriptionKeyword := by
  induction accrued with
  | none => exact fun a inside => nomatch inside
  | @block starts before p g earlier segment ih =>
    intro a inside
    cases before with
    | nil =>
      obtain rfl := Option.some.inj inside
      rfl
    | cons b before => exact ih a inside

namespace Document

/-- All prose of a document has closed tags that go over no end of a line. -/
def Tidy (d : Document) : Prop :=
  ∀ s i, d.item? s = some i → ∀ a ∈ i.notes.attributes, a.isDeclaration = false →
    TagClosed a.value ∧ TagsInLine a.value

/-- The items of a tidy document of sources are tidy. -/
theorem tidy_of_item? {sources : List Text} {s : Subject} {i : Item}
    (tidy : (sources.foldl recordSource empty).Tidy)
    (found : (sources.foldl recordSource empty).item? s = some i) : i.Tidy := by
  obtain ⟨starts, accrued⟩ : ∃ starts, Accrued s starts i.notes.attributes := by
    have all := (accrues_foldl_recordSource sources accrues_empty).attributes s
    obtain ⟨n, known, rfl⟩ := Option.map_eq_some_iff.1 found
    rw [attributesOf, known] at all
    exact ⟨_, all⟩
  refine ⟨fun a => accrued.trimmed, tidy s i found, fun a first => ?_⟩
  have keyword := accrued.keyword_head a first
  have has : a.hasKeyword Attribute.descriptionKeyword = true := by
    rw [Attribute.hasKeyword, keyword, Text.sameIgnoringCase_self]
  exact isDeclaration_eq_false has (by decide)

end Document

namespace Html

open Document

variable {title : Text} {parts : List Part} {shown listed : List Item}

/-- **A page of tidy items** has closed tags exactly if no title in its rows ends in one. -/
theorem tagClosed_renderPage_iff_of_tidy (tidyShown : ∀ i ∈ shown, i.Tidy)
    (tidyListed : ∀ i ∈ listed, i.Tidy)
    (shows : sections parts = shown.map .ofItem)
    (lists : (parts.flatMap Part.rows).map (·.title) = listed.map Item.title) :
    TagClosed (renderPage title parts) ↔ ∀ i ∈ listed, ¬ i.CutsTag := by
  have prose : ∀ s ∈ sections parts, ∀ t ∈ s.given, TagClosed t := by
    intro s inside t given
    rw [shows] at inside
    obtain ⟨i, isShown, rfl⟩ := List.mem_map.1 inside
    exact (tidyShown i isShown).tagClosed_given given
  have titles : (∀ row ∈ parts.flatMap Part.rows, TagClosed row.title) ↔
      ∀ i ∈ listed, TagClosed i.title := by
    rw [← List.forall_mem_map (f := fun row : Row => row.title) (P := TagClosed), lists,
      List.forall_mem_map]
  rw [tagClosed_renderPage_iff, forall_mem_given_iff, and_iff_right prose, titles]
  exact forall₂_congr fun i isListed => (tidyListed i isListed).tagClosed_title_iff

variable {d : Document} {l : Listing}

/-- **The index of a tidy document** has closed tags exactly if the titles of the classes and of the
global members have. -/
theorem tagClosed_indexPage_iff (tidy : ∀ i ∈ shownItems d, i.Tidy) :
    TagClosed (indexPage d).contents ↔
      ∀ i ∈ (namedClasses d).map (·.item) ++ globalItems d, ¬ i.CutsTag := by
  have classes : (classPages d).map (fun page => (classRow page).title) =
      (namedClasses d).map (·.item.title) := by
    rw [← map_fst_classPages d, List.map_map]
    rfl
  have globals : (globalParts d).flatMap Part.rows = (globalItems d).map memberRow := by
    unfold globalParts globalItems
    cases d.listing? globalClass with
    | none => rfl
    | some l => exact rows_memberParts l
  refine tagClosed_renderPage_iff_of_tidy ?_ ?_ (sections_indexParts d) ?_
  · intro i inside
    refine tidy i ?_
    rcases List.mem_cons.1 inside with rfl | inside
    · exact List.mem_cons_self
    · exact List.mem_cons_of_mem _ (List.mem_append_left _ inside)
  · intro i inside
    refine tidy i (List.mem_cons_of_mem _ ?_)
    rcases List.mem_append.1 inside with isClass | isGlobal
    · obtain ⟨l, named, rfl⟩ := List.mem_map.1 isClass
      exact List.mem_append_right _ (List.mem_flatMap.2 ⟨l, named, List.mem_cons_self⟩)
    · exact List.mem_append_left _ isGlobal
  · have rows : (indexParts d).flatMap Part.rows =
        (classPages d).map classRow ++ (globalItems d).map memberRow := by
      simp [indexParts, rows_classIndex, globals, Part.rows]
    rw [rows, List.map_append, List.map_append, List.map_map, List.map_map, List.map_map]
    exact congrArg (· ++ _) classes

/-- **The page of a class of a tidy document** has closed tags exactly if the titles of its members
have. -/
theorem tagClosed_classPage_iff (tidy : ∀ i ∈ l.items, i.Tidy) (name : Text) :
    TagClosed (classPage (l, name)).contents ↔ ∀ i ∈ l.functions ++ l.data, ¬ i.CutsTag := by
  have members := fun i inside => tidy i (List.mem_cons_of_mem l.item inside)
  refine tagClosed_renderPage_iff_of_tidy tidy members (sections_classParts l) ?_
  have rows : (classParts l).flatMap Part.rows = (l.functions ++ l.data).map memberRow :=
    rows_memberParts l
  rw [rows, List.map_map]
  rfl

/-- What the pages show besides the project. -/
theorem mem_shownItems_tail_iff {i : Item} :
    i ∈ globalItems d ++ (namedClasses d).flatMap Listing.items ↔
      ∃ s, s ≠ .project ∧ s ≠ .classNamed globalClass ∧ d.item? s = some i := by
  have differs := (List.pairwise_cons.1 (pairwise_shownItems d)).1
  constructor
  · intro inside
    obtain ⟨s, notGlobal, found⟩ := mem_shownItems_iff.1 (List.mem_cons_of_mem _ inside)
    refine ⟨s, ?_, notGlobal, found⟩
    rintro rfl
    obtain rfl : d.projectItem = i := Option.some.inj found
    exact differs _ inside rfl
  · rintro ⟨s, notProject, notGlobal, found⟩
    rcases List.mem_cons.1 (mem_shownItems_iff.2 ⟨s, notGlobal, found⟩) with rfl | inside
    · obtain ⟨n, -, same⟩ := Option.map_eq_some_iff.1 found
      exact absurd (congrArg Item.subject same) notProject
    · exact inside

/-- The rows of all pages show what the pages show in sections, but for the project. -/
theorem forall_rows_iff {P : Item → Prop} :
    ((∀ i ∈ (namedClasses d).map (·.item) ++ globalItems d, P i) ∧
        ∀ page ∈ classPages d, ∀ i ∈ page.1.functions ++ page.1.data, P i) ↔
      ∀ i ∈ globalItems d ++ (namedClasses d).flatMap Listing.items, P i := by
  have members : (∀ page ∈ classPages d, ∀ i ∈ page.1.functions ++ page.1.data, P i) ↔
      ∀ l ∈ namedClasses d, ∀ i ∈ l.functions ++ l.data, P i := by
    rw [← map_fst_classPages d, List.forall_mem_map]
  rw [members, List.forall_mem_append, List.forall_mem_append, List.forall_mem_map]
  constructor
  · rintro ⟨⟨classes, globals⟩, members⟩
    refine ⟨globals, fun i inside => ?_⟩
    obtain ⟨l, named, inside⟩ := List.mem_flatMap.1 inside
    rcases List.mem_cons.1 inside with rfl | isMember
    · exact classes l named
    · exact members l named i isMember
  · rintro ⟨globals, inClasses⟩
    refine ⟨⟨fun l named => ?_, globals⟩, fun l named i isMember => ?_⟩
    · exact inClasses _ (List.mem_flatMap.2 ⟨l, named, List.mem_cons_self⟩)
    · exact inClasses i (List.mem_flatMap.2 ⟨l, named, List.mem_cons_of_mem _ isMember⟩)

/-- Nothing is known of the global class, so there is nothing to cut. -/
theorem not_cutsTag_globalClass (sources : List Text) {i : Item}
    (found : (sources.foldl recordSource empty).item? (.classNamed globalClass) = some i) :
    ¬ i.CutsTag := by
  obtain ⟨n, known, rfl⟩ := Option.map_eq_some_iff.1 found
  rintro ⟨-, a, others, attributes, -⟩
  have nothing := attributesOf_globalClass sources
  rw [attributesOf, known] at nothing
  exact List.cons_ne_nil _ _ (attributes.symm.trans nothing)

theorem tidy_of_mem_shownItems {sources : List Text} {i : Item}
    (tidy : (sources.foldl recordSource empty).Tidy)
    (shown : i ∈ shownItems (sources.foldl recordSource empty)) : i.Tidy := by
  obtain ⟨s, -, found⟩ := mem_shownItems_iff.1 shown
  exact tidy_of_item? tidy found

/-- **The pages of sources have closed tags** if their prose has and no title ends in a tag. Names,
keywords and declarations do not matter, and neither does where the prose stands. The index shows
the titles of the classes and of the global members, and the page of a class those of its members; a
page has an open tag exactly if one of its titles ends in one. Over all pages these are the titles
of all items but the project. -/
theorem tagClosed_pages_of_sources (sources : List Text)
    (tidy : (sources.foldl recordSource empty).Tidy) :
    let d := sources.foldl recordSource empty
    (TagClosed (indexPage d).contents ↔
        ∀ i ∈ (namedClasses d).map (·.item) ++ globalItems d, ¬ i.CutsTag) ∧
      (∀ page ∈ classPages d, TagClosed (classPage page).contents ↔
        ∀ i ∈ page.1.functions ++ page.1.data, ¬ i.CutsTag) ∧
      ((∀ page ∈ pages d, TagClosed page.contents) ↔
        ∀ s i, s ≠ .project → d.item? s = some i → ¬ i.CutsTag) := by
  intro d
  have tidyShown : ∀ i ∈ shownItems d, i.Tidy := fun i => tidy_of_mem_shownItems tidy
  have classTidy {l : Listing} (named : l ∈ namedClasses d) : ∀ i ∈ l.items, i.Tidy := by
    intro i inside
    refine tidyShown i (List.mem_cons_of_mem _ (List.mem_append_right _ ?_))
    exact List.mem_flatMap.2 ⟨l, named, inside⟩
  have named {page : Listing × Text} (listed : page ∈ classPages d) : page.1 ∈ namedClasses d := by
    rw [← map_fst_classPages d]
    exact List.mem_map_of_mem listed
  have index := tagClosed_indexPage_iff tidyShown
  have classes : ∀ page ∈ classPages d, TagClosed (classPage page).contents ↔
      ∀ i ∈ page.1.functions ++ page.1.data, ¬ i.CutsTag :=
    fun page listed => tagClosed_classPage_iff (classTidy (named listed)) page.2
  refine ⟨index, classes, ?_⟩
  rw [pages, List.forall_mem_cons, List.forall_mem_map, index, forall₂_congr classes,
    forall_rows_iff]
  constructor
  · intro none s i notProject found
    by_cases global : s = .classNamed globalClass
    · exact not_cutsTag_globalClass sources (global ▸ found)
    · exact none i (mem_shownItems_tail_iff.2 ⟨s, notProject, global, found⟩)
  · intro none i inside
    obtain ⟨s, notProject, -, found⟩ := mem_shownItems_tail_iff.1 inside
    exact none s i notProject found

/-! ## A reference to a file -/

/-- A source with a class that is described by a reference to a file. -/
def referenceSource : Text := "/*: class A <a href=\"x.html\">x</a> */".toList

/-- The description of the class. -/
def referenceText : Text := "<a href=\"x.html\">x</a>".toList

/-- What is known of the class. -/
def referenceNotes : ClassNotes :=
  { ClassNotes.named "A".toList with
    notes := ⟨"A".toList, [⟨Attribute.descriptionKeyword, referenceText⟩]⟩ }

theorem recordSource_referenceSource :
    empty.recordSource referenceSource =
      { classes := ⟨[("A".toList, referenceNotes)], List.pairwise_singleton _ _⟩ } := by
  let r : Reader := ⟨1, " class A <a href=\"x.html\">x</a> */".toList, none⟩
  let s : Reader := ⟨1, "a href=\"x.html\">x</a> */".toList, some (.symbol ['<'])⟩
  have header : Block.readHeader r = .ok (.classNamed "A".toList, .absent) s := rfl
  have prose : s.freeText =
      (.text "<a href=\"x.html\">x</a> ".toList, ⟨1, [], some .closing⟩) := rfl
  have read := Block.read_of_readHeader_eq header
  rw [Block.readBody, prose, Block.labelledAll_of_closing rfl, Block.finish_of_closing rfl] at read
  have first : (Reader.ofSource referenceSource).firstStart? = some r := rfl
  rw [Document.recordSource, Block.ofSource_eq_singleton first read rfl]
  rfl

theorem listings_referenceSource :
    (empty.recordSource referenceSource).listings = [listingOf "A".toList referenceNotes] := by
  rw [recordSource_referenceSource]
  rfl

theorem tidy_referenceSource : (empty.recordSource referenceSource).Tidy := by
  have tidyText : TagClosed referenceText ∧ TagsInLine referenceText :=
    ⟨by decide, tagsInLine_of_notMem (by decide)⟩
  rw [recordSource_referenceSource]
  intro s i found a inside _
  obtain ⟨n, known, rfl⟩ := Option.map_eq_some_iff.1 found
  have classNotes {name : Text} {c : ClassNotes}
      (listed : Catalog.get? ⟨[("A".toList, referenceNotes)], List.pairwise_singleton _ _⟩ name =
        some c) : c = referenceNotes :=
    (Prod.mk.inj (List.mem_singleton.1 (Catalog.get?_eq_some_iff.1 listed))).2
  cases s with
  | project =>
    obtain rfl := Option.some.inj known
    exact nomatch inside
  | classNamed name =>
    obtain ⟨c, listed, rfl⟩ := Option.map_eq_some_iff.1 known
    obtain rfl := classNotes listed
    rw [List.mem_singleton.1 inside]
    exact tidyText
  | member kind owner name =>
    obtain ⟨c, listed, isMember⟩ := Option.bind_eq_some_iff.1 known
    obtain rfl := classNotes listed
    cases kind <;> exact nomatch isMember

/-- The page of the class shows the reference as it is. -/
theorem tagClosed_classPage_reference :
    ([referenceSource].foldl recordSource empty).Tidy ∧
      ∀ page ∈ classPages ([referenceSource].foldl recordSource empty),
        TagClosed (classPage page).contents := by
  refine ⟨tidy_referenceSource, fun page listed => ?_⟩
  refine ((tagClosed_pages_of_sources [referenceSource] tidy_referenceSource).2.1 page listed).2 ?_
  have named : page.1 ∈ namedClasses (empty.recordSource referenceSource) := by
    rw [← map_fst_classPages]
    exact List.mem_map_of_mem listed
  have noMembers : page.1 = listingOf "A".toList referenceNotes := by
    rw [namedClasses, listings_referenceSource] at named
    exact List.mem_singleton.1 (List.mem_filter.1 named).1
  rw [noMembers]
  exact fun i inside => absurd inside List.not_mem_nil

/-- **A reference to a file in a first sentence is cut off**: the full stop in the name of the file
ends the title. -/
theorem not_tagClosed_reference :
    (empty.recordSource referenceSource).Tidy ∧
      ¬ TagClosed (indexPage (empty.recordSource referenceSource)).contents := by
  refine ⟨tidy_referenceSource, fun closed => ?_⟩
  have tidy : ∀ i ∈ shownItems (empty.recordSource referenceSource), i.Tidy :=
    fun i => @tidy_of_mem_shownItems [referenceSource] i tidy_referenceSource
  have isClass : (listingOf "A".toList referenceNotes).item ∈
      (namedClasses (empty.recordSource referenceSource)).map (·.item) := by
    rw [namedClasses, listings_referenceSource]
    exact List.mem_singleton_self _
  refine (tagClosed_indexPage_iff tidy).1 closed _ (List.mem_append_left _ isClass) ⟨rfl, ?_⟩
  exact ⟨_, _, rfl, [], "a href=\"x".toList, "html\">x</a>".toList, rfl, by decide, by decide,
    by decide⟩

end Html

end Docblock
