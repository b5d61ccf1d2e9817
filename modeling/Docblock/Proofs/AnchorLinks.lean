import Docblock.Proofs.MemberHeader
import Docblock.Proofs.PagePieces

/-!
# References to sections

The index and the pages of classes show members alike: a section first, of the project or of the
class, then the indexes of the functions and of the data, and then the sections of the members. The
rows of the indexes refer to the sections by the anchors of their links. All sections of a page
share the names of anchors, and a reference leads to the first anchor of its name. So it leads to
the section of its own member unless a section in front of it has the same anchor, or the prose and
the titles in front of it hold that anchor.

## Main definitions

* `ShowsMembers`: a page that shows the members of a class, and what stands in front of them
* `partsBefore`: the parts of such a page in front of the section of a member
* `Reference`: the row of a member, its section, and when the one leads to the other

## Main results

* `isLeast_section_iff`: where the anchor of a section stands first
* `reference_of_split`: every row is a reference
* `references_of_pages`: the rows of all pages
* `not_first_constructor`: a constructor has the anchor of its class
-/

namespace Docblock.Html

open Docblock.Document Docblock.Markup

/-! ## Pages with members -/

/-- What stands in the index in front of the global members. -/
def indexLead (d : Document) : List Part :=
  [.details (.ofItem d.projectItem)] ++ classIndex d.projectItem.fullName (classPages d) ++
    [.rule, .heading (d.projectItem.fullName ++ " globals".toList)]

/-- A page that shows the members of a class behind some parts, and among these one section. -/
inductive ShowsMembers (d : Document) : Page → Item → List Part → Listing → Prop
  | index {l : Listing} (listed : d.listing? globalClass = some l) :
      ShowsMembers d (indexPage d) d.projectItem (indexLead d) l
  | ofClass {l : Listing} {name : Text} (listed : (l, name) ∈ classPages d) :
      ShowsMembers d (classPage (l, name)) l.item [.details (.ofItem l.item)] l

/-- The parts of a page in front of the sections of the members. -/
def partsAbove (lead : List Part) (l : Listing) : List Part :=
  lead ++ (memberIndex (functionsHeading l) l.functions ++ memberIndex (dataHeading l) l.data ++
    [.rule])

/-- The sections of some members, each with a rule behind it. -/
def memberSections (members : List Item) : List Part :=
  members.flatMap fun i => [.details (.ofItem i), .rule]

/-- The parts of a page in front of the section of a member, where the sections of some members come
before it. -/
def partsBefore (lead : List Part) (l : Listing) (before : List Item) : List Part :=
  partsAbove lead l ++ memberSections before

variable {d : Document} {page : Page} {first i : Item} {lead : List Part} {l : Listing}
  {before behind : List Item}

theorem mem_pages_of_showsMembers (shows : ShowsMembers d page first lead l) : page ∈ pages d := by
  cases shows with
  | index => exact List.mem_cons_self
  | ofClass listed => exact List.mem_cons_of_mem _ (List.mem_map_of_mem listed)

theorem contents_of_showsMembers (shows : ShowsMembers d page first lead l) :
    page.contents = renderPage first.fullName (lead ++ memberParts l) := by
  cases shows with
  | index listed =>
    have global : globalParts d = memberParts l := by rw [globalParts, listed]
    show renderPage d.projectItem.fullName (indexParts d) = _
    rw [← global]
    rfl
  | ofClass => rfl

/-- The only section in front of those of the members is that of the project or of the class. -/
theorem sections_lead (shows : ShowsMembers d page first lead l) :
    sections lead = [.ofItem first] := by
  cases shows with
  | index =>
    rw [indexLead, sections_append, sections_append, sections_classIndex]
    rfl
  | ofClass => rfl

/-- The section of a member stands behind those of the members before it. -/
theorem memberParts_eq (split : l.functions ++ l.data = before ++ i :: behind) :
    lead ++ memberParts l =
      partsBefore lead l before ++ .details (.ofItem i) :: .rule :: memberSections behind := by
  rw [memberParts, split, partsBefore, partsAbove, memberSections, memberSections,
    List.flatMap_append, List.flatMap_cons]
  simp only [List.append_assoc, List.cons_append, List.nil_append]

theorem sections_memberSections (members : List Item) :
    sections (memberSections members) = members.map .ofItem := by
  rw [memberSections, sections, List.filterMap_flatMap, ← List.flatMap_singleton' (List.map _ _),
    List.flatMap_map]
  rfl

theorem sections_partsBefore (shows : ShowsMembers d page first lead l) (before : List Item) :
    sections (partsBefore lead l before) = (first :: before).map .ofItem := by
  rw [partsBefore, partsAbove, sections_append, sections_append, sections_append, sections_append,
    sections_lead shows, sections_memberIndex, sections_memberIndex, sections_memberSections]
  rfl

/-! ## Anchors -/

/-- The anchors in some parts are those of their sections. -/
theorem exists_mem_anchors_iff {parts : List Part} {name : Text} :
    (∃ p ∈ parts, name ∈ p.anchors) ↔ ∃ s ∈ sections parts, escape s.anchor = name := by
  simp only [sections, Part.anchors, List.mem_filterMap, List.mem_map, Option.mem_toList]
  constructor
  · rintro ⟨p, inside, s, isSection, same⟩
    exact ⟨s, ⟨p, inside, isSection⟩, same⟩
  · rintro ⟨s, ⟨p, inside, isSection⟩, same⟩
    exact ⟨p, inside, s, isSection, same⟩

/-- An anchor stands in a page as it is. -/
theorem escape_anchor (link : Text) : escape (anchor link) = anchor link :=
  escape_of_isAnchorChar fun _ inside => isAnchorChar_of_mem_anchor inside

theorem notMem_anchor (link : Text) : '<' ∉ anchor link ∧ '>' ∉ anchor link := by
  rw [← escape_anchor]
  exact ⟨notMem_escape (Or.inl rfl) _, notMem_escape (Or.inr (Or.inl rfl)) _⟩

/-- The section of an item starts with its anchor. -/
theorem prefix_render_section (i : Item) :
    anchorTag (anchor i.notes.link) <+: (Section.ofItem i).render := by
  have start : (Section.ofItem i).pieces.head? = some (.anchor (escape (anchor i.notes.link))) :=
    rfl
  obtain ⟨others, pieces⟩ := List.head?_eq_some_iff.1 start
  rw [← Section.written_pieces, pieces, written_cons, escape_anchor]
  exact List.prefix_append _ _

/-- The row of a member refers to the anchor of its link. -/
theorem prefix_render_memberRow (i : Item) :
    "  <tr><td><a href=\"#".toList ++ anchor i.notes.link ++ "\">".toList <+:
      (memberRow i).render := by
  have target : escape (memberRow i).target = '#' :: anchor i.notes.link := by
    show '#' :: escape (anchor i.notes.link) = _
    rw [escape_anchor]
  refine ⟨escape (memberRow i).label ++ "</a></td><td>".toList ++ (memberRow i).title ++
    "</td></tr>\n".toList, ?_⟩
  -- The text of a row is too long for `rw` to find its equation.
  unfold Row.render
  rw [target]
  simp only [List.append_assoc]
  rfl

/-- **Where the anchor of a section stands first** on a page with the section behind some parts. -/
theorem isLeast_section_iff (title : Text) (parts : List Part) (i : Item) (rest : Text) :
    IsLeast {n | anchorTag (anchor i.notes.link) <+:
        (renderThrough title parts ++ ((Section.ofItem i).render ++ rest)).drop n}
        (renderThrough title parts).length ↔
      (∀ s ∈ sections parts, escape s.anchor ≠ anchor i.notes.link) ∧
        ∀ p ∈ parts, ∀ t ∈ p.given, ¬ anchorTag (anchor i.notes.link) <:+: t := by
  have here : anchorTag (anchor i.notes.link) <+: (Section.ofItem i).render ++ rest :=
    (prefix_render_section i).trans (List.prefix_append _ _)
  have opens : ((Section.ofItem i).render ++ rest).head? = some '<' := by
    obtain ⟨others, tag⟩ := here
    rw [← tag]
    rfl
  have plain := notMem_anchor i.notes.link
  rw [isLeast_length_iff here, begins_tag_iff (isTag_anchorTag plain) (Or.inr opens),
    anchorTag_isInfix_iff plain]
  simp only [and_or_left, exists_or, exists_mem_anchors_iff, not_or, not_exists, not_and, ne_eq]

/-- What stands on a page in front of the section of a member. -/
def frontOf (first : Item) (lead : List Part) (l : Listing) (before : List Item) : Text :=
  renderThrough first.fullName (partsBefore lead l before)

/-- **The row of a member and its section.** The row refers to the anchor with which the section
starts, and the section stands behind what is in front of it. The anchor stands there first exactly
if no section before has it, neither that of the project or the class nor that of a member, and if
it is not in the prose or the titles before. -/
structure Reference (page : Page) (first : Item) (lead : List Part) (l : Listing)
    (before : List Item) (i : Item) : Prop where
  row : "  <tr><td><a href=\"#".toList ++ anchor i.notes.link ++ "\">".toList <+:
    (memberRow i).render
  place : frontOf first lead l before ++ (Section.ofItem i).render <+: page.contents
  anchored : anchorTag (anchor i.notes.link) <+: (Section.ofItem i).render
  first_iff :
    IsLeast {n | anchorTag (anchor i.notes.link) <+: page.contents.drop n}
        (frontOf first lead l before).length ↔
      (∀ i' ∈ first :: before, anchor i'.notes.link ≠ anchor i.notes.link) ∧
      ∀ p ∈ partsBefore lead l before, ∀ t ∈ p.given,
        ¬ anchorTag (anchor i.notes.link) <:+: t

theorem reference_of_split (shows : ShowsMembers d page first lead l)
    (split : l.functions ++ l.data = before ++ i :: behind) :
    Reference page first lead l before i := by
  obtain ⟨rest, whole⟩ : ∃ rest, page.contents =
      frontOf first lead l before ++ ((Section.ofItem i).render ++ rest) := by
    refine ⟨(.rule :: memberSections behind).flatMap Part.render ++ renderFoot, ?_⟩
    rw [contents_of_showsMembers shows, memberParts_eq split, renderPage, frontOf,
      renderThrough, List.flatMap_append, List.flatMap_cons]
    simp only [List.append_assoc]
    rfl
  refine ⟨prefix_render_memberRow i, ⟨rest, by rw [whole, List.append_assoc]⟩,
    prefix_render_section i, ?_⟩
  rw [whole, frontOf, isLeast_section_iff, sections_partsBefore shows]
  simp only [List.forall_mem_map, Section.ofItem, escape_anchor]

/-- The section of the project or of the class stands in front of all other ones, so a reference to
it leads there. -/
theorem isLeast_first (shows : ShowsMembers d page first lead l) :
    IsLeast {n | anchorTag (anchor first.notes.link) <+: page.contents.drop n}
      (renderThrough first.fullName []).length := by
  obtain ⟨rest, whole⟩ : ∃ rest, page.contents =
      renderThrough first.fullName [] ++ ((Section.ofItem first).render ++ rest) := by
    obtain ⟨others, leads⟩ : ∃ others, lead = .details (.ofItem first) :: others := by
      cases shows with
      | index => exact ⟨_, rfl⟩
      | ofClass => exact ⟨_, rfl⟩
    refine ⟨(others ++ memberParts l).flatMap Part.render ++ renderFoot, ?_⟩
    rw [contents_of_showsMembers shows, leads, renderPage, renderThrough, List.cons_append,
      List.flatMap_cons, List.flatMap_nil]
    simp only [List.append_assoc]
    rfl
  rw [whole, isLeast_section_iff]
  exact ⟨by simp [sections], by simp⟩

/-- **References to the sections of members.** The index shows the global members, if there are any,
and the page of a class those of the class. The rows of the indexes of members are those of the
members, functions first, and their sections stand behind the indexes in the same order. Each row
refers to the anchor of its member, and the first anchor of that name is the one with which the
section of the member starts, unless a section before it has the same anchor or the prose and the
titles before it hold one. -/
theorem references_of_pages (d : Document) :
    (∀ page ∈ pages d, (∃ first lead l, ShowsMembers d page first lead l) ∨
      page = indexPage d ∧ globalParts d = [.noGlobals]) ∧
    ∀ page first lead l, ShowsMembers d page first lead l →
      page ∈ pages d ∧
      page.contents = renderPage first.fullName (lead ++ memberParts l) ∧
      sections lead = [.ofItem first] ∧
      (memberParts l).flatMap Part.rows = (l.functions ++ l.data).map memberRow ∧
      ∀ before i behind, l.functions ++ l.data = before ++ i :: behind →
        Reference page first lead l before i := by
  constructor
  · intro page inside
    rcases List.mem_cons.1 inside with rfl | inside
    · cases listed : d.listing? globalClass with
      | none =>
        refine Or.inr ⟨rfl, ?_⟩
        rw [globalParts, listed]
      | some l => exact Or.inl ⟨_, _, l, .index listed⟩
    · obtain ⟨⟨l, name⟩, listed, rfl⟩ := List.mem_map.1 inside
      exact Or.inl ⟨_, _, l, .ofClass listed⟩
  · intro page first lead l shows
    exact ⟨mem_pages_of_showsMembers shows, contents_of_showsMembers shows, sections_lead shows,
      rows_memberParts l, fun before i behind split => reference_of_split shows split⟩

/-! ## Constructors -/

/-- A source that documents a constructor. -/
def constructorSource : Text := "/*: A::A */".toList

theorem listings_constructorSource :
    (empty.recordSource constructorSource).listings =
      [⟨⟨.classNamed "A".toList, "A".toList, .named "A".toList⟩,
        [⟨.member .function "A".toList "A".toList, "A".toList,
          ⟨"A".toList, [⟨Attribute.descriptionKeyword, []⟩, ⟨Attribute.declarationKeyword, []⟩]⟩⟩],
        []⟩] := by
  let r : Reader := ⟨1, " A::A */".toList, none⟩
  have header : Block.readHeader r = .ok (.member .function "A".toList "A".toList, .absent)
      ⟨1, [], some .closing⟩ := rfl
  have read := Block.read_of_readHeader_eq header
  rw [Block.readBody_of_closing rfl] at read
  have starts : (Reader.ofSource constructorSource).firstStart? = some r := rfl
  rw [Document.recordSource, Block.ofSource_eq_singleton starts read rfl, List.foldl_cons,
    List.foldl_nil, Document.record, Document.recordEntry_empty rfl rfl rfl rfl]
  rfl

/-- **A constructor has the anchor of its class**, whose section stands in front of its own. So its
row leads to the section of the class. -/
theorem not_first_constructor :
    ∃ page first lead l i, ShowsMembers (empty.recordSource constructorSource) page first lead l ∧
      l.functions ++ l.data = [i] ∧
      "  <tr><td><a href=\"#A\">".toList <+: (memberRow i).render ∧
      IsLeast {n | anchorTag "A".toList <+: page.contents.drop n}
        (renderThrough first.fullName []).length ∧
      ¬ IsLeast {n | anchorTag "A".toList <+: page.contents.drop n}
        (frontOf first lead l []).length := by
  let a : Text := "A".toList
  let i : Item := ⟨.member .function a a, a,
    ⟨a, [⟨Attribute.descriptionKeyword, []⟩, ⟨Attribute.declarationKeyword, []⟩]⟩⟩
  let l : Listing := ⟨⟨.classNamed a, a, .named a⟩, [i], []⟩
  have listings : (empty.recordSource constructorSource).listings = [l] :=
    listings_constructorSource
  have named : namedClasses (empty.recordSource constructorSource) = [l] := by
    rw [namedClasses, listings]
    rfl
  have listed : (l, freeName (Std.TreeSet.empty.insert indexName) a) ∈
      classPages (empty.recordSource constructorSource) := by
    rw [classPages, named]
    exact List.mem_singleton_self _
  have shows := ShowsMembers.ofClass listed
  have split : l.functions ++ l.data = [] ++ i :: [] := rfl
  have reference := reference_of_split shows split
  refine ⟨_, _, _, l, i, shows, rfl, reference.row, isLeast_first shows, fun least => ?_⟩
  exact (reference.first_iff.1 least).1 l.item List.mem_cons_self rfl

end Docblock.Html
