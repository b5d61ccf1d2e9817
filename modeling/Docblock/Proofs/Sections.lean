import Docblock.Proofs.PageNames
import Docblock.Proofs.Segments
import Mathlib.Data.List.Perm.Basic

/-!
# What the pages tell

The pages of a document tell of every item once: each of them has a section on one of the pages, but
for the global class, of which there is nothing to tell. A section is made in three passes through
the attributes of its item, two of them by keyword and one for what is left over. The passes divide
the attributes into five groups, so that each attribute is shown once.

## Main definitions

* `Headline`: the keywords of those attributes that are shown above the others
* `Fragment`: what is shown of one attribute
* `Section.fragments`: what a section shows, in order
* `sections`: the sections among the parts of a page
* `Tells`: the sections of a page, where they stand in its text
* `shownItems`: the items that the pages of a document tell of, in order

## Main results

* `headline?_eq_some_iff`: an attribute has at most one of the keywords
* `fragments_ofItem`, `perm_fragments`: a section shows each attribute of its item in one group
* `sections_indexParts`, `sections_classParts`: the sections of the index and of the page of a class
* `tells_pages`: where the sections stand in the pages
* `pairwise_shownItems`, `mem_shownItems_iff`: each item is shown once, but for the global class
* `sections_of_sources`: the sections of the pages of sources, and what they show
-/

namespace Docblock.Html

open Docblock.Document

/-! ## Groups of attributes -/

/-- The keywords of those attributes that are shown above the others, in their order: the
declaration behind a block, a prototype, the description in front of the labels, a description. -/
inductive Headline where
  | behind
  | prototype
  | opening
  | description
  deriving DecidableEq

namespace Headline

/-- All headlines, in the order in which they are shown. -/
def all : List Headline := [behind, prototype, opening, description]

/-- The keyword of a headline. -/
def keyword : Headline → Text
  | behind => Attribute.declarationKeyword
  | prototype => "Prototype".toList
  | opening => Attribute.descriptionKeyword
  | description => "Description".toList

theorem keyword_injective {h h' : Headline}
    (same : h.keyword.lowerAscii = h'.keyword.lowerAscii) : h = h' := by
  cases h <;> cases h' <;> first | rfl | exact absurd same (by decide)

end Headline

/-- The headline that an attribute belongs to, in any case of the letters of its keyword. -/
def headline? (a : Attribute) : Option Headline :=
  Headline.all.find? fun h => a.hasKeyword h.keyword

/-- **An attribute has at most one of the keywords**, so it belongs to the headline whose keyword it
has. -/
theorem headline?_eq_some_iff {a : Attribute} {h : Headline} :
    headline? a = some h ↔ a.hasKeyword h.keyword = true := by
  have has_of_eq_some {h : Headline} (found : headline? a = some h) :
      a.hasKeyword h.keyword = true := by
    unfold headline? at found
    have has := List.find?_some found
    exact has
  refine ⟨has_of_eq_some, fun has => ?_⟩
  cases found : headline? a with
  | none =>
    have isOne : h ∈ Headline.all := by cases h <;> decide
    exact absurd has (List.find?_eq_none.1 found h isOne)
  | some h' =>
    have same := (Text.sameIgnoringCase_iff.1 has).symm.trans
      (Text.sameIgnoringCase_iff.1 (has_of_eq_some found))
    rw [Headline.keyword_injective same]

/-- The groups in which attributes are shown: the four headlines, and what is left over. -/
def groups : List (Option Headline) := Headline.all.map some ++ [none]

theorem mem_groups (g : Option Headline) : g ∈ groups := by
  cases g with
  | none => decide
  | some h => cases h <;> decide

/-! ## Fragments -/

/-- What is shown of one attribute: a declaration, a description, or the attribute as it is. -/
inductive Fragment where
  | declaration (text : Text)
  | description (text : Text)
  | labelled (a : Attribute)
  deriving DecidableEq

/-- A text under a headline. -/
def Headline.fragment : Headline → Text → Fragment
  | behind => .declaration
  | prototype => .declaration
  | opening => .description
  | description => .description

namespace Fragment

/-- What is shown of an attribute: nothing if it belongs to a headline and its value is empty. -/
def of? (a : Attribute) : Option Fragment :=
  match headline? a with
  | some h => if a.value = [] then none else some (h.fragment a.value)
  | none => some (.labelled a)

/-- A fragment in HTML. -/
def render : Fragment → Text
  | declaration text => Section.renderDeclaration text
  | description text => Section.renderDescription text
  | labelled a => Section.renderAttribute a

/-- **Only an empty value under a headline is not shown.** -/
theorem of?_eq_none_iff {a : Attribute} :
    of? a = none ↔ headline? a ≠ none ∧ a.value = [] := by
  rw [of?]
  cases headline? a with
  | none => simp
  | some h => simp

theorem filterMap_of?_of_headline {h : Headline} {attributes : List Attribute}
    (belong : ∀ a ∈ attributes, headline? a = some h) :
    attributes.filterMap of? =
      ((attributes.map (·.value)).filter (· ≠ [])).map h.fragment := by
  induction attributes with
  | nil => rfl
  | cons a attributes ih =>
    obtain ⟨here, others⟩ := List.forall_mem_cons.1 belong
    rw [List.filterMap_cons, List.map_cons, List.filter_cons, of?, here, ih others]
    by_cases empty : a.value = []
    · simp [empty]
    · simp [empty]

theorem filterMap_of?_of_rest {attributes : List Attribute}
    (belong : ∀ a ∈ attributes, headline? a = none) :
    attributes.filterMap of? = attributes.map labelled := by
  rw [← List.filterMap_eq_map]
  refine List.filterMap_congr fun a inside => ?_
  rw [of?, belong a inside]
  rfl

end Fragment

namespace Section

/-- The paragraphs that a section shows: declarations, and behind them descriptions. -/
def paragraphs (s : Section) : List Fragment :=
  s.declarations.map .declaration ++ s.descriptions.map .description

/-- The attributes that a section lists. -/
def listed (s : Section) : List Fragment := s.others.map .labelled

/-- What a section shows, in order. -/
def fragments (s : Section) : List Fragment := s.paragraphs ++ s.listed

/-- What stands in front of all fragments: the anchor and the heading. -/
def renderStart (s : Section) : Text :=
  "<a name=\"".toList ++ Markup.escape s.anchor ++ "\"></a>\n".toList ++
    "<h1>".toList ++ Markup.escape s.heading ++ "</h1>\n".toList

/-- **A section in HTML is its fragments** behind its start, those with keywords in one list. -/
theorem render_eq (s : Section) :
    s.render = s.renderStart ++ s.paragraphs.flatMap Fragment.render ++
      if s.listed = [] then []
      else "<dl>\n".toList ++ s.listed.flatMap Fragment.render ++ "</dl>\n".toList := by
  have declarations : s.declarations.flatMap renderDeclaration =
      (s.declarations.map Fragment.declaration).flatMap Fragment.render := by
    rw [List.flatMap_map]
    rfl
  have descriptions : s.descriptions.flatMap renderDescription =
      (s.descriptions.map Fragment.description).flatMap Fragment.render := by
    rw [List.flatMap_map]
    rfl
  have others : renderOthers s.others = if s.listed = [] then []
      else "<dl>\n".toList ++ s.listed.flatMap Fragment.render ++ "</dl>\n".toList := by
    have empty : s.listed = [] ↔ s.others = [] := List.map_eq_nil_iff
    rw [renderOthers, listed, List.flatMap_map]
    exact if_congr empty.symm rfl rfl
  -- The text of a section is too long for `rw` to find its equation.
  unfold render
  rw [declarations, descriptions, others, paragraphs, List.flatMap_append]
  exact congrArg (· ++ _) (List.append_assoc _ _ _)

/-- The attributes with the keyword of a headline are those that belong to it. -/
theorem attributesNamed_eq (n : Notes) (h : Headline) :
    n.attributesNamed h.keyword = n.attributes.filter (headline? · = some h) := by
  refine List.filter_congr fun a _ => ?_
  rw [Bool.eq_iff_iff, decide_eq_true_iff]
  exact headline?_eq_some_iff.symm

theorem keywords_eq :
    declarationKeywords ++ descriptionKeywords = Headline.all.map Headline.keyword := rfl

/-- The attributes that are left over are those without a headline. -/
theorem otherAttributes_eq (n : Notes) :
    otherAttributes n = n.attributes.filter (headline? · = none) := by
  refine List.filter_congr fun a _ => ?_
  rw [keywords_eq, hasOneOf, List.any_map, Bool.eq_iff_iff, decide_eq_true_iff, headline?,
    List.find?_eq_none, Bool.not_eq_true', List.any_eq_false]
  rfl

end Section

/-- What is shown of the attributes in a group, in order. -/
def shownIn (attributes : List Attribute) (g : Option Headline) : List Fragment :=
  (attributes.filter (headline? · = g)).filterMap Fragment.of?

/-- The values under the keyword of a headline are what is shown under it. -/
theorem shownIn_some (n : Notes) (h : Headline) :
    shownIn n.attributes (some h) =
      (((n.attributesNamed h.keyword).map (·.value)).filter (· ≠ [])).map h.fragment := by
  rw [shownIn, Section.attributesNamed_eq]
  refine Fragment.filterMap_of?_of_headline fun a inside => ?_
  exact of_decide_eq_true (List.mem_filter.1 inside).2

theorem shownIn_none (n : Notes) :
    shownIn n.attributes none = (Section.otherAttributes n).map .labelled := by
  rw [shownIn, Section.otherAttributes_eq]
  refine Fragment.filterMap_of?_of_rest fun a inside => ?_
  exact of_decide_eq_true (List.mem_filter.1 inside).2

/-- **A section shows the attributes of its item group after group**, and those of one group in
their order. -/
theorem fragments_ofItem (i : Item) :
    (Section.ofItem i).fragments = groups.flatMap (shownIn i.notes.attributes) := by
  have values (h h' : Headline) :
      Section.valuesNamed i.notes [h.keyword, h'.keyword] =
        ((i.notes.attributesNamed h.keyword).map (·.value)).filter (· ≠ []) ++
          ((i.notes.attributesNamed h'.keyword).map (·.value)).filter (· ≠ []) := by
    rw [Section.valuesNamed, List.flatMap_cons, List.flatMap_singleton]
  have declarations : (Section.ofItem i).declarations.map Fragment.declaration =
      shownIn i.notes.attributes (some .behind) ++ shownIn i.notes.attributes (some .prototype) := by
    rw [shownIn_some, shownIn_some]
    exact (congrArg _ (values .behind .prototype)).trans List.map_append
  have descriptions : (Section.ofItem i).descriptions.map Fragment.description =
      shownIn i.notes.attributes (some .opening) ++
        shownIn i.notes.attributes (some .description) := by
    rw [shownIn_some, shownIn_some]
    exact (congrArg _ (values .opening .description)).trans List.map_append
  have listed : (Section.ofItem i).listed = shownIn i.notes.attributes none :=
    (shownIn_none i.notes).symm
  rw [Section.fragments, Section.paragraphs, declarations, descriptions, listed]
  simp [groups, Headline.all]

/-! ## No attribute is lost and none is repeated -/

/-- The parts of a list that some keys select make up what all of them select. -/
theorem perm_flatMap_filter {α κ : Type} [DecidableEq κ] (key : α → κ) {keys : List κ}
    (nodup : keys.Nodup) (l : List α) :
    (keys.flatMap fun k => l.filter (key · = k)).Perm (l.filter (key · ∈ keys)) := by
  induction keys with
  | nil => simp
  | cons k keys ih =>
    obtain ⟨absent, others⟩ := List.nodup_cons.1 nodup
    -- What all keys select is divided by the first one. As it is none of the others, what is left is
    -- what the others select.
    have first : (l.filter (key · ∈ k :: keys)).filter (key · = k) = l.filter (key · = k) := by
      rw [List.filter_filter]
      refine List.filter_congr fun a _ => ?_
      by_cases here : key a = k <;> simp [here]
    have rest : (l.filter (key · ∈ k :: keys)).filter (!key · = k) = l.filter (key · ∈ keys) := by
      rw [List.filter_filter]
      refine List.filter_congr fun a _ => ?_
      by_cases here : key a = k
      · simp [here, absent]
      · simp [here]
    rw [List.flatMap_cons]
    refine ((ih others).append_left _).trans ?_
    rw [← first, ← rest]
    exact List.filter_append_perm _ _

/-- **The groups divide the attributes.** -/
theorem perm_groups (attributes : List Attribute) :
    (groups.flatMap fun g => attributes.filter (headline? · = g)).Perm attributes := by
  have nodup : groups.Nodup := by decide
  refine (perm_flatMap_filter headline? nodup attributes).trans (List.Perm.of_eq ?_)
  simp [mem_groups]

/-- **What a section shows is what is shown of each attribute**, in another order. -/
theorem perm_fragments (i : Item) :
    (Section.ofItem i).fragments.Perm (i.notes.attributes.filterMap Fragment.of?) := by
  have together : groups.flatMap (shownIn i.notes.attributes) =
      (groups.flatMap fun g => i.notes.attributes.filter (headline? · = g)).filterMap
        Fragment.of? := (List.filterMap_flatMap ..).symm
  rw [fragments_ofItem, together]
  exact (perm_groups i.notes.attributes).filterMap _

/-! ## The sections of a page -/

/-- The section that a part of a page is, if it is one. -/
def Part.section? : Part → Option Section
  | details s => some s
  | index _ _ => none
  | heading _ => none
  | rule => none
  | noGlobals => none

/-- The sections among the parts of a page, in order. -/
def sections (parts : List Part) : List Section := parts.filterMap Part.section?

theorem sections_append (first second : List Part) :
    sections (first ++ second) = sections first ++ sections second := List.filterMap_append

theorem sections_memberIndex (heading : Text) (members : List Item) :
    sections (memberIndex heading members) = [] := by
  unfold memberIndex
  split <;> rfl

/-- The members of a class have one section each. -/
theorem sections_memberParts (l : Listing) :
    sections (memberParts l) = (l.functions ++ l.data).map .ofItem := by
  have each : sections ((l.functions ++ l.data).flatMap fun i => [.details (.ofItem i), .rule]) =
      (l.functions ++ l.data).map .ofItem := by
    rw [sections, List.filterMap_flatMap, ← List.flatMap_singleton' (List.map _ _),
      List.flatMap_map]
    rfl
  rw [memberParts, sections_append, sections_append, sections_append, sections_memberIndex,
    sections_memberIndex, each]
  rfl

/-- **The page of a class has one section for the class and one for each member.** -/
theorem sections_classParts (l : Listing) : sections (classParts l) = l.items.map .ofItem := by
  have members := sections_memberParts l
  rw [classParts, sections, List.filterMap_cons, ← sections, members]
  rfl

/-- The global members: those of the class without a name, if it is there. -/
def globalItems (d : Document) : List Item :=
  match d.listing? globalClass with
  | some l => l.functions ++ l.data
  | none => []

theorem sections_globalParts (d : Document) :
    sections (globalParts d) = (globalItems d).map .ofItem := by
  unfold globalParts globalItems
  cases d.listing? globalClass with
  | none => rfl
  | some l => exact sections_memberParts l

theorem sections_classIndex (projectName : Text) (pages : List (Listing × Text)) :
    sections (classIndex projectName pages) = [] := by
  unfold classIndex
  split <;> rfl

/-- **The index has one section for the project and one for each global member.** -/
theorem sections_indexParts (d : Document) :
    sections (indexParts d) = (d.projectItem :: globalItems d).map .ofItem := by
  rw [indexParts, sections_append, sections_append, sections_append, sections_classIndex,
    sections_globalParts]
  rfl

/-! ## Where sections stand -/

/-- **A page tells of some sections**: behind its head they stand one after the other, each with
other parts behind it that are no sections, and behind the last ones stands the foot. -/
def Tells (contents title : Text) (told : List Section) : Prop :=
  ∃ pieces : List (Section × List Part), pieces.map (·.1) = told ∧
    (∀ x ∈ pieces, sections x.2 = []) ∧
    contents = renderHead title ++
      (pieces.flatMap fun x => x.1.render ++ x.2.flatMap Part.render) ++ renderFoot

/-- Parts are cut in front of each section. -/
theorem exists_pieces (parts : List Part) : ∃ (lead : List Part)
    (pieces : List (Section × List Part)), pieces.map (·.1) = sections parts ∧
      sections lead = [] ∧ (∀ x ∈ pieces, sections x.2 = []) ∧
      parts = lead ++ pieces.flatMap fun x => .details x.1 :: x.2 := by
  induction parts with
  | nil => exact ⟨[], [], rfl, rfl, by simp, rfl⟩
  | cons p parts ih =>
    obtain ⟨lead, pieces, told, noSection, between, whole⟩ := ih
    cases found : p.section? with
    | none =>
      refine ⟨p :: lead, pieces, ?_, ?_, between, by rw [whole, List.cons_append]⟩
      · rw [told, sections, sections, List.filterMap_cons, found]
      · rw [sections, List.filterMap_cons, found]
        exact noSection
    | some s =>
      obtain rfl : p = .details s := by
        cases p with
        | details s' => exact congrArg Part.details (Option.some.inj found)
        | index above rows => cases found
        | heading words => cases found
        | rule => cases found
        | noGlobals => cases found
      refine ⟨[], (s, lead) :: pieces, ?_, rfl, ?_, ?_⟩
      · rw [List.map_cons, told]
        rfl
      · exact List.forall_mem_cons.2 ⟨noSection, between⟩
      · rw [whole, List.flatMap_cons]
        rfl

/-- **A page that starts with a section tells of the sections among its parts.** -/
theorem tells_renderPage (title : Text) (s : Section) (parts : List Part) :
    Tells (renderPage title (.details s :: parts)) title (sections (.details s :: parts)) := by
  obtain ⟨lead, pieces, told, noSection, between, whole⟩ := exists_pieces parts
  refine ⟨(s, lead) :: pieces, ?_, List.forall_mem_cons.2 ⟨noSection, between⟩, ?_⟩
  · rw [List.map_cons, told]
    rfl
  · have rendered : parts.flatMap Part.render = lead.flatMap Part.render ++
        pieces.flatMap fun x => x.1.render ++ x.2.flatMap Part.render := by
      rw [whole, List.flatMap_append, List.flatMap_assoc]
      rfl
    simp only [renderPage, List.flatMap_cons, rendered, Part.render_details, List.append_assoc]

/-- **The pages of a document tell of its items**: the index of the project and of the global
members, and each other page of a class and of its members. -/
theorem tells_pages (d : Document) : ∃ index others, pages d = index :: others ∧
    Tells index.contents d.projectItem.fullName
      ((d.projectItem :: globalItems d).map .ofItem) ∧
    List.Forall₂ (fun page l => Tells page.contents l.item.fullName (l.items.map .ofItem))
      others (namedClasses d) := by
  obtain ⟨behind, parts⟩ : ∃ behind, indexParts d = .details (.ofItem d.projectItem) :: behind :=
    ⟨_, rfl⟩
  refine ⟨indexPage d, (classPages d).map classPage, rfl, ?_, ?_⟩
  · rw [indexPage, ← sections_indexParts, parts]
    exact tells_renderPage _ _ behind
  · rw [← map_fst_classPages, List.forall₂_map_left_iff, List.forall₂_map_right_iff,
      List.forall₂_same]
    intro x _
    rw [classPage, ← sections_classParts, classParts]
    exact tells_renderPage _ _ (memberParts x.1)

/-! ## The items of all pages -/

/-- The items that the pages of a document tell of, page after page. -/
def shownItems (d : Document) : List Item :=
  d.projectItem :: (globalItems d ++ (namedClasses d).flatMap Listing.items)

/-- The name of the class that a subject stands in; there is none for the project. -/
def home? : Subject → Option Text
  | .project => none
  | .classNamed name => some name
  | .member _ owner _ => some owner

variable {d : Document} {l : Listing} {i : Item} {name : Text}

theorem mem_namedClasses_iff :
    l ∈ namedClasses d ↔ ∃ name, name ≠ globalClass ∧ d.listing? name = some l := by
  rw [namedClasses, List.mem_filter, mem_listings_iff]
  constructor
  · rintro ⟨⟨name, listed⟩, named⟩
    refine ⟨name, ?_, listed⟩
    rintro rfl
    rw [Listing.isGlobal, (item_of_listing? listed).2] at named
    cases named
  · rintro ⟨name, named, listed⟩
    refine ⟨⟨name, listed⟩, ?_⟩
    rw [Listing.isGlobal, (item_of_listing? listed).2]
    exact bne_iff_ne.2 named

theorem mem_globalItems_iff :
    i ∈ globalItems d ↔ ∃ l, d.listing? globalClass = some l ∧ ∃ kind, i ∈ l.members kind := by
  unfold globalItems
  cases d.listing? globalClass with
  | none => simp
  | some l =>
    refine Listing.mem_functions_append_data_iff.trans ⟨fun inside => ⟨l, rfl, inside⟩, ?_⟩
    rintro ⟨l', same, inside⟩
    obtain rfl := Option.some.inj same
    exact inside

/-- What is listed with a class stands in it. -/
theorem home?_of_mem_items (listed : d.listing? name = some l) (inside : i ∈ l.items) :
    home? i.subject = some name := by
  rcases Listing.mem_items_iff.1 inside with rfl | ⟨kind, inside⟩
  · rw [(item_of_listing? listed).1]
    rfl
  · rw [subject_of_mem_members listed inside]
    rfl

/-- **The items of a class are pairwise different.** -/
theorem pairwise_items (listed : d.listing? name = some l) :
    l.items.Pairwise (·.subject ≠ ·.subject) := by
  have subject (kind : MemberKind) : ∀ i ∈ l.members kind, i.subject = .member kind name i.name :=
    fun _ inside => subject_of_mem_members listed inside
  have ofKind (kind : MemberKind) : (l.members kind).Pairwise (·.subject ≠ ·.subject) := by
    have differ := List.pairwise_map.1 (increasing_members listed kind).nodup
    refine differ.imp_of_mem fun {i i'} inside inside' names same => names ?_
    rw [subject kind i inside, subject kind i' inside'] at same
    exact (Subject.member.inj same).2.2
  refine List.pairwise_cons.2 ⟨?_, List.pairwise_append.2 ⟨ofKind .function, ofKind .data, ?_⟩⟩
  · intro i inside
    obtain ⟨kind, inside⟩ := Listing.mem_functions_append_data_iff.1 inside
    rw [(item_of_listing? listed).1, subject kind i inside]
    exact Subject.noConfusion
  · intro i inside i' inside' same
    rw [subject .function i inside, subject .data i' inside'] at same
    exact MemberKind.noConfusion (Subject.member.inj same).1

theorem home?_of_mem_globalItems (inside : i ∈ globalItems d) :
    home? i.subject = some globalClass := by
  obtain ⟨l, listed, member⟩ := mem_globalItems_iff.1 inside
  exact home?_of_mem_items listed (Listing.mem_items_iff.2 (Or.inr member))

theorem home?_of_mem_namedClasses (named : l ∈ namedClasses d) (inside : i ∈ l.items) :
    home? i.subject = some l.item.name ∧ l.item.name ≠ globalClass := by
  obtain ⟨name, notGlobal, listed⟩ := mem_namedClasses_iff.1 named
  rw [(item_of_listing? listed).2]
  exact ⟨home?_of_mem_items listed inside, notGlobal⟩

theorem pairwise_globalItems (d : Document) :
    (globalItems d).Pairwise (·.subject ≠ ·.subject) := by
  unfold globalItems
  cases listed : d.listing? globalClass with
  | none => exact List.Pairwise.nil
  | some l => exact (List.pairwise_cons.1 (pairwise_items listed)).2

theorem pairwise_namedItems (d : Document) :
    ((namedClasses d).flatMap Listing.items).Pairwise (·.subject ≠ ·.subject) := by
  refine List.pairwise_flatMap.2 ⟨?_, ?_⟩
  · intro l named
    obtain ⟨name, -, listed⟩ := mem_namedClasses_iff.1 named
    exact pairwise_items listed
  · have differ := List.pairwise_map.1 (increasing_listings d).nodup
    refine (differ.filter _).imp_of_mem ?_
    intro l l' named named' notSame i inside i' inside' same
    have home := (home?_of_mem_namedClasses named inside).1
    rw [same, (home?_of_mem_namedClasses named' inside').1] at home
    exact notSame (Option.some.inj home).symm

/-- **No item is shown twice.** Two items of the same class are different, and what stands in
different classes is. -/
theorem pairwise_shownItems (d : Document) :
    (shownItems d).Pairwise (·.subject ≠ ·.subject) := by
  have homeNamed {i : Item} (inside : i ∈ (namedClasses d).flatMap Listing.items) :
      ∃ name, home? i.subject = some name ∧ name ≠ globalClass := by
    obtain ⟨l, named, inside⟩ := List.mem_flatMap.1 inside
    exact ⟨l.item.name, home?_of_mem_namedClasses named inside⟩
  refine List.pairwise_cons.2 ⟨?_, List.pairwise_append.2
    ⟨pairwise_globalItems d, pairwise_namedItems d, ?_⟩⟩
  · intro i inside same
    have noHome : home? i.subject = none := (congrArg home? same).symm
    rcases List.mem_append.1 inside with inside | inside
    · rw [home?_of_mem_globalItems inside] at noHome
      cases noHome
    · obtain ⟨name, home, -⟩ := homeNamed inside
      rw [home] at noHome
      cases noHome
  · intro i inside i' inside' same
    obtain ⟨name, home, notGlobal⟩ := homeNamed inside'
    rw [← same, home?_of_mem_globalItems inside] at home
    exact notGlobal (Option.some.inj home).symm

/-- **Every item is shown, but for the global class.** -/
theorem mem_shownItems_iff :
    i ∈ shownItems d ↔ ∃ s, s ≠ .classNamed globalClass ∧ d.item? s = some i := by
  rw [shownItems, List.mem_cons, List.mem_append, mem_globalItems_iff, List.mem_flatMap]
  constructor
  · rintro (rfl | ⟨l, listed, kind, inside⟩ | ⟨l, named, inside⟩)
    · exact ⟨.project, Subject.noConfusion, rfl⟩
    · exact ⟨.member kind globalClass i.name, Subject.noConfusion,
        item?_member_eq_some_iff.2 ⟨l, listed, inside, rfl⟩⟩
    · obtain ⟨name, notGlobal, listed⟩ := mem_namedClasses_iff.1 named
      rcases Listing.mem_items_iff.1 inside with rfl | ⟨kind, inside⟩
      · refine ⟨.classNamed name, ?_, item?_classNamed_eq_some_iff.2 ⟨l, listed, rfl⟩⟩
        exact fun same => notGlobal (Subject.classNamed.inj same)
      · exact ⟨.member kind name i.name, Subject.noConfusion,
          item?_member_eq_some_iff.2 ⟨l, listed, inside, rfl⟩⟩
  · rintro ⟨s, notGlobal, found⟩
    cases s with
    | project => exact Or.inl (Option.some.inj found).symm
    | classNamed name =>
      obtain ⟨l, listed, rfl⟩ := item?_classNamed_eq_some_iff.1 found
      have named : name ≠ globalClass := fun same => notGlobal (congrArg Subject.classNamed same)
      exact Or.inr (Or.inr ⟨l, mem_namedClasses_iff.2 ⟨name, named, listed⟩,
        Listing.mem_items_iff.2 (Or.inl rfl)⟩)
    | member kind owner name =>
      obtain ⟨l, listed, inside, -⟩ := item?_member_eq_some_iff.1 found
      by_cases global : owner = globalClass
      · subst global
        exact Or.inr (Or.inl ⟨l, listed, kind, inside⟩)
      · exact Or.inr (Or.inr ⟨l, mem_namedClasses_iff.2 ⟨owner, global, listed⟩,
          Listing.mem_items_iff.2 (Or.inr ⟨kind, inside⟩)⟩)

/-! ## The pages of sources -/

/-- What is shown of an item: its section is its fragments, those with keywords in one list. They
are those of its attributes, each of them once, and stand group after group in the order of the
attributes. -/
structure Shows (i : Item) : Prop where
  text : (Section.ofItem i).render =
    (Section.ofItem i).renderStart ++ (Section.ofItem i).paragraphs.flatMap Fragment.render ++
      if (Section.ofItem i).listed = [] then []
      else "<dl>\n".toList ++ (Section.ofItem i).listed.flatMap Fragment.render ++
        "</dl>\n".toList
  grouped : (Section.ofItem i).fragments = groups.flatMap (shownIn i.notes.attributes)
  once : (Section.ofItem i).fragments.Perm (i.notes.attributes.filterMap Fragment.of?)

theorem shows (i : Item) : Shows i where
  text := Section.render_eq (.ofItem i)
  grouped := fragments_ofItem i
  once := perm_fragments i

/-- The pages hold the parts of the index and those of the classes with a name. -/
theorem map_contents_pages (d : Document) :
    (pages d).map (·.contents) = renderPage d.projectItem.fullName (indexParts d) ::
      (namedClasses d).map fun l => renderPage l.item.fullName (classParts l) := by
  rw [pages, List.map_cons, List.map_map, ← map_fst_classPages d, List.map_map]
  rfl

/-- Nothing is known of the global class when sources have been recorded. -/
theorem attributesOf_globalClass (sources : List Text) :
    (sources.foldl recordSource empty).attributesOf (.classNamed globalClass) = [] := by
  have accrued := (accrues_foldl_recordSource sources accrues_empty).attributes
    (.classNamed globalClass)
  exact accrued.eq_nil (startsAbout_globalClass sources)

/-- **The sections of the pages of sources.** The index has one section for the project and one for
each global member, and the page of a class has one for the class and one for each of its members,
in the order of their names. In the text of a page these sections stand behind its head, and there
is none among what stands between them and in front of its foot. Over all pages no item is shown
twice, and every item is shown but for the global class, which has no attributes. A section shows
each attribute of its item once, unless its keyword is that of a headline, in any case of its
letters, and its value is empty: first declarations, then descriptions, then what is left over, in
five groups. -/
theorem sections_of_sources (sources : List Text) :
    let d := sources.foldl recordSource empty
    (pages d).map (·.contents) = renderPage d.projectItem.fullName (indexParts d) ::
        (namedClasses d).map (fun l => renderPage l.item.fullName (classParts l)) ∧
      sections (indexParts d) = (d.projectItem :: globalItems d).map .ofItem ∧
      (∀ l ∈ namedClasses d, sections (classParts l) = l.items.map .ofItem) ∧
      (∃ index others, pages d = index :: others ∧
        Tells index.contents d.projectItem.fullName
          ((d.projectItem :: globalItems d).map .ofItem) ∧
        List.Forall₂ (fun page l => Tells page.contents l.item.fullName (l.items.map .ofItem))
          others (namedClasses d)) ∧
      (shownItems d).Pairwise (·.subject ≠ ·.subject) ∧
      (∀ i, i ∈ shownItems d ↔ ∃ s, s ≠ .classNamed globalClass ∧ d.item? s = some i) ∧
      Text.Increasing ((namedClasses d).map (·.item.name)) ∧
      (∀ name l kind, d.listing? name = some l →
        Text.Increasing ((l.members kind).map (·.name))) ∧
      (∀ i, Shows i) ∧
      (∀ a, Fragment.of? a = none ↔ headline? a ≠ none ∧ a.value = []) ∧
      (∀ a h, headline? a = some h ↔ a.keyword.lowerAscii = h.keyword.lowerAscii) ∧
      ∀ i, d.item? (.classNamed globalClass) = some i → i.notes.attributes = [] := by
  intro d
  refine ⟨map_contents_pages d, sections_indexParts d, fun l _ => sections_classParts l,
    tells_pages d, pairwise_shownItems d, fun i => mem_shownItems_iff, increasing_namedClasses d,
    fun _ _ kind listed => increasing_members listed kind, shows,
    fun a => Fragment.of?_eq_none_iff, ?_, ?_⟩
  · intro a h
    exact headline?_eq_some_iff.trans Text.sameIgnoringCase_iff
  · intro i found
    obtain ⟨n, known, rfl⟩ := Option.map_eq_some_iff.1 found
    have nothing := attributesOf_globalClass sources
    rw [attributesOf, known] at nothing
    exact nothing

end Docblock.Html
