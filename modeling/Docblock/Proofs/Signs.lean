import Docblock.Proofs.Sections
import Docblock.Proofs.Tags

/-!
# Signs of markup in a section

Tags are made with `<` and `>`, and their attributes with quotation marks. Which of these signs a
section has, and in which order, does not depend on what names, keywords and declarations say: they
stand literally, and escaped text has none of the signs. What remains are the signs of the section's
own markup, one piece for each attribute that is shown, and those of prose, which is given as it is.
So two items are told with the same signs if their attributes fall into the same groups, if the same
declarations are empty, and if their prose is the same.

Attributes are put into groups by their keywords, so a keyword may move an attribute; it is the only
thing that a text that stands literally can do.

## Main definitions

* `signs`: the signs of markup in a text
* `Fragment.signs`: the signs of what is shown of one attribute
* `Attribute.Alike`: attributes that are told with the same signs

## Main results

* `signs_escape`: escaped text has no signs
* `map_signs_of?_of_alike`: the signs of what is shown of an attribute
* `signs_render`: the signs of a section are those of its start and of its fragments
* `signs_render_of_alike`: items with like attributes are told with the same signs
-/

namespace Docblock.Html

open Docblock.Markup

/-! ## Signs -/

/-- The signs of which tags and their attributes are made. -/
def isSign (c : Char) : Bool := c == '<' || c == '>' || c == '\"'

/-- The signs of markup in a text, in order. -/
def signs (t : Text) : Text := t.filter isSign

@[simp] theorem signs_append (s t : Text) : signs (s ++ t) = signs s ++ signs t :=
  List.filter_append ..

theorem signs_flatMap {α : Type} (f : α → Text) (l : List α) :
    signs (l.flatMap f) = (l.map fun a => signs (f a)).flatten := by
  rw [signs, List.filter_flatMap, List.flatMap_def]
  rfl

/-- **Escaped text has no signs.** -/
@[simp] theorem signs_escape (t : Text) : signs (escape t) = [] := by
  refine List.filter_eq_nil_iff.2 fun c inside sign => ?_
  have mark : c = '<' ∨ c = '>' ∨ c = '\"' := by simpa [isSign, or_assoc] using sign
  exact notMem_escape mark t inside

/-! ## Attributes and what is shown of them -/

/-- Whether what stands under a headline is a declaration, which stands literally. -/
def Headline.isLiteral : Headline → Bool
  | behind => true
  | prototype => true
  | opening => false
  | description => false

/-- The signs of what is shown of one attribute. -/
def Fragment.signs (f : Fragment) : Text := Html.signs f.render

/-- All declarations have the same signs: those of the paragraph around them. -/
theorem signs_renderDeclaration (declaration : Text) :
    signs (Section.renderDeclaration declaration) =
      signs "<p class=\"prototype\">".toList ++ signs "</p>\n".toList := by
  unfold Section.renderDeclaration
  rw [signs_append, signs_append, signs_escape, List.append_nil]

/-- The signs of an attribute with its keyword are those of its value, and those around them. -/
theorem signs_renderAttribute (a : Attribute) :
    signs (Section.renderAttribute a) =
      signs "  <dt>".toList ++ signs ":</dt>\n".toList ++ signs "  <dd>".toList ++
        signs (prose a.value) ++ signs "</dd>\n".toList := by
  unfold Section.renderAttribute
  rw [signs_append, signs_append, signs_append, signs_append, signs_append, signs_escape,
    List.append_nil]

/-- The signs in front of all fragments are those of the markup there. -/
theorem signs_renderStart (s : Section) :
    signs s.renderStart =
      signs "<a name=\"".toList ++ signs "\"></a>\n".toList ++ signs "<h1>".toList ++
        signs "</h1>\n".toList := by
  unfold Section.renderStart
  rw [signs_append, signs_append, signs_append, signs_append, signs_append, signs_escape,
    signs_escape, List.append_nil, List.append_nil]

end Html

namespace Attribute

open Html

/-- Two attributes that are told with the same signs: they belong to the same headline or to none,
both are empty or none is, and they have the same value unless it is a declaration. -/
structure Alike (a b : Attribute) : Prop where
  headline : headline? a = headline? b
  empty : a.value = [] ↔ b.value = []
  prose : (∀ h ∈ headline? a, h.isLiteral = false) → a.value = b.value

end Attribute

namespace Html

variable {a b : Attribute} {i j : Item}

/-- Under the headline of a declaration the same signs are shown, whatever it says. -/
theorem signs_fragment_of_isLiteral {h : Headline} (literal : h.isLiteral = true) (s t : Text) :
    (h.fragment s).signs = (h.fragment t).signs := by
  have same : (Fragment.declaration s).signs = (Fragment.declaration t).signs :=
    (signs_renderDeclaration s).trans (signs_renderDeclaration t).symm
  cases h with
  | behind => exact same
  | prototype => exact same
  | opening => exact absurd literal Bool.false_ne_true
  | description => exact absurd literal Bool.false_ne_true

/-- The keyword of an attribute that is listed brings no signs. -/
theorem signs_labelled_of_value_eq (same : a.value = b.value) :
    (Fragment.labelled a).signs = (Fragment.labelled b).signs := by
  show signs (Section.renderAttribute a) = signs (Section.renderAttribute b)
  rw [signs_renderAttribute, same, ← signs_renderAttribute b]

/-- **Of like attributes the same signs are shown**, or nothing of either. -/
theorem map_signs_of?_of_alike (alike : a.Alike b) :
    (Fragment.of? a).map Fragment.signs = (Fragment.of? b).map Fragment.signs := by
  rw [Fragment.of?, Fragment.of?, ← alike.headline]
  cases group : headline? a with
  | none =>
    have same : a.value = b.value := alike.prose (by simp [group])
    exact congrArg some (signs_labelled_of_value_eq same)
  | some h =>
    by_cases empty : a.value = []
    · simp [empty, alike.empty.1 empty]
    · have other : b.value ≠ [] := mt alike.empty.2 empty
      simp only [if_neg empty, if_neg other]
      apply congrArg some
      -- Only a declaration may say something else, and it says it without signs.
      by_cases literal : h.isLiteral = true
      · exact signs_fragment_of_isLiteral literal a.value b.value
      · have same : a.value = b.value := alike.prose (by simp [group, literal])
        rw [same]

/-- Like attributes fall into the same groups, where they are shown with the same signs. -/
theorem map_signs_shownIn {attributes others : List Attribute}
    (alike : List.Forall₂ Attribute.Alike attributes others) (g : Option Headline) :
    (shownIn attributes g).map Fragment.signs = (shownIn others g).map Fragment.signs := by
  -- As one list of what is shown, if anything, both are told attribute by attribute.
  unfold shownIn
  rw [List.map_filterMap, List.map_filterMap]
  induction alike with
  | nil => rfl
  | @cons a b attributes others first _ ih =>
    rw [List.filter_cons, List.filter_cons, ← first.headline]
    split
    · rw [List.filterMap_cons, List.filterMap_cons, map_signs_of?_of_alike first, ih]
    · exact ih

/-! ## Sections -/

/-- The paragraphs of a section are what is shown under the headlines. -/
theorem paragraphs_ofItem (i : Item) :
    (Section.ofItem i).paragraphs =
      (Headline.all.map some).flatMap (shownIn i.notes.attributes) := by
  have listed : (Section.ofItem i).listed = shownIn i.notes.attributes none :=
    (shownIn_none i.notes).symm
  have fragments := fragments_ofItem i
  rw [Section.fragments, listed, groups, List.flatMap_append, List.flatMap_singleton] at fragments
  exact List.append_cancel_right fragments

/-- The signs of the list of attributes, if there is one. -/
def listSigns (listed : List Text) : Text :=
  if listed = [] then []
  else signs "<dl>\n".toList ++ listed.flatten ++ signs "</dl>\n".toList

/-- **The signs of a section** are those of its start and of its fragments. -/
theorem signs_render (s : Section) :
    signs s.render = signs s.renderStart ++ (s.paragraphs.map Fragment.signs).flatten ++
      listSigns (s.listed.map Fragment.signs) := by
  have fragments (l : List Fragment) :
      signs (l.flatMap Fragment.render) = (l.map Fragment.signs).flatten := signs_flatMap _ l
  rw [Section.render_eq, signs_append, signs_append, fragments, listSigns]
  by_cases empty : s.listed = []
  · rw [if_pos empty, if_pos (List.map_eq_nil_iff.2 empty)]
    rfl
  · rw [if_neg empty, if_neg (mt List.map_eq_nil_iff.1 empty), signs_append, signs_append,
      fragments]

/-- **Names, keywords and declarations bring no markup into a section.** Two items whose attributes
are alike, one by one, are told with the same signs in the same order, whatever they are called,
whatever links they have and whichever classes they belong to. -/
theorem signs_render_of_alike
    (alike : List.Forall₂ Attribute.Alike i.notes.attributes j.notes.attributes) :
    signs (Section.ofItem i).render = signs (Section.ofItem j).render := by
  have shown := map_signs_shownIn alike
  have listed : (Section.ofItem i).listed.map Fragment.signs =
      (Section.ofItem j).listed.map Fragment.signs := by
    rw [Section.listed, Section.listed]
    exact (congrArg _ (shownIn_none i.notes)).symm.trans
      ((shown none).trans (congrArg _ (shownIn_none j.notes)))
  have paragraphs : (Section.ofItem i).paragraphs.map Fragment.signs =
      (Section.ofItem j).paragraphs.map Fragment.signs := by
    rw [paragraphs_ofItem, paragraphs_ofItem, List.map_flatMap, List.map_flatMap]
    exact List.flatMap_congr fun g _ => shown g
  rw [signs_render, signs_render, signs_renderStart, signs_renderStart, paragraphs, listed]

/-- A function with a template for its name and its class, and a quotation mark for its link. -/
theorem signs_render_of_alike_template :
    let note : Text := "See <b>below</b>.".toList
    let i : Item := ⟨.member .function ['A'] ['f'], ['f'], ⟨['f'],
      [⟨"*Prototype".toList, "void f()".toList⟩, ⟨"Note".toList, note⟩]⟩⟩
    let j : Item := ⟨.member .function "B<int>".toList "g<\">".toList, "g<\">".toList, ⟨['\"'],
      [⟨"*PROTOTYPE".toList, "<p>".toList⟩, ⟨"</dl><Note>".toList, note⟩]⟩⟩
    List.Forall₂ Attribute.Alike i.notes.attributes j.notes.attributes ∧
      signs (Section.ofItem i).render = signs (Section.ofItem j).render := by
  intro note i j
  have alike : List.Forall₂ Attribute.Alike i.notes.attributes j.notes.attributes := by
    refine .cons ⟨by decide, by decide, fun prose => ?_⟩
      (.cons ⟨by decide, by decide, fun _ => rfl⟩ .nil)
    exact absurd (prose .behind (by decide)) (by decide)
  exact ⟨alike, signs_render_of_alike alike⟩

end Docblock.Html
