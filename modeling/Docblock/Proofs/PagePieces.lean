import Docblock.Proofs.Tags
import Docblock.Proofs.Sections

/-!
# Pages piece by piece

A page is put together from markup of its own, from anchors, from text that stands literally, and
from prose and titles, which stand in it as they are given. Markup and literal text keep their tags
to themselves, and a tag of the page's own follows whatever is given. So the tags of a page are
those of its pieces.

## Main definitions

* `Piece`: markup, an anchor, or what is given
* `Fits`: pieces that keep their tags apart
* `Section.pieces`, `Part.pieces`: the pieces of a section and of a part of a page
* `renderThrough`, `piecesThrough`: a page through some of its parts, and its pieces
* `Part.anchors`, `Part.given`: the anchors in a part of a page, and what it gives

## Main results

* `fits_piecesThrough`, `written_piecesThrough`: the pieces of a page fit and make it up
* `Fits.tagClosed_iff`: tags are closed exactly if they are in everything that is given
* `Fits.anchorTag_isInfix_iff`: an anchor of the whole is an anchor piece, or is given
-/

namespace Docblock.Html

open Docblock.Markup

/-! ## Pieces -/

/-- What an anchor starts with. -/
def anchorMark : Text := "<a name=\"".toList

/-- The tag of an anchor. -/
def anchorTag (name : Text) : Text := anchorMark ++ name ++ "\">".toList

/-- A piece of a page. -/
inductive Piece where
  /-- Markup of the page itself, or text that stands literally. -/
  | markup (t : Text)
  /-- The tag of an anchor. -/
  | anchor (name : Text)
  /-- Prose or a title, which may hold markup of its own. -/
  | given (t : Text)

/-- A piece in a page. -/
def Piece.text : Piece → Text
  | markup t => t
  | anchor name => anchorTag name
  | given t => t

/-- Pieces in a page. -/
def written (pieces : List Piece) : Text := pieces.flatMap Piece.text

@[simp] theorem written_nil : written [] = [] := rfl

@[simp] theorem written_cons (piece : Piece) (pieces : List Piece) :
    written (piece :: pieces) = piece.text ++ written pieces := rfl

@[simp] theorem written_append (pieces others : List Piece) :
    written (pieces ++ others) = written pieces ++ written others := List.flatMap_append

theorem written_flatMap {α : Type} (f : α → List Piece) (l : List α) :
    written (l.flatMap f) = l.flatMap fun a => written (f a) := List.flatMap_assoc

/-- Markup with closed tags and without anchors. -/
structure Plain (t : Text) : Prop where
  closed : TagClosed t
  noAnchor : ¬ anchorMark <:+: t

instance (t : Text) : Decidable (Plain t) :=
  decidable_of_iff (TagClosed t ∧ ¬ anchorMark <:+: t)
    ⟨fun ⟨closed, noAnchor⟩ => ⟨closed, noAnchor⟩, fun plain => ⟨plain.closed, plain.noAnchor⟩⟩

/-- Pieces that keep their tags apart: behind what is given a tag starts. -/
inductive Fits : List Piece → Prop
  | nil : Fits []
  | markup {t : Text} {others : List Piece} (plain : Plain t) (fits : Fits others) :
      Fits (.markup t :: others)
  | anchor {name : Text} {others : List Piece} (plain : '<' ∉ name ∧ '>' ∉ name)
      (fits : Fits others) : Fits (.anchor name :: others)
  | given {t u : Text} {others : List Piece} (starts : u.head? = some '<')
      (fits : Fits (.markup u :: others)) : Fits (.given t :: .markup u :: others)

theorem isTag_anchorTag {name : Text} (plain : '<' ∉ name ∧ '>' ∉ name) :
    IsTag (anchorTag name) :=
  isTag_of_value "a name=\"".toList rfl (by decide) plain

namespace Fits

variable {pieces others : List Piece}

theorem append (fits : Fits pieces) (more : Fits others) : Fits (pieces ++ others) := by
  induction fits with
  | nil => exact more
  | markup plain _ ih => exact .markup plain ih
  | anchor plain _ ih => exact .anchor plain ih
  | given starts _ ih => exact .given starts ih

theorem flatMap {α : Type} {f : α → List Piece} (each : ∀ a, Fits (f a)) (l : List α) :
    Fits (l.flatMap f) := by
  induction l with
  | nil => exact .nil
  | cons a l ih => exact (each a).append ih

/-- A tag follows what is given. -/
theorem head?_written {u : Text} (starts : u.head? = some '<') :
    (written (.markup u :: others)).head? = some '<' := by
  rw [written_cons, List.head?_append]
  simp [Piece.text, starts]

/-- **Tags are closed exactly if they are in everything that is given.** -/
theorem tagClosed_iff (fits : Fits pieces) :
    TagClosed (written pieces) ↔ ∀ t, .given t ∈ pieces → TagClosed t := by
  induction fits with
  | nil => simp [tagClosed_nil]
  | @markup t others plain _ ih =>
    have own : TagClosed (Piece.markup t).text := plain.closed
    rw [written_cons, own.append_iff, ih]
    simp
  | @anchor name others plain _ ih =>
    have own : TagClosed (Piece.anchor name).text := (isTag_anchorTag plain).tagClosed
    rw [written_cons, own.append_iff, ih]
    simp
  | @given t u others starts _ ih =>
    rw [written_cons, tagClosed_append_iff_of_head (head?_written starts), ih]
    simp [Piece.text]

/-- **An anchor of the whole is an anchor piece**, or it is given. -/
theorem anchorTag_isInfix_iff (fits : Fits pieces) {name : Text}
    (plain : '<' ∉ name ∧ '>' ∉ name) :
    anchorTag name <:+: written pieces ↔
      .anchor name ∈ pieces ∨ ∃ t, .given t ∈ pieces ∧ anchorTag name <:+: t := by
  have isTag := isTag_anchorTag plain
  induction fits with
  | nil => simp [isTag.ne_nil]
  | @markup t others isPlain _ ih =>
    have own : TagClosed (Piece.markup t).text := isPlain.closed
    have absent : ¬ anchorTag name <:+: (Piece.markup t).text := by
      intro inside
      have mark : anchorMark <+: anchorTag name := ⟨name ++ "\">".toList, by simp [anchorTag]⟩
      exact isPlain.noAnchor (mark.isInfix.trans inside)
    rw [written_cons, tag_isInfix_append_iff isTag (Or.inl own)]
    simp [absent, ih]
  | @anchor other others isPlain _ ih =>
    have isOther : IsTag (Piece.anchor other).text := isTag_anchorTag isPlain
    have same : anchorTag name <:+: (Piece.anchor other).text ↔ name = other := by
      rw [tag_isInfix_tag_iff isTag isOther, Piece.text, anchorTag, anchorTag,
        List.append_cancel_right_eq, List.append_cancel_left_eq]
    rw [written_cons, tag_isInfix_append_iff isTag (Or.inl isOther.tagClosed), same]
    simp [ih, or_assoc]
  | @given t u others starts _ ih =>
    rw [written_cons, tag_isInfix_append_iff isTag (Or.inr (head?_written starts))]
    simp only [ih, Piece.text, List.mem_cons, reduceCtorEq, false_or, Piece.given.injEq,
      or_and_right, exists_or, exists_eq_left]
    exact or_left_comm

end Fits

/-! ## Markup without anchors -/

/-- Text without a `<` has no tags. -/
theorem plain_of_notMem {t : Text} (outside : '<' ∉ t) : Plain t where
  closed := tagClosed_of_notMem outside
  noAnchor inside := outside (inside.subset List.mem_cons_self)

theorem plain_escape (t : Text) : Plain (escape t) := plain_of_notMem (notMem_escape (Or.inl rfl) t)

/-- What a reference starts with. -/
def referenceMark : Text := "<a href=\"".toList

/-- The tag of a reference. -/
def referenceTag (target : Text) : Text := referenceMark ++ escape target ++ "\">".toList

/-- A reference is no anchor. -/
theorem plain_referenceTag (target : Text) : Plain (referenceTag target) := by
  have literal : '<' ∉ escape target ∧ '>' ∉ escape target :=
    ⟨notMem_escape (Or.inl rfl) target, notMem_escape (Or.inr (Or.inl rfl)) target⟩
  refine ⟨(isTag_of_value "a href=\"".toList rfl (by decide) literal).tagClosed, fun inside => ?_⟩
  have rest : '<' ∉ "a href=\"".toList ++ escape target ++ "\">".toList := by
    have ending : '<' ∉ "\">".toList := by decide
    rw [List.mem_append, List.mem_append]
    rintro ((word | value) | last)
    · exact absurd word (by decide)
    · exact literal.1 value
    · exact ending last
  rcases List.infix_cons_iff.1 (inside : _ <:+: '<' :: _) with here | later
  · -- The names of the two attributes differ.
    have names : "<a name=\"".toList <+: "<a href=\"".toList :=
      List.prefix_of_prefix_length_le here ⟨escape target ++ "\">".toList, rfl⟩ (by decide)
    exact absurd names (by decide)
  · exact rest (later.subset List.mem_cons_self)

/-! ## The pieces of parts -/

namespace Section

/-- The pieces of a declaration. -/
def declarationPieces (declaration : Text) : List Piece :=
  [.markup "<p class=\"prototype\">".toList, .markup (escape declaration),
    .markup "</p>\n".toList]

/-- The pieces of a description. -/
def descriptionPieces (description : Text) : List Piece :=
  [.markup "<p>".toList, .given (prose description), .markup "</p>\n".toList]

/-- The pieces of an attribute. -/
def attributePieces (a : Attribute) : List Piece :=
  [.markup "  <dt>".toList, .markup (escape a.keyword), .markup ":</dt>\n".toList,
    .markup "  <dd>".toList, .given (prose a.value), .markup "</dd>\n".toList]

/-- The pieces of a list of attributes. -/
def otherPieces (others : List Attribute) : List Piece :=
  if others = [] then []
  else .markup "<dl>\n".toList :: (others.flatMap attributePieces ++ [.markup "</dl>\n".toList])

/-- The pieces of the anchor and the heading. -/
def startPieces (s : Section) : List Piece :=
  [.anchor (escape s.anchor), .markup "</a>\n".toList, .markup "<h1>".toList,
    .markup (escape s.heading), .markup "</h1>\n".toList]

/-- The prose in a section, which stands there as it is given. -/
def given (s : Section) : List Text :=
  s.descriptions.map prose ++ s.others.map fun a => prose a.value

/-- The pieces of a section. -/
def pieces (s : Section) : List Piece :=
  s.startPieces ++ s.declarations.flatMap declarationPieces ++
    s.descriptions.flatMap descriptionPieces ++
    otherPieces s.others

theorem fits_pieces (s : Section) : Fits s.pieces := by
  have declarations (t : Text) : Fits (declarationPieces t) :=
    .markup (by decide) (.markup (plain_escape t) (.markup (by decide) .nil))
  have descriptions (t : Text) : Fits (descriptionPieces t) :=
    .markup (by decide) (.given rfl (.markup (by decide) .nil))
  have attributes (a : Attribute) : Fits (attributePieces a) :=
    .markup (by decide) (.markup (plain_escape a.keyword) (.markup (by decide)
      (.markup (by decide) (.given rfl (.markup (by decide) .nil)))))
  have start : Fits s.startPieces :=
    .anchor ⟨notMem_escape (by simp) _, notMem_escape (by simp) _⟩ (.markup (by decide)
      (.markup (by decide) (.markup (plain_escape s.heading) (.markup (by decide) .nil))))
  refine ((start.append (.flatMap declarations _)).append (.flatMap descriptions _)).append ?_
  unfold otherPieces
  split
  · exact .nil
  · exact .markup (by decide) ((Fits.flatMap attributes _).append (.markup (by decide) .nil))

theorem written_pieces (s : Section) : written s.pieces = s.render := by
  have declaration (t : Text) : written (declarationPieces t) = renderDeclaration t := by
    unfold declarationPieces renderDeclaration
    simp only [written_cons, written_nil, Piece.text, List.append_nil, List.append_assoc]
  have description (t : Text) : written (descriptionPieces t) = renderDescription t := by
    unfold descriptionPieces renderDescription
    simp only [written_cons, written_nil, Piece.text, List.append_nil, List.append_assoc]
  have listed (a : Attribute) : written (attributePieces a) = renderAttribute a := by
    unfold attributePieces renderAttribute
    simp only [written_cons, written_nil, Piece.text, List.append_nil, List.append_assoc]
  have others : written (otherPieces s.others) = renderOthers s.others := by
    unfold otherPieces renderOthers
    split
    · rfl
    · simp only [written_cons, written_append, written_flatMap, written_nil, listed, Piece.text,
        List.append_nil, List.append_assoc]
  have start : written s.startPieces = s.renderStart := by
    have mark : anchorMark = "<a name=\"".toList := rfl
    have ending : "\">".toList ++ "</a>\n".toList = "\"></a>\n".toList := rfl
    unfold startPieces renderStart
    simp only [written_cons, written_nil, Piece.text, List.append_nil, List.append_assoc, anchorTag,
      mark]
    rw [← ending, List.append_assoc "\">".toList]
  unfold pieces render
  simp only [written_append, written_flatMap, start, declaration, description, others]
  rfl

theorem anchor_mem_pieces_iff (s : Section) {name : Text} :
    .anchor name ∈ s.pieces ↔ name = escape s.anchor := by
  have others : .anchor name ∉ otherPieces s.others := by
    unfold otherPieces
    split
    · exact List.not_mem_nil
    · simp [attributePieces]
  simp [pieces, startPieces, declarationPieces, descriptionPieces, others]

theorem given_mem_pieces_iff (s : Section) {t : Text} : .given t ∈ s.pieces ↔ t ∈ s.given := by
  have others : .given t ∈ otherPieces s.others ↔ ∃ a ∈ s.others, prose a.value = t := by
    unfold otherPieces
    split
    · rename_i none
      simp [none]
    · simp [attributePieces, eq_comm]
  simp [pieces, startPieces, declarationPieces, descriptionPieces, others, given, eq_comm]

end Section

/-- The pieces of a reference. -/
def Row.pieces (row : Row) : List Piece :=
  [.markup "  <tr><td>".toList, .markup (referenceTag row.target), .markup (escape row.label),
    .markup "</a></td><td>".toList, .given row.title, .markup "</td></tr>\n".toList]

theorem Row.fits_pieces (row : Row) : Fits row.pieces :=
  .markup (by decide) (.markup (plain_referenceTag row.target) (.markup (plain_escape row.label)
    (.markup (by decide) (.given rfl (.markup (by decide) .nil)))))

theorem Row.written_pieces (row : Row) : written row.pieces = row.render := by
  have start : "  <tr><td><a href=\"".toList = "  <tr><td>".toList ++ referenceMark := rfl
  unfold pieces render
  simp only [written_cons, written_nil, Piece.text, List.append_nil, List.append_assoc,
    referenceTag]
  rw [start, List.append_assoc "  <tr><td>".toList]

/-- The pieces of a heading. -/
def headingPieces (heading : Text) : List Piece :=
  [.markup "<h3>".toList, .markup (escape heading), .markup "</h3>\n".toList]

theorem fits_headingPieces (heading : Text) : Fits (headingPieces heading) :=
  .markup (by decide) (.markup (plain_escape heading) (.markup (by decide) .nil))

theorem written_headingPieces (heading : Text) :
    written (headingPieces heading) = renderHeading heading := by
  unfold headingPieces renderHeading
  simp only [written_cons, written_nil, Piece.text, List.append_nil, List.append_assoc]

namespace Part

/-- The pieces of a part of a page. -/
def pieces : Part → List Piece
  | details s => s.pieces
  | index above rows =>
    headingPieces above ++ .markup "<table>\n".toList ::
      (rows.flatMap Row.pieces ++ [.markup "</table>\n".toList])
  | heading words => headingPieces words
  | rule => [.markup "<hr>\n".toList]
  | noGlobals => [.markup "<p><b>No Global functions or variables</b></p>\n".toList]

theorem fits_pieces (p : Part) : Fits p.pieces := by
  cases p with
  | details s => exact s.fits_pieces
  | index above rows =>
    exact (fits_headingPieces above).append (.markup (by decide)
      ((Fits.flatMap Row.fits_pieces rows).append (.markup (by decide) .nil)))
  | heading words => exact fits_headingPieces words
  | rule => exact .markup (by decide) .nil
  | noGlobals => exact .markup (by decide) .nil

theorem written_pieces (p : Part) : written p.pieces = p.render := by
  cases p with
  | details s => exact s.written_pieces
  | index above rows =>
    unfold pieces render
    simp only [written_cons, written_append, written_flatMap, written_nil, Row.written_pieces,
      written_headingPieces, Piece.text, List.append_nil, List.append_assoc]
  | heading words => exact written_headingPieces words
  | rule => exact List.append_nil _
  | noGlobals => exact List.append_nil _

/-- The anchors in a part of a page. -/
def anchors (p : Part) : List Text := p.section?.toList.map fun s => escape s.anchor

/-- The rows in a part of a page. -/
def rows : Part → List Row
  | index _ rows => rows
  | _ => []

/-- The prose and the titles in a part of a page, which stand there as they are given. -/
def given (p : Part) : List Text := p.section?.toList.flatMap Section.given ++ p.rows.map (·.title)

theorem anchor_mem_pieces_iff {p : Part} {name : Text} :
    .anchor name ∈ p.pieces ↔ name ∈ p.anchors := by
  cases p with
  | details s => exact s.anchor_mem_pieces_iff.trans List.mem_singleton.symm
  | index above rows => simp [pieces, anchors, section?, headingPieces, Row.pieces]
  | heading words => simp [pieces, anchors, section?, headingPieces]
  | rule => simp [pieces, anchors, section?]
  | noGlobals => simp [pieces, anchors, section?]

theorem given_mem_pieces_iff {p : Part} {t : Text} : .given t ∈ p.pieces ↔ t ∈ p.given := by
  cases p with
  | details s =>
    rw [pieces, s.given_mem_pieces_iff]
    simp [given, section?, rows]
  | index above rows =>
    simp [pieces, given, section?, Part.rows, headingPieces, Row.pieces, eq_comm]
  | heading words => simp [pieces, given, section?, rows, headingPieces]
  | rule => simp [pieces, given, section?, rows]
  | noGlobals => simp [pieces, given, section?, rows]

end Part

/-! ## The pieces of a page -/

/-- What stands in front of the title of a page. -/
def aboveTitle : List Text :=
  ["<!DOCTYPE html>\n<html>\n<head>\n".toList, "<meta charset=\"utf-8\">\n".toList,
    "<meta name=\"generator\" content=\"docgen\">\n".toList, "<title>".toList]

/-- What stands between the title of a page and its parts. -/
def belowTitle : List Text :=
  ["</title>\n".toList, "<style>\n".toList,
    "body \x7b font-family: system-ui, sans-serif; max-width: 52em; ".toList,
    "margin: 2em auto; padding: 0 1em; \x7d\n".toList,
    ".prototype \x7b font-style: italic; font-family: monospace; ".toList,
    "white-space: pre-wrap; \x7d\n".toList,
    "td \x7b vertical-align: top; padding: 0.2em 1em 0.2em 0; \x7d\n".toList,
    "dt \x7b font-weight: bold; margin-top: 0.5em; \x7d\n".toList,
    "dd \x7b margin-left: 1.5em; \x7d\n".toList, "</style>\n".toList,
    "</head>\n<body>\n".toList]

/-- The pieces in front of the parts of a page. -/
def headPieces (title : Text) : List Piece :=
  aboveTitle.map .markup ++ .markup (escape title) :: belowTitle.map .markup

theorem Fits.of_plain {texts : List Text} (plain : ∀ t ∈ texts, Plain t) :
    Fits (texts.map .markup) := by
  induction texts with
  | nil => exact .nil
  | cons t texts ih =>
    obtain ⟨first, others⟩ := List.forall_mem_cons.1 plain
    exact .markup first (ih others)

theorem fits_headPieces (title : Text) : Fits (headPieces title) := by
  have above : ∀ t ∈ aboveTitle, Plain t := by decide
  have below : ∀ t ∈ belowTitle, Plain t := by decide +kernel
  exact (Fits.of_plain above).append (.markup (plain_escape title) (.of_plain below))

theorem written_headPieces (title : Text) : written (headPieces title) = renderHead title := by
  unfold headPieces aboveTitle belowTitle renderHead
  simp only [List.map_cons, List.map_nil, written_append, written_cons, written_nil, Piece.text,
    List.append_nil, List.append_assoc]

/-- In front of its parts a page has no anchors, and nothing is given. -/
theorem headPieces_markup {title : Text} {piece : Piece} (inside : piece ∈ headPieces title) :
    ∃ t, piece = .markup t := by
  rcases List.mem_append.1 inside with above | here | below
  · obtain ⟨t, -, rfl⟩ := List.mem_map.1 above
    exact ⟨t, rfl⟩
  · exact ⟨escape title, rfl⟩
  · obtain ⟨t, -, rfl⟩ := List.mem_map.1 (by assumption : piece ∈ belowTitle.map .markup)
    exact ⟨t, rfl⟩

/-- A page through some of its parts. -/
def renderThrough (title : Text) (parts : List Part) : Text :=
  renderHead title ++ parts.flatMap Part.render

/-- The pieces of a page through some of its parts. -/
def piecesThrough (title : Text) (parts : List Part) : List Piece :=
  headPieces title ++ parts.flatMap Part.pieces

section Pages

variable {title : Text} {parts : List Part}

theorem fits_piecesThrough (title : Text) (parts : List Part) : Fits (piecesThrough title parts) :=
  (fits_headPieces title).append (.flatMap Part.fits_pieces parts)

theorem written_piecesThrough (title : Text) (parts : List Part) :
    written (piecesThrough title parts) = renderThrough title parts := by
  rw [piecesThrough, renderThrough, written_append, written_headPieces, written_flatMap]
  exact congrArg _ (List.flatMap_congr fun p _ => p.written_pieces)

theorem given_mem_piecesThrough_iff {t : Text} :
    .given t ∈ piecesThrough title parts ↔ ∃ p ∈ parts, t ∈ p.given := by
  have noHead : .given t ∉ headPieces title := fun inside => nomatch headPieces_markup inside
  rw [piecesThrough, List.mem_append, or_iff_right noHead, List.mem_flatMap]
  simp only [Part.given_mem_pieces_iff]

/-- **An anchor stands in a page through some of its parts** exactly if it is that of a section
among them, or in the prose or a title of one of them. -/
theorem anchorTag_isInfix_iff {name : Text} (plain : '<' ∉ name ∧ '>' ∉ name) :
    anchorTag name <:+: renderThrough title parts ↔
      ∃ p ∈ parts, name ∈ p.anchors ∨ ∃ t ∈ p.given, anchorTag name <:+: t := by
  have noHead : .anchor name ∉ headPieces title := fun inside => nomatch headPieces_markup inside
  rw [← written_piecesThrough, (fits_piecesThrough title parts).anchorTag_isInfix_iff plain]
  simp only [given_mem_piecesThrough_iff]
  rw [piecesThrough, List.mem_append, or_iff_right noHead, List.mem_flatMap]
  simp only [Part.anchor_mem_pieces_iff]
  constructor
  · rintro (⟨p, inside, here⟩ | ⟨t, ⟨p, inside, here⟩, holds⟩)
    · exact ⟨p, inside, Or.inl here⟩
    · exact ⟨p, inside, Or.inr ⟨t, here, holds⟩⟩
  · rintro ⟨p, inside, here | ⟨t, here, holds⟩⟩
    · exact Or.inl ⟨p, inside, here⟩
    · exact Or.inr ⟨t, ⟨p, inside, here⟩, holds⟩

/-- **The tags of a page are closed** exactly if they are in its prose and its titles. -/
theorem tagClosed_renderPage_iff :
    TagClosed (renderPage title parts) ↔ ∀ p ∈ parts, ∀ t ∈ p.given, TagClosed t := by
  have foot : Fits [.markup renderFoot] := .markup (by decide) .nil
  have whole : written (piecesThrough title parts ++ [.markup renderFoot]) =
      renderPage title parts := by
    rw [written_append, written_piecesThrough]
    exact congrArg _ (List.append_nil renderFoot)
  rw [← whole, ((fits_piecesThrough title parts).append foot).tagClosed_iff]
  simp only [List.mem_append, given_mem_piecesThrough_iff, List.mem_singleton, reduceCtorEq,
    or_false]
  exact ⟨fun closed p inside t here => closed t ⟨p, inside, here⟩,
    fun closed t ⟨p, inside, here⟩ => closed p inside t here⟩

/-- What is given in some parts is the prose of their sections and the titles of their rows. -/
theorem forall_mem_given_iff {P : Text → Prop} :
    (∀ p ∈ parts, ∀ t ∈ p.given, P t) ↔
      (∀ s ∈ sections parts, ∀ t ∈ s.given, P t) ∧
        ∀ row ∈ parts.flatMap Part.rows, P row.title := by
  simp only [Part.given, sections, List.mem_append, List.mem_flatMap, List.mem_map,
    Option.mem_toList, List.mem_filterMap]
  constructor
  · intro holds
    refine ⟨?_, ?_⟩
    · rintro s ⟨p, inside, isSection⟩ t here
      exact holds p inside t (Or.inl ⟨s, isSection, here⟩)
    · rintro row ⟨p, inside, here⟩
      exact holds p inside row.title (Or.inr ⟨row, here, rfl⟩)
  · rintro ⟨prose, titles⟩ p inside t (⟨s, isSection, here⟩ | ⟨row, here, rfl⟩)
    · exact prose s ⟨p, inside, isSection⟩ t here
    · exact titles row ⟨p, inside, here⟩

end Pages

/-! ## Rows -/

theorem rows_memberIndex (heading : Text) (members : List Item) :
    (memberIndex heading members).flatMap Part.rows = members.map memberRow := by
  unfold memberIndex
  split
  · rename_i none
    rw [none]
    rfl
  · exact List.append_nil _

/-- The rows of the indexes of members are those of all members. -/
theorem rows_memberParts (l : Listing) :
    (memberParts l).flatMap Part.rows = (l.functions ++ l.data).map memberRow := by
  have behind : ((l.functions ++ l.data).flatMap fun i =>
      [.details (.ofItem i), .rule]).flatMap Part.rows = [] := by
    rw [List.flatMap_assoc]
    exact List.flatMap_eq_nil_iff.2 fun _ _ => rfl
  rw [memberParts, List.flatMap_append, List.flatMap_append, List.flatMap_append, rows_memberIndex,
    rows_memberIndex, behind, List.map_append]
  simp [Part.rows]

/-- The rows of the index of classes are those of all classes. -/
theorem rows_classIndex (projectName : Text) (pages : List (Listing × Text)) :
    (classIndex projectName pages).flatMap Part.rows = pages.map classRow := by
  unfold classIndex
  split
  · rename_i none
    rw [List.isEmpty_iff.1 none]
    rfl
  · exact List.append_nil _

end Docblock.Html
