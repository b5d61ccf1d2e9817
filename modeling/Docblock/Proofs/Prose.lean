import Docblock.Passage
import Docblock.Proofs.Extent
import Docblock.Text.White

/-!
# Prose and the end of a block

A passage of prose stops in front of a label or with the end of its block. Whatever stands in it, it
never goes over the first end of a block, and its text does not contain one.

## Main results

* `Text.trim_infix`: trimming leaves a part of the text
* `Passage.not_closingMark_infix_text`: no passage contains an end of a block
* `Passage.stop_cases`: a passage stops with the first end of a block, or at a label in front of it
* `Passage.length_rest_of_stop_eq_closing`: the end that stops a passage is taken as a whole
-/

namespace Docblock

namespace Text

theorem trimLeft_suffix (t : Text) : t.trimLeft <:+ t := List.dropWhile_suffix _

theorem trimRight_isPrefix (t : Text) : t.trimRight <+: t := by
  have h := List.reverse_prefix.2 (List.dropWhile_suffix (l := t.reverse) isWhite)
  rwa [List.reverse_reverse] at h

/-- Trimming leaves a part of the text. -/
theorem trim_infix (t : Text) : t.trim <:+: t :=
  (trimRight_isPrefix _).isInfix.trans (trimLeft_suffix t).isInfix

end Text

/-- A text that starts with a lone colon starts with a colon. -/
theorem exists_of_startsWithLoneColon {t : Text} (colon : startsWithLoneColon t = true) :
    ∃ v, t = ':' :: v := by
  cases t with
  | nil => exact nomatch colon
  | cons c v =>
    by_cases isColon : c = ':'
    · exact ⟨v, by rw [isColon]⟩
    · simp [startsWithLoneColon, isColon] at colon

/-- The characters of a label are those of an identifier. -/
theorem label?_chars {t word rest : Text} (h : label? t = some (word, rest)) :
    ∀ c ∈ word, startsIdentifier c || continuesIdentifier c := by
  cases t with
  | nil => simp [label?] at h
  | cons c t =>
    rw [label?] at h
    split at h
    · rename_i isLabel
      obtain ⟨rfl, rfl⟩ := Prod.mk.inj (Option.some.inj h)
      intro d inside
      rcases List.mem_cons.1 inside with rfl | inside
      · rw [(Bool.and_eq_true_iff.1 isLabel).1]
        rfl
      · rw [List.mem_takeWhile_imp inside, Bool.or_true]
    · simp at h

namespace Passage

/-- Within a line the first character of the text is the one that stands here. -/
theorem head?_text_of_eq {t : Text} {c : Char} (h : (scan false t).text.head? = some c) :
    t.head? = some c := by
  cases t with
  | nil => simp [scan] at h
  | cons d t =>
    rw [scan] at h
    split at h
    · simp at h
    · simpa using h

/-- **No passage contains an end of a block.** -/
theorem not_closingMark_infix_text (lineStart : Bool) (t : Text) :
    ¬ closingMark <:+: (scan lineStart t).text := by
  -- A character that goes into the text does not start an end where it stands, and within a line
  -- the text goes on with the character that follows it there.
  have step {c : Char} {t : Text} (notClosing : ¬ (['*', '/'].isPrefixOf (c :: t)) = true)
      (rest : ¬ closingMark <:+: (scan false t).text) :
      ¬ closingMark <:+: c :: (scan false t).text := by
    rw [List.infix_cons_iff, not_or]
    refine ⟨?_, rest⟩
    intro ends
    obtain ⟨star, slash⟩ := closingMark_prefix_cons_iff.1 ends
    have ends' := closingMark_prefix_cons_iff.2 ⟨star, head?_text_of_eq slash⟩
    exact notClosing (List.isPrefixOf_iff_prefix.2 ends')
  -- A line break is no star, whatever the text goes on with.
  have lineBreak {c : Char} {a : Text} (isBreak : isLineBreak c = true)
      (rest : ¬ closingMark <:+: a) : ¬ closingMark <:+: c :: a := by
    rw [List.infix_cons_iff, not_or]
    refine ⟨?_, rest⟩
    intro ends
    obtain ⟨rfl, -⟩ := closingMark_prefix_cons_iff.1 ends
    exact absurd isBreak (by decide)
  fun_induction scan lineStart t with
  | case1 => simp [closingMark]
  | case2 => simp [closingMark]
  | case3 c t _ _ ih => exact ih
  | case4 c t _ _ isBreak ih => exact lineBreak isBreak ih
  | case5 => simp [closingMark]
  | case6 c t notClosing _ _ _ ih => exact step notClosing ih
  | case7 lineStart c t notClosing _ ih =>
    cases isBreak : isLineBreak c with
    | true => exact lineBreak isBreak (by rwa [isBreak] at ih)
    | false => exact step notClosing (by rwa [isBreak] at ih)

/-- **A passage stops with the first end of a block**, or at a label in front of it. -/
theorem stop_cases (lineStart : Bool) {t u : Text} (found : behindFirst closingMark t = some u) :
    (scan lineStart t).stop = .closing ∧ (scan lineStart t).rest = u ∨
      ∃ word, (scan lineStart t).stop = .identifier word ∧ '*' ∉ word ∧
        startsWithLoneColon (scan lineStart t).rest = true ∧
        behindFirst closingMark (scan lineStart t).rest = some u := by
  -- A character that no end starts with is passed by the search as well.
  have pass {c : Char} {t : Text} (notClosing : ¬ (['*', '/'].isPrefixOf (c :: t)) = true)
      (found : behindFirst closingMark (c :: t) = some u) : behindFirst closingMark t = some u := by
    have skips : ¬ closingMark.isPrefixOf (c :: t) = true := notClosing
    rwa [behindFirst, if_neg skips] at found
  fun_induction scan lineStart t with
  | case1 => simp [behindFirst] at found
  | case2 _ c t isClosing =>
    have ends : closingMark.isPrefixOf (c :: t) = true := isClosing
    rw [behindFirst, if_pos ends] at found
    exact Or.inl ⟨rfl, Option.some.inj found⟩
  | case3 c t notClosing _ ih => exact ih (pass notClosing found)
  | case4 c t notClosing _ _ ih => exact ih (pass notClosing found)
  | case5 c t notClosing _ _ word rest isLabel =>
    -- A label has no star, so the search passes it.
    have chars := label?_chars isLabel
    have noStar : '*' ∉ word := fun star => absurd (chars _ star) (by decide)
    refine Or.inr ⟨word, rfl, noStar, startsWithLoneColon_of_label?_eq isLabel, ?_⟩
    have passed : ¬ Begins closingMark word rest := not_begins_of_head_notMem noStar _
    rwa [← append_of_label?_eq isLabel, behindFirst_append_of_not_begins passed] at found
  | case6 c t notClosing _ _ _ ih => exact ih (pass notClosing found)
  | case7 _ c t notClosing _ ih => exact ih (pass notClosing found)

/-- The end that stops a passage is taken as a whole. -/
theorem length_rest_of_stop_eq_closing {lineStart : Bool} {t : Text}
    (stopped : (scan lineStart t).stop = .closing) :
    (scan lineStart t).rest.length + 2 ≤ t.length := by
  fun_induction scan lineStart t with
  | case1 => simp [Lexeme.closing] at stopped
  | case2 _ c t isClosing =>
    have longer := (List.isPrefixOf_iff_prefix.1 isClosing).length_le
    simp only [List.length_drop, List.length_cons, List.length_nil] at longer ⊢
    omega
  | case3 c t _ _ ih =>
    have := ih stopped
    simp only [List.length_cons]
    omega
  | case4 c t _ _ _ ih =>
    have := ih stopped
    simp only [List.length_cons, cons_rest]
    omega
  | case5 => simp [Lexeme.closing] at stopped
  | case6 c t _ _ _ _ ih =>
    have := ih stopped
    simp only [List.length_cons, cons_rest]
    omega
  | case7 _ c t _ _ ih =>
    have := ih stopped
    simp only [List.length_cons, cons_rest]
    omega

end Passage

end Docblock
