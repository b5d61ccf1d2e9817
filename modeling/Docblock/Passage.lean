import Docblock.Lexeme

/-!
# Passages of prose

The description of an item and the value of an attribute are prose. A passage of prose runs to the
next label, to the end of the block or to the end of the source. The margin in front of each of its
lines is left out, its line breaks stay.

## Main definitions

* `label?`: the label that a line starts with
* `Passage`: a passage, and what stopped it
* `Passage.scan`: the passage that a text starts with

## Main results

* `scan_rest_suffix`: scanning a passage leaves an end of the text
* `startsWithLoneColon_of_label?_eq`: a label stands in front of its colon
-/

namespace Docblock

/-- What may stand in front of a line of prose. -/
def isMargin (c : Char) : Bool := isBlank c || c == '*' || c == '/'

/-- Whether a text starts with a colon that no second colon follows. -/
def startsWithLoneColon : Text → Bool
  | ':' :: ':' :: _ => false
  | ':' :: _ => true
  | _ => false

/-- The label that a line starts with, and the text behind it: an identifier in front of a lone
colon. A name such as `A::b` is prose. -/
def label? : Text → Option (Text × Text)
  | [] => none
  | c :: t =>
    if startsIdentifier c && startsWithLoneColon (t.dropWhile continuesIdentifier) then
      some (c :: t.takeWhile continuesIdentifier, t.dropWhile continuesIdentifier)
    else none

/-- A passage of prose: its text, the lexeme that stopped it, and the text behind that. -/
structure Passage where
  text : Text
  stop : Lexeme
  rest : Text

namespace Passage

/-- Puts a character in front of a passage. -/
def cons (c : Char) (p : Passage) : Passage := { p with text := c :: p.text }

/-- The passage that a text starts with. In front of a line the margin is left out and a label
stops the passage, with its colon still to be read; within a line only the end of the block does. -/
def scan (lineStart : Bool) : Text → Passage
  | [] => ⟨[], .endOfSource, []⟩
  | c :: t =>
    -- The star of the end is no margin, so the end is looked for first.
    if ['*', '/'].isPrefixOf (c :: t) then ⟨[], .closing, t.drop 1⟩
    else if lineStart then
      if isMargin c then scan true t
      else if isLineBreak c then cons c (scan true t)
      else
        match label? (c :: t) with
        | some (word, rest) => ⟨[], .identifier word, rest⟩
        | none => cons c (scan false t)
    else cons c (scan (isLineBreak c) t)

@[simp] theorem cons_text (c : Char) (p : Passage) : (cons c p).text = c :: p.text := rfl

@[simp] theorem cons_stop (c : Char) (p : Passage) : (cons c p).stop = p.stop := rfl

@[simp] theorem cons_rest (c : Char) (p : Passage) : (cons c p).rest = p.rest := rfl

end Passage

/-- A label is what the line starts with. -/
theorem append_of_label?_eq {t word rest : Text} (h : label? t = some (word, rest)) :
    word ++ rest = t := by
  cases t with
  | nil => simp [label?] at h
  | cons c t =>
    rw [label?] at h
    split at h
    · obtain ⟨rfl, rfl⟩ := Prod.mk.inj (Option.some.inj h)
      simp
    · simp at h

theorem startsWithLoneColon_of_label?_eq {t word rest : Text} (h : label? t = some (word, rest)) :
    startsWithLoneColon rest = true := by
  cases t with
  | nil => simp [label?] at h
  | cons c t =>
    rw [label?] at h
    split at h
    · rename_i colon
      obtain ⟨rfl, rfl⟩ := Prod.mk.inj (Option.some.inj h)
      exact (Bool.and_eq_true_iff.1 colon).2
    · simp at h

namespace Passage

/-- **Scanning a passage leaves an end of the text.** -/
theorem scan_rest_suffix (lineStart : Bool) (t : Text) : (scan lineStart t).rest <:+ t := by
  fun_induction scan lineStart t with
  | case1 => exact List.suffix_rfl
  | case2 _ c t _ => exact (List.drop_suffix 1 t).trans (List.suffix_cons c t)
  | case3 c t _ _ ih => exact ih.trans (List.suffix_cons c t)
  | case4 c t _ _ _ ih => exact ih.trans (List.suffix_cons c t)
  | case5 c t _ _ _ word rest h => exact ⟨word, append_of_label?_eq h⟩
  | case6 c t _ _ _ _ ih => exact ih.trans (List.suffix_cons c t)
  | case7 _ c t _ _ ih => exact ih.trans (List.suffix_cons c t)

end Passage

end Docblock
