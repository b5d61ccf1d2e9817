import Docblock.Proofs.Labels
import Docblock.Proofs.Prose

/-!
# Prose that is read as it is written

Prose is read without the margin of its lines, up to a label or the end of the block, and trimmed.
So a text is read as it is written if none of this applies to it: if no line of it has a margin or
starts like a label, it contains no end of a block, and there is no white space at its ends.

## Main definitions

* `PlainLine`: a line without a margin and without a label
* `IsProse`: a text that is read as it is written
* `Passage.prepend`: a passage with a text in front of it

## Main results

* `plainLine_iff`: whether a line is plain can be told
* `Text.trim_append_of_white`: white space around a trimmed text is trimmed off
* `Passage.scan_of_isPassage`: its lines go into a passage as they are
-/

namespace Docblock

/-! ## White space around a text -/

namespace Text

variable {t : Text}

theorem trimLeft_eq_self (trimmed : t.trim = t) : t.trimLeft = t := by
  refine (trimLeft_suffix t).eq_of_length_le ?_
  calc t.length = t.trim.length := by rw [trimmed]
    _ ≤ t.trimLeft.length := (trimRight_isPrefix t.trimLeft).length_le

theorem trimRight_eq_self (trimmed : t.trim = t) : t.trimRight = t := by
  calc t.trimRight = t.trimLeft.trimRight := by rw [trimLeft_eq_self trimmed]
    _ = t := trimmed

theorem trimRight_append_of_white {b : Text} (white : ∀ c ∈ b, isWhite c = true) :
    (t ++ b).trimRight = t.trimRight := by
  have reversed : ∀ c ∈ b.reverse, isWhite c = true := fun c inside =>
    white c (List.mem_reverse.1 inside)
  rw [trimRight, List.reverse_append, List.dropWhile_append_of_pos reversed, trimRight]

/-- **White space around a trimmed text is trimmed off.** -/
theorem trim_append_of_white {a b : Text} (before : a.all isWhite = true)
    (behind : b.all isWhite = true) (trimmed : t.trim = t) : (a ++ (t ++ b)).trim = t := by
  rw [trim, trimLeft, List.dropWhile_append_of_pos (List.all_eq_true.1 before)]
  cases t with
  | nil =>
    have nothing : b.dropWhile isWhite = [] :=
      List.dropWhile_eq_nil_iff.2 (List.all_eq_true.1 behind)
    rw [List.nil_append, nothing]
    rfl
  | cons c t =>
    have left := trimLeft_eq_self trimmed
    have visible : ¬ isWhite c = true := by
      intro white
      have shorter := (List.dropWhile_suffix (l := t) isWhite).length_le
      rw [trimLeft, List.dropWhile_cons_of_pos white] at left
      rw [left, List.length_cons] at shorter
      omega
    rw [List.cons_append, List.dropWhile_cons_of_neg visible, ← List.cons_append,
      trimRight_append_of_white (List.all_eq_true.1 behind), trimRight_eq_self trimmed]

end Text

/-! ## Lines and texts -/

/-- The characters of a margin. -/
def marginMarks : List Char := [' ', '\t', '\x0c', '\x0b', '*', '/']

/-- A line that has no margin, and that starts with no label in front of a lone colon. -/
structure PlainLine (line : Text) : Prop where
  noMargin : ∀ c, line.head? = some c → c ∉ marginMarks
  noLabel : ∀ (label : Identifier) (rest : Text), line = label.text ++ ':' :: rest →
    rest.head? = some ':'

/-- What prose may be made of: lines that no end of a block interrupts. -/
structure IsPassage (t : Text) : Prop where
  noReturn : '\r' ∉ t
  noClosing : ¬ closingMark <:+: t
  plain : ∀ line ∈ t.splitOn '\n', PlainLine line

/-- A text that is read as it is written. -/
structure IsProse (t : Text) : Prop extends IsPassage t where
  trimmed : t.trim = t

theorem isMargin_iff {c : Char} : isMargin c = true ↔ c ∈ marginMarks := by
  simp [isMargin, isBlank, marginMarks, or_assoc]

/-- **A line without a label has none**, whatever follows the line. -/
theorem label?_of_plainLine {line : Text} (plain : PlainLine line) (t : Text) :
    label? (line ++ '\n' :: t) = none := by
  have noWord : continuesIdentifier '\n' = false := by decide
  cases line with
  | nil => rfl
  | cons c line =>
    rw [List.cons_append, label?, if_neg]
    intro isLabel
    obtain ⟨starts, colon⟩ := Bool.and_eq_true_iff.1 isLabel
    -- The line feed ends the first word at the latest.
    rw [dropWhile_append_of_stop noWord] at colon
    cases behind : line.dropWhile continuesIdentifier with
    | nil =>
      -- The line ends with the word, so a line feed follows it.
      rw [behind] at colon
      cases colon
    | cons d rest =>
      rw [behind] at colon
      by_cases isColon : d = ':'
      · -- The word and the colon are no label, so a second colon follows.
        subst isColon
        have second : rest.head? = some ':' := by
          refine plain.noLabel ⟨c, line.takeWhile continuesIdentifier, starts,
            List.all_takeWhile⟩ rest ?_
          rw [Identifier.text, List.cons_append, ← behind, List.takeWhile_append_dropWhile]
        obtain ⟨others, rfl⟩ := List.head?_eq_some_iff.1 second
        cases colon
      · simp [startsWithLoneColon, isColon] at colon

/-- An identifier in front of a lone colon is a label. -/
theorem label?_of_identifier (w : Identifier) {t : Text}
    (colon : startsWithLoneColon (':' :: t) = true) :
    label? (w.text ++ ':' :: t) = some (w.text, ':' :: t) := by
  have noWord : ¬ continuesIdentifier ':' = true := by decide
  rw [Identifier.text, List.cons_append, label?, List.dropWhile_append_of_pos w.continues_of_mem,
    List.takeWhile_append_of_pos w.continues_of_mem, List.dropWhile_cons_of_neg noWord,
    List.takeWhile_cons_of_neg noWord, List.append_nil, if_pos (by rw [w.starts, colon]; rfl)]

/-- **A line is plain if it starts with no mark of a margin and with no label.** -/
theorem plainLine_iff {line : Text} :
    PlainLine line ↔ line.head?.all (fun c => !isMargin c) = true ∧
      label? (line ++ ['\n']) = none := by
  have start : line.head?.all (fun c => !isMargin c) = true ↔
      ∀ c, line.head? = some c → c ∉ marginMarks := by
    cases line.head? <;> simp [← isMargin_iff]
  constructor
  · intro plain
    exact ⟨start.2 plain.noMargin, label?_of_plainLine plain []⟩
  · rintro ⟨noMargin, noLabel⟩
    refine ⟨start.1 noMargin, ?_⟩
    intro label rest same
    cases rest with
    | nil =>
      -- The colon ends the line, so it is alone.
      rw [same, List.append_assoc, List.cons_append, label?_of_identifier label rfl] at noLabel
      cases noLabel
    | cons c rest =>
      by_cases isColon : c = ':'
      · rw [isColon, List.head?_cons]
      · have alone : startsWithLoneColon (':' :: c :: (rest ++ ['\n'])) = true := by
          simp [startsWithLoneColon, isColon]
        rw [same, List.append_assoc, List.cons_append, List.cons_append,
          label?_of_identifier label alone] at noLabel
        cases noLabel

instance (line : Text) : Decidable (PlainLine line) := decidable_of_iff' _ plainLine_iff

theorem isProse_iff {t : Text} :
    IsProse t ↔ '\r' ∉ t ∧ behindFirst closingMark t = none ∧
      (∀ line ∈ t.splitOn '\n', PlainLine line) ∧ t.trim = t := by
  rw [behindFirst_eq_none_iff (by decide)]
  exact ⟨fun ⟨⟨h₁, h₂, h₃⟩, h₄⟩ => ⟨h₁, h₂, h₃, h₄⟩, fun ⟨h₁, h₂, h₃, h₄⟩ => ⟨⟨h₁, h₂, h₃⟩, h₄⟩⟩

instance (t : Text) : Decidable (IsProse t) := decidable_of_iff' _ isProse_iff

namespace Passage

/-- A passage with a text in front of it. -/
def prepend (t : Text) (p : Passage) : Passage := { p with text := t ++ p.text }

theorem cons_prepend (c : Char) (t : Text) (p : Passage) :
    cons c (prepend t p) = prepend (c :: t) p := rfl

theorem scan_lineBreak (lineStart : Bool) (t : Text) :
    scan lineStart ('\n' :: t) = prepend ['\n'] (scan true t) := by
  have isBreak : isLineBreak '\n' = true := rfl
  have noMargin : isMargin '\n' = false := rfl
  rw [scan, if_neg (by simp)]
  cases lineStart with
  | true => rw [if_pos rfl, if_neg (by simp [noMargin]), if_pos isBreak]; rfl
  | false => rw [if_neg (by simp), isBreak]; rfl

/-- **The rest of a line** goes into the passage as it is. -/
theorem scan_restOfLine {line : Text} (noFeed : '\n' ∉ line) (noReturn : '\r' ∉ line)
    (noClosing : ¬ closingMark <:+: line) (t : Text) :
    scan false (line ++ '\n' :: t) = prepend (line ++ ['\n']) (scan true t) := by
  induction line with
  | nil => exact scan_lineBreak false t
  | cons c line ih =>
    rw [List.infix_cons_iff, not_or] at noClosing
    rw [List.mem_cons, not_or] at noFeed noReturn
    have noEnd : ¬ ['*', '/'].isPrefixOf (c :: (line ++ '\n' :: t)) = true := by
      intro ends
      obtain ⟨star, slash⟩ := closingMark_prefix_cons_iff.1 (List.isPrefixOf_iff_prefix.1 ends)
      cases line with
      | nil => exact nomatch slash
      | cons d line => exact noClosing.1 (closingMark_prefix_cons_iff.2 ⟨star, slash⟩)
    have noBreak : isLineBreak c = false := by
      simp [isLineBreak, Ne.symm noFeed.1, Ne.symm noReturn.1]
    rw [List.cons_append, scan, if_neg noEnd, if_neg (by simp), noBreak,
      ih noFeed.2 noReturn.2 noClosing.2, cons_prepend]
    rfl

/-- **A line without a margin and without a label** goes into the passage as it is. -/
theorem scan_line {line : Text} (plain : PlainLine line) (noFeed : '\n' ∉ line)
    (noReturn : '\r' ∉ line) (noClosing : ¬ closingMark <:+: line) (t : Text) :
    scan true (line ++ '\n' :: t) = prepend (line ++ ['\n']) (scan true t) := by
  have noLabel := label?_of_plainLine plain t
  cases line with
  | nil => exact scan_lineBreak true t
  | cons c line =>
    have noMargin : ¬ isMargin c = true := fun margin =>
      plain.noMargin c rfl (isMargin_iff.1 margin)
    have noEnd : ¬ ['*', '/'].isPrefixOf (c :: (line ++ '\n' :: t)) = true := by
      intro ends
      obtain ⟨rfl, -⟩ := closingMark_prefix_cons_iff.1 (List.isPrefixOf_iff_prefix.1 ends)
      exact noMargin rfl
    rw [List.mem_cons, not_or] at noFeed noReturn
    have noBreak : ¬ isLineBreak c = true := by
      simp [isLineBreak, Ne.symm noFeed.1, Ne.symm noReturn.1]
    have rest := scan_restOfLine noFeed.2 noReturn.2
      (fun inside => noClosing (inside.trans (List.suffix_cons c line).isInfix)) t
    rw [List.cons_append] at noLabel ⊢
    rw [scan, if_neg noEnd, if_pos rfl, if_neg noMargin, if_neg noBreak, noLabel, rest]
    exact cons_prepend c _ _

/-- **The lines of prose** go into the passage as they are, and what follows them is read at the
start of a line. -/
theorem scan_of_isPassage {p : Text} (isPassage : IsPassage p) (t : Text) :
    scan true (p ++ '\n' :: t) = prepend (p ++ ['\n']) (scan true t) := by
  -- The induction takes the first line off.
  induction length : p.length using Nat.strong_induction_on generalizing p with
  | _ n ih =>
    by_cases feed : '\n' ∈ p
    · obtain ⟨line, others, rfl, noFeed⟩ := List.eq_append_cons_of_mem feed
      have lines := isPassage.plain
      rw [List.splitOn_append_cons_self_of_not_mem noFeed] at lines
      have lineInside : line <:+: line ++ '\n' :: others := (List.prefix_append line _).isInfix
      have othersInside : others <:+: line ++ '\n' :: others :=
        ((List.suffix_cons '\n' others).trans (List.suffix_append line _)).isInfix
      have first := scan_line (lines line List.mem_cons_self) noFeed
        (fun inside => isPassage.noReturn (lineInside.subset inside))
        (fun inside => isPassage.noClosing (inside.trans lineInside)) (others ++ '\n' :: t)
      have shorter : others.length < n := by
        rw [← length, List.length_append, List.length_cons]
        omega
      have behind := ih _ shorter
        { noReturn := fun inside => isPassage.noReturn (othersInside.subset inside)
          noClosing := fun inside => isPassage.noClosing (inside.trans othersInside)
          plain := fun l inside => lines l (List.mem_cons_of_mem line inside) } rfl
      rw [List.append_assoc, List.cons_append, first, behind]
      simp [prepend]
    · have line := isPassage.plain p (by rw [List.splitOn_eq_singleton feed]; simp)
      exact scan_line line feed isPassage.noReturn isPassage.noClosing t

end Passage

end Docblock
