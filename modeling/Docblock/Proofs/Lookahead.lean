import Docblock.Proofs.HeldLexeme
import Docblock.Proofs.ProseLines

/-!
# Looking ahead before prose

A header looks for a sign that may stand in front of the description, and leaves what it has looked
at. So the prose is read from a lexeme that is held and the text behind it, and not from the text
that the lexeme has been scanned in. Scanning has left a margin out and has taken a few characters
together; a passage would have left the same margin out, apart from its line breaks, and would have
taken the same characters one by one. The two ways part only over the name of an operator: it may go
over an end of the block, and in front of a lone colon it is taken for a label.

## Main definitions

* `Lexeme.LabelsOperator`: the name of an operator with a sign, in front of a lone colon
* `Reader.KeepsProse`: looking ahead does not change the prose

## Main results

* `Text.infix_trim`: trimming leaves what has no white space
* `Passage.scan_skipMargin`: a passage behind a margin
* `Passage.scan_append`: a passage behind what stops none
* `Reader.keepsProse_iff`: where looking ahead does not change the prose
-/

namespace Docblock

open Lexeme

/-! ## Trimming -/

namespace Text

variable {a t : Text}

theorem infix_dropWhile {p : Char → Bool} (kept : ∀ c ∈ a, p c = false) (inside : a <:+: t) :
    a <:+: t.dropWhile p := by
  induction t with
  | nil => exact inside
  | cons c t ih =>
    by_cases dropped : p c = true
    · rw [List.dropWhile_cons_of_pos dropped]
      rcases List.infix_cons_iff.1 inside with here | later
      · -- The character is dropped, so it is not the first one of `a`.
        cases a with
        | nil => exact List.nil_infix
        | cons d a =>
          obtain ⟨rfl, -⟩ := List.cons_prefix_cons.1 here
          rw [kept d List.mem_cons_self] at dropped
          exact absurd dropped (by decide)
      · exact ih later
    · rwa [List.dropWhile_cons_of_neg dropped]

/-- **Trimming leaves what has no white space.** -/
theorem infix_trim (visible : a.all (fun c => !isWhite c) = true) (inside : a <:+: t) :
    a <:+: t.trim := by
  have kept : ∀ c ∈ a, isWhite c = false := by
    intro c inText
    simpa using List.all_eq_true.1 visible c inText
  have left : a <:+: t.trimLeft := infix_dropWhile kept inside
  have right : a.reverse <:+: t.trimLeft.reverse.dropWhile isWhite := by
    apply infix_dropWhile
    · intro c reversed
      exact kept c (List.mem_reverse.1 reversed)
    · exact List.reverse_infix.2 left
  apply List.reverse_infix.1
  rwa [trim, trimRight, List.reverse_reverse]

/-- Line breaks in front of a text are trimmed off. -/
theorem trim_append_of_lineBreaks {breaks : Text} (isBreak : ∀ c ∈ breaks, isLineBreak c = true)
    (t : Text) : (breaks ++ t).trim = t.trim := by
  have white : ∀ c ∈ breaks, isWhite c = true := by
    intro c inside
    have which := isBreak c inside
    simp only [isLineBreak, Bool.or_eq_true, beq_iff_eq] at which
    rcases which with rfl | rfl <;> rfl
  rw [trim, trim, trimLeft, List.dropWhile_append_of_pos white, trimLeft]

end Text

/-! ## Passages behind what scanning takes -/

namespace Passage

/-- **A passage behind a margin** is the one in front of it, apart from the line breaks of the
margin. -/
theorem scan_skipMargin (fresh : Bool) (t : Text) : ∃ breaks : Text,
    (∀ c ∈ breaks, isLineBreak c = true) ∧
      scan true t = prepend breaks (scan true (skipMargin fresh t)) := by
  -- What is left out as a margin of lexemes is one of prose as well, and starts no end.
  have pass {c : Char} {t : Text} (notClosing : ¬ ['*', '/'].isPrefixOf (c :: t) = true)
      (margin : isMargin c = true) : scan true (c :: t) = scan true t := by
    rw [scan, if_neg notClosing, if_pos rfl, if_pos margin]
  have noStar {c : Char} (t : Text) (other : c ≠ '*') :
      ¬ ['*', '/'].isPrefixOf (c :: t) = true := by
    intro ends
    exact other (closingMark_prefix_cons_iff.1 (List.isPrefixOf_iff_prefix.1 ends)).1
  induction t generalizing fresh with
  | nil => exact ⟨[], by simp, rfl⟩
  | cons c t ih =>
    rw [skipMargin]
    split
    · rename_i blank
      have other : c ≠ '*' := by
        rintro rfl
        exact absurd blank (by decide)
      have margin : isMargin c = true := by
        rw [isMargin, blank]
        rfl
      rw [pass (noStar t other) margin]
      exact ih fresh
    · rename_i noBlank
      split
      · -- A line break stays in the passage.
        rename_i isBreak
        obtain ⟨breaks, isBreaks, same⟩ := ih true
        have notMark : c ≠ '*' ∧ c ≠ '/' := by
          constructor <;> rintro rfl <;> exact absurd isBreak (by decide)
        have noMargin : ¬ isMargin c = true := by
          simp [isMargin, noBlank, notMark]
        refine ⟨c :: breaks, List.forall_mem_cons.2 ⟨isBreak, isBreaks⟩, ?_⟩
        rw [scan, if_neg (noStar t notMark.1), if_pos rfl, if_neg noMargin, if_pos isBreak, same]
        exact cons_prepend c breaks _
      · split
        · rename_i mark
          obtain ⟨-, mark⟩ := Bool.and_eq_true_iff.1 mark
          rw [startsWithMarginMark_cons, Bool.or_eq_true, Bool.and_eq_true, beq_iff_eq,
            beq_iff_eq, bne_iff_ne] at mark
          have margin : isMargin c = true ∧ ¬ ['*', '/'].isPrefixOf (c :: t) = true := by
            rcases mark with rfl | ⟨rfl, noSlash⟩
            · exact ⟨rfl, noStar t (by decide)⟩
            · refine ⟨rfl, ?_⟩
              intro ends
              exact noSlash (closingMark_prefix_cons_iff.1 (List.isPrefixOf_iff_prefix.1 ends)).2
          rw [pass margin.2 margin.1]
          exact ih fresh
        · exact ⟨[], by simp, rfl⟩

/-- **A passage behind what stops none**: within a line, characters in which no end of the block
begins go into the passage. -/
theorem scan_append {w t : Text} (noBreak : ∀ c ∈ w, isLineBreak c = false)
    (clear : ¬ Begins closingMark w t) : scan false (w ++ t) = prepend w (scan false t) := by
  induction w with
  | nil => rfl
  | cons c w ih =>
    rw [begins_cons, not_or] at clear
    obtain ⟨notHere, later⟩ := clear
    obtain ⟨within, others⟩ := List.forall_mem_cons.1 noBreak
    have notClosing : ¬ ['*', '/'].isPrefixOf (c :: (w ++ t)) = true := by
      intro ends
      exact notHere (List.isPrefixOf_iff_prefix.1 ends)
    rw [List.cons_append, scan, if_neg notClosing, if_neg (by simp), within, ih others later]
    exact cons_prepend c w _

/-- In front of a line a character that belongs to no margin starts a label, or it is read as it is
within the line. -/
theorem scan_of_noMargin {c : Char} {t : Text} (noMargin : isMargin c = false)
    (noBreak : isLineBreak c = false) :
    scan true (c :: t) = match label? (c :: t) with
      | some (word, rest) => ⟨[], .identifier word, rest⟩
      | none => scan false (c :: t) := by
  have notClosing : ¬ ['*', '/'].isPrefixOf (c :: t) = true := by
    intro ends
    obtain ⟨rfl, -⟩ := closingMark_prefix_cons_iff.1 (List.isPrefixOf_iff_prefix.1 ends)
    exact absurd noMargin (by decide)
  rw [scan, if_neg notClosing, if_pos rfl, if_neg (by simp [noMargin]), if_neg (by simp [noBreak])]
  cases label? (c :: t) with
  | some label => rfl
  | none =>
    simp only
    rw [scan.eq_2, if_neg notClosing, if_neg (by simp), noBreak]

end Passage

/-! ## Labels and the names of operators -/

namespace Lexeme

/-- The name of an operator with a sign, in front of a lone colon. Where it is scanned it is taken
for a label, and where prose is read it is none. -/
def LabelsOperator (t : Text) : Prop := ∃ sign signs rest,
  scan t = (identifier ("operator".toList ++ sign :: signs), rest) ∧
    (sign = '(' ∨ isOperatorSign sign = true) ∧ startsWithLoneColon rest = true

variable {t v word rest : Text} {c : Char}

/-- Scanning again what scanning has left behind the margin finds the same. -/
theorem scan_skipMargin_eq (skipped : skipMargin false t = c :: v) : scan (c :: v) = scan t := by
  obtain ⟨noBlank, noBreak⟩ := Bool.or_eq_false_iff.1 (separates_of_skipMargin skipped)
  rw [scan_cons noBlank noBreak, scan, skipped]

/-- A label is the identifier that is scanned. -/
theorem eq_of_label?_eq {word' rest' : Text} (scanned : scan v = (identifier word, rest))
    (found : label? v = some (word', rest')) : word' = word ∧ rest' = rest := by
  have same := scan_of_label?_eq found
  rw [scanned] at same
  obtain ⟨isWord, behind⟩ := Prod.mk.inj same
  exact ⟨(Lexeme.identifier.inj isWord).symm, behind.symm⟩

/-- A name that an identifier does not go on with is no label. -/
theorem label?_eq_none_of_mem {d : Char} (scanned : scan v = (identifier (c :: word), rest))
    (inside : d ∈ word) (sign : continuesIdentifier d = false) : label? v = none := by
  apply Option.eq_none_iff_forall_ne_some.2
  rintro ⟨word', rest'⟩ found
  obtain ⟨w, u, isText, -⟩ := label?_eq_some_iff.1 found
  rw [(eq_of_label?_eq scanned found).1] at isText
  obtain ⟨-, rfl⟩ := List.cons.inj isText
  rw [w.continues_of_mem d inside] at sign
  cases sign

/-- A name without a lone colon behind it is no label. -/
theorem label?_eq_none_of_noColon (scanned : scan v = (identifier word, rest))
    (noColon : startsWithLoneColon rest = false) : label? v = none := by
  apply Option.eq_none_iff_forall_ne_some.2
  rintro ⟨word', rest'⟩ found
  have colon := startsWithLoneColon_of_label?_eq found
  rw [(eq_of_label?_eq scanned found).2, noColon] at colon
  cases colon

/-- An identifier that is scanned starts behind the margin. -/
theorem exists_scanIdentifier (scanned : scan t = (identifier word, rest)) : ∃ c v,
    skipMargin false t = c :: v ∧ startsIdentifier c = true ∧ scanIdentifier c v = (word, rest) := by
  rw [scan] at scanned
  cases skipped : skipMargin false t with
  | nil =>
    rw [skipped] at scanned
    cases scanned
  | cons c v =>
    rw [skipped, scanHere] at scanned
    split at scanned
    · rename_i starts
      obtain ⟨isWord, behind⟩ := Prod.mk.inj scanned
      exact ⟨c, v, rfl, starts, Prod.ext (Lexeme.identifier.inj isWord) behind⟩
    · cases scanned

/-- An identifier in front of a lone colon is a label, or the name of an operator with a sign. -/
theorem label?_or_operator (starts : startsIdentifier c = true)
    (colon : startsWithLoneColon (scanIdentifier c v).2 = true) :
    label? (c :: v) = some (scanIdentifier c v) ∨ ∃ sign signs,
      (scanIdentifier c v).1 = "operator".toList ++ sign :: signs ∧
        (sign = '(' ∨ isOperatorSign sign = true) := by
  have isLabel (colon : startsWithLoneColon (v.dropWhile continuesIdentifier) = true) :
      label? (c :: v) =
        some (c :: v.takeWhile continuesIdentifier, v.dropWhile continuesIdentifier) := by
    rw [label?, starts, colon]
    rfl
  unfold scanIdentifier extendOperator at colon ⊢
  split at colon
  · rename_i operator
    rw [if_pos operator, operator]
    rw [operator] at isLabel
    -- What follows the word `operator` tells whether there is a sign.
    unfold scanOperator at colon ⊢
    split at colon
    · right
      split
      · exact ⟨'(', _, rfl, Or.inl rfl⟩
      · exact ⟨'(', _, rfl, Or.inl rfl⟩
    · cases taken : (v.dropWhile continuesIdentifier).takeWhile isOperatorSign with
      | nil =>
        left
        have whole := List.takeWhile_append_dropWhile (p := isOperatorSign)
          (l := v.dropWhile continuesIdentifier)
        rw [taken, List.nil_append] at whole
        rw [whole] at colon ⊢
        rw [isLabel colon, List.append_nil]
      | cons sign signs =>
        right
        have isSign : sign ∈ (v.dropWhile continuesIdentifier).takeWhile isOperatorSign := by
          rw [taken]
          exact List.mem_cons_self
        exact ⟨sign, signs, rfl, Or.inr (List.mem_takeWhile_imp isSign)⟩
  · rename_i operator
    rw [if_neg operator]
    exact Or.inl (isLabel colon)

/-- The name of an operator that goes over an end of the block, or that is taken for a label, has a
sign that no identifier goes on with. -/
theorem exists_sign (parts : TakesClosing t ∨ LabelsOperator t) : ∃ signs rest d,
    scan t = (identifier ("operator".toList ++ signs), rest) ∧ d ∈ signs ∧
      continuesIdentifier d = false := by
  have noWord : "+-*/%^&|~!=<>[]".toList.all (fun d => !continuesIdentifier d) = true := by
    decide
  rcases parts with (⟨scanned, inside⟩ | ⟨scanned⟩) | ⟨sign, signs, rest, scanned, isSign, -⟩
  · exact ⟨_, _, '*', scanned, inside.subset (by decide), by decide⟩
  · exact ⟨'(' :: (_ ++ ['*']), _, '*', scanned, by simp, by decide⟩
  · refine ⟨sign :: signs, rest, sign, scanned, List.mem_cons_self, ?_⟩
    rcases isSign with rfl | isSign
    · decide
    · simpa using List.all_eq_true.1 noWord sign (List.contains_iff_mem.1 isSign)

/-- Where an end of the block begins in a word, the word and the passage behind it contain it. -/
theorem closingMark_infix_of_begins (begins : Begins closingMark word rest) :
    closingMark <:+: word ++ (Passage.scan false rest).text := by
  rcases begins_closingMark_iff.1 begins with inside | ⟨before, u, rfl, rfl⟩
  · exact inside.trans (List.prefix_append word _).isInfix
  · rw [Passage.scan, if_neg (by simp), if_neg (by simp), Passage.cons_text]
    exact ⟨before, (Passage.scan (isLineBreak '/') u).text, by simp [closingMark]⟩

end Lexeme

/-! ## Prose from a lexeme that is held -/

namespace Reader

/-- Looking ahead does not change the prose: the text is the same once it is trimmed, and so is the
reader behind it. -/
def KeepsProse (r : Reader) : Prop :=
  r.peek.2.freeText.1.get.trim = r.freeText.1.get.trim ∧ r.peek.2.freeText.2 = r.freeText.2

variable {lastLine : Nat} {t rest : Text} {x : Lexeme}

/-- A reader that holds a lexeme reads what the text behind a margin gives as a passage. -/
def Matches (r : Reader) (p : Passage) : Prop :=
  r.freeText.1.get.trim = p.text.trim ∧ r.freeText.2 = ⟨r.lastLine, p.rest, some p.stop⟩

/-- What is read without looking ahead is the passage behind the margin. -/
theorem keepsProse_iff_matches :
    KeepsProse ⟨lastLine, t, none⟩ ↔ Matches ⟨lastLine, (Lexeme.scan t).2, some (Lexeme.scan t).1⟩
      (Passage.scan true (skipMargin false t)) := by
  obtain ⟨breaks, isBreak, same⟩ := Passage.scan_skipMargin false t
  have direct : freeText ⟨lastLine, t, none⟩ =
      (.text (Passage.scan true t).text,
        ⟨lastLine, (Passage.scan true t).rest, some (Passage.scan true t).stop⟩) := rfl
  have text : (Passage.scan true t).text.trim =
      (Passage.scan true (skipMargin false t)).text.trim := by
    rw [same]
    exact Text.trim_append_of_lineBreaks isBreak _
  rw [KeepsProse, direct, Matches, Prose.get, text, same]
  rfl

/-- Within a line a lexeme that goes over no end is the start of the passage. -/
theorem scan_text_append (clear : ¬ Begins closingMark (Lexeme.scan t).1.text (Lexeme.scan t).2) :
    Passage.scan false (skipMargin false t) =
      (Passage.scan false (Lexeme.scan t).2).prepend (Lexeme.scan t).1.text := by
  rw [← text_append_scan t]
  apply Passage.scan_append
  · intro c inside
    exact (Bool.or_eq_false_iff.1 (separates_of_mem_text inside)).2
  · exact clear

/-- A mark of a margin that is held belongs to the margin of the prose. -/
theorem matches_of_mark {c : Char} {u : Text} (mark : c = '*' ∨ c = '/')
    (notClosing : ¬ ['*', '/'].isPrefixOf (c :: u) = true) :
    Matches ⟨lastLine, u, some (.symbol [c])⟩ (Passage.scan true (c :: u)) := by
  have margin : isMargin c = true := by rcases mark with rfl | rfl <;> rfl
  rw [Passage.scan, if_neg notClosing, if_pos rfl, if_pos margin]
  rcases mark with rfl | rfl <;> exact ⟨rfl, rfl⟩

/-- **A sign that is held** is read as it would have been in the passage. -/
theorem matches_of_symbol {c : Char} {u : Text} (noWord : startsIdentifier c = false)
    (skipped : skipMargin false t = c :: u)
    (scanned : Lexeme.scan t = (.symbol (scanSymbol c u).1, (scanSymbol c u).2)) :
    Matches ⟨lastLine, (scanSymbol c u).2, some (.symbol (scanSymbol c u).1)⟩
      (Passage.scan true (c :: u)) := by
  have whole := scanSymbol_append c u
  by_cases isClosing : (scanSymbol c u).1 = closingMark
  · rw [← whole, isClosing]
    exact ⟨rfl, rfl⟩
  have clear : ¬ Begins closingMark (scanSymbol c u).1 (scanSymbol c u).2 :=
    begins_closingMark_scanSymbol_iff.not.2 isClosing
  have notClosing : ¬ closingMark.isPrefixOf (c :: u) = true := by
    intro ends
    apply clear
    refine ⟨_, scanSymbol_ne_nil c u, List.suffix_rfl, ?_⟩
    rw [whole]
    exact List.isPrefixOf_iff_prefix.1 ends
  by_cases mark : c = '*' ∨ c = '/'
  · have single : scanSymbol c u = ([c], u) := by
      unfold scanSymbol
      split
      · exact absurd rfl notClosing
      · simp at mark
      · simp at mark
      · rfl
    rw [single]
    exact matches_of_mark mark notClosing
  · -- The sign is no mark of a margin and no label, so the passage starts with it.
    obtain ⟨noBlank, noBreak⟩ := Bool.or_eq_false_iff.1 (separates_of_skipMargin skipped)
    have noMargin : isMargin c = false := by
      rw [not_or] at mark
      simp [isMargin, noBlank, mark]
    have noLabel : label? (c :: u) = none := by
      rw [label?, noWord]
      rfl
    have within : Passage.scan false (c :: u) =
        (Passage.scan false (scanSymbol c u).2).prepend (scanSymbol c u).1 := by
      have append := scan_text_append (t := t)
      rw [scanned, skipped] at append
      exact append clear
    have first : (scanSymbol c u).1.head? = some c := by
      unfold scanSymbol
      split <;> rfl
    have noMark : ¬ ((scanSymbol c u).1 = ['*'] ∨ (scanSymbol c u).1 = ['/']) := by
      rintro (isMark | isMark) <;> rw [isMark] at first <;> obtain rfl := Option.some.inj first
      · exact mark (Or.inl rfl)
      · exact mark (Or.inr rfl)
    have symbolNe : Lexeme.symbol (scanSymbol c u).1 ≠ .closing := by
      intro same
      exact isClosing (Lexeme.symbol.inj same)
    rw [Passage.scan_of_noMargin noMargin noBreak, noLabel, Matches, freeText]
    simp only
    rw [if_neg symbolNe, if_neg noMark, within]
    exact ⟨rfl, rfl⟩

/-- A word that is held in front of a lone colon is left as a label. -/
theorem freeText_of_label {word : Text} (colon : startsWithLoneColon rest = true) :
    freeText ⟨lastLine, rest, some (.identifier word)⟩ =
      (.missing, ⟨lastLine, rest, some (.identifier word)⟩) := by
  rw [freeText]
  simp only
  rw [if_pos colon]

/-- Any other word that is held starts the prose. -/
theorem freeText_of_word {word : Text} (noColon : startsWithLoneColon rest = false) :
    freeText ⟨lastLine, rest, some (.identifier word)⟩ =
      (.text (word ++ (Passage.scan false rest).text), ⟨lastLine,
        (Passage.scan false rest).rest, some (Passage.scan false rest).stop⟩) := by
  rw [freeText]
  simp only
  rw [if_neg (by rw [noColon]; decide)]
  rfl

/-- **A word that is held** is read as it would have been in the passage, unless it is the name of
an operator that goes over an end of the block or is taken for a label. -/
theorem matches_of_word {word : Text} (scanned : Lexeme.scan t = (.identifier word, rest))
    (untaken : ¬ TakesClosing t) (unlabelled : ¬ LabelsOperator t) :
    Matches ⟨lastLine, rest, some (.identifier word)⟩
      (Passage.scan true (skipMargin false t)) := by
  obtain ⟨c, v, skipped, starts, named⟩ := exists_scanIdentifier scanned
  obtain ⟨noBlank, noBreak⟩ := isBlank_of_startsIdentifier starts
  have noMargin : isMargin c = false := by
    simp [isMargin, noBlank, ne_of_startsIdentifier starts (d := '*') (by decide),
      ne_of_startsIdentifier starts (d := '/') (by decide)]
  rw [skipped, Passage.scan_of_noMargin noMargin noBreak]
  cases colon : startsWithLoneColon rest with
  | true =>
    rcases label?_or_operator starts (v := v) (by rw [named]; exact colon) with
      isLabel | ⟨sign, signs, isName, isSign⟩
    · rw [isLabel, named, Matches, freeText_of_label colon]
      exact ⟨rfl, rfl⟩
    · rw [named] at isName
      obtain rfl : word = _ := isName
      exact absurd ⟨sign, signs, rest, scanned, isSign, colon⟩ unlabelled
  | false =>
    have noLabel : label? (c :: v) = none :=
      label?_eq_none_of_noColon ((scan_skipMargin_eq skipped).trans scanned) colon
    have clear : ¬ Begins closingMark (Lexeme.scan t).1.text (Lexeme.scan t).2 := by
      rw [begins_closingMark_scan_iff, scanned]
      simp [Lexeme.closing, untaken]
    have within := scan_text_append clear
    rw [scanned, skipped] at within
    rw [noLabel, Matches, freeText_of_word colon]
    simp only
    rw [within]
    exact ⟨rfl, rfl⟩

/-- A name with a sign is prose at the start of a line. -/
theorem scan_of_sign {signs : Text} {d : Char}
    (scanned : Lexeme.scan t = (.identifier ("operator".toList ++ signs), rest))
    (inside : d ∈ signs) (sign : continuesIdentifier d = false) :
    Passage.scan true (skipMargin false t) =
      Passage.scan false ('o' :: ("perator".toList ++ signs ++ rest)) := by
  have skipped : skipMargin false t = 'o' :: ("perator".toList ++ signs ++ rest) := by
    rw [← text_append_scan t, scanned]
    rfl
  have again : Lexeme.scan ('o' :: ("perator".toList ++ signs ++ rest)) =
      (.identifier ('o' :: ("perator".toList ++ signs)), rest) :=
    (scan_skipMargin_eq skipped).trans scanned
  have noLabel := label?_eq_none_of_mem again (List.mem_append_right _ inside) sign
  rw [skipped, Passage.scan_of_noMargin (by decide) (by decide), noLabel]

/-- **The name of an operator** that goes over an end of the block, or that is taken for a label, is
not read as it would have been in the passage. -/
theorem not_matches_of_operator {word : Text}
    (scanned : Lexeme.scan t = (.identifier word, rest))
    (parts : TakesClosing t ∨ LabelsOperator t) :
    ¬ Matches ⟨lastLine, rest, some (.identifier word)⟩
      (Passage.scan true (skipMargin false t)) := by
  obtain ⟨signs, rest', d, operator, inside, sign⟩ := exists_sign parts
  rw [scanned] at operator
  obtain ⟨rfl, rfl⟩ : word = "operator".toList ++ signs ∧ rest = rest' := by
    simpa using operator
  rw [scan_of_sign scanned inside sign]
  rintro ⟨text, -⟩
  cases colon : startsWithLoneColon rest with
  | true =>
    -- The name is taken for a label, and there is no prose. In the passage there is some.
    have shown : ['o'] <:+: (Passage.scan false
        ('o' :: ("perator".toList ++ signs ++ rest))).text := by
      rw [Passage.scan, if_neg (by simp), if_neg (by simp), Passage.cons_text]
      exact (List.prefix_append ['o'] _).isInfix
    have kept := Text.infix_trim (by decide) shown
    rw [freeText_of_label colon] at text
    rw [← text] at kept
    have nothing : ['o'] <:+: ([] : Text) := kept
    exact absurd nothing (by decide)
  | false =>
    -- The name goes over an end of the block, which no passage contains.
    have taken : TakesClosing t := by
      apply parts.resolve_right
      rintro ⟨_, _, _, same, -, colon'⟩
      rw [scanned] at same
      rw [← (Prod.mk.inj same).2, colon] at colon'
      cases colon'
    have begins := (begins_closingMark_scan_iff t).2 (Or.inr taken)
    rw [scanned] at begins
    have kept : closingMark <:+: Text.trim
        ("operator".toList ++ signs ++ (Passage.scan false rest).text) :=
      Text.infix_trim (by decide) (closingMark_infix_of_begins begins)
    rw [freeText_of_word colon] at text
    have same : Text.trim ("operator".toList ++ signs ++ (Passage.scan false rest).text) =
        (Passage.scan false ('o' :: ("perator".toList ++ signs ++ rest))).text.trim := text
    rw [same] at kept
    exact Passage.not_closingMark_infix_text _ _ (kept.trans (Text.trim_infix _))

/-- **Looking ahead does not change the prose** exactly where no name of an operator goes over an
end of the block or is taken for a label. -/
theorem keepsProse_iff (lastLine : Nat) (t : Text) :
    KeepsProse ⟨lastLine, t, none⟩ ↔ ¬ (TakesClosing t ∨ LabelsOperator t) := by
  rw [keepsProse_iff_matches]
  rcases scan_cases t with ended | ⟨word, rest, scanned, -⟩ | ⟨c, u, noWord, skipped, scanned⟩
  · have nothing : skipMargin false t = [] := by
      apply scanHere_eq_endOfSource_iff.1
      exact congrArg Prod.fst ended
    rw [ended, nothing]
    apply iff_of_true ⟨rfl, rfl⟩
    intro parts
    obtain ⟨signs, rest, d, operator, -⟩ := exists_sign parts
    rw [ended] at operator
    cases operator
  · rw [scanned]
    constructor
    · intro agree parts
      exact not_matches_of_operator scanned parts agree
    · intro clear
      rw [not_or] at clear
      exact matches_of_word scanned clear.1 clear.2
  · rw [skipped, scanned]
    apply iff_of_true (matches_of_symbol noWord skipped scanned)
    intro parts
    obtain ⟨signs, rest, d, operator, -⟩ := exists_sign parts
    rw [scanned] at operator
    cases operator

/-- **The name of an operator may go over an end of the block**, which prose never does, and in front
of a lone colon it is taken for a label, which it is not where prose is read. -/
theorem not_keepsProse_operator :
    let r : Reader := ⟨1, "operator*/ x".toList, none⟩
    let s : Reader := ⟨1, "operator==: x".toList, none⟩
    r.peek.2.freeText = (.text "operator*/ x".toList, ⟨1, [], some .endOfSource⟩) ∧
      r.freeText = (.text "operator".toList, ⟨1, " x".toList, some .closing⟩) ∧
      s.peek.2.freeText =
        (.missing, ⟨1, ": x".toList, some (.identifier "operator==".toList)⟩) ∧
      s.freeText = (.text "operator==: x".toList, ⟨1, [], some .endOfSource⟩) ∧
      ¬ KeepsProse r ∧ ¬ KeepsProse s := by
  refine ⟨rfl, rfl, rfl, rfl, ?_, ?_⟩
  · rintro ⟨text, -⟩
    exact absurd text (by decide)
  · rintro ⟨text, -⟩
    exact absurd text (by decide)

end Reader

end Docblock
