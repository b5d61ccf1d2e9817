import Docblock.Proofs.PlainProse

/-!
# Scanning in front of a seam

A seam is a character that ends every word and every sign in front of it: no lexeme goes over it,
and nothing is looked for that begins before it and ends behind it. So what is scanned in front of a
seam is scanned the same way whatever follows, and the scan goes on at the seam only where nothing in
front of it has stopped it. A semicolon is a seam, and so is a line feed.

## Main definitions

* `IsSeam`: the characters that are seams

## Main results

* `scan_append_seam`, `scan_append_seam_of_nothing`: a lexeme in front of a seam, and at one
* `Passage.exists_scan_append_seam`: a passage that starts in front of a seam
* `declaration_append_of_stop`: a declaration in front of a character on which it ends
-/

namespace Docblock

/-- A character that ends every word and every sign in front of it. -/
structure IsSeam (c : Char) : Prop where
  noConversion : isConversionChar c = false
  noSign : isOperatorSign c = false
  noPart : c ∉ ['*', '/', ':', '(', ')']

theorem isSeam_semicolon : IsSeam ';' := ⟨by decide, by decide, by decide⟩

theorem isSeam_lineFeed : IsSeam '\n' := ⟨by decide, by decide, by decide⟩

theorem IsSeam.noWord {c : Char} (seam : IsSeam c) : continuesIdentifier c = false := by
  have none := seam.noConversion
  rw [isConversionChar, Bool.or_eq_false_iff, Bool.or_eq_false_iff] at none
  exact none.1.1

namespace Lexeme

variable {c : Char} (seam : IsSeam c)

include seam

/-! ## Lexemes -/

theorem scanOperator_append_seam (u x : Text) :
    scanOperator (u ++ c :: x) = ((scanOperator u).1, (scanOperator u).2 ++ c :: x) := by
  have noParenthesis : c ≠ '(' := fun same => seam.noPart (by simp [same])
  have noEnd : c ≠ ')' := fun same => seam.noPart (by simp [same])
  have signs (u : Text) : (u ++ c :: x).takeWhile isOperatorSign = u.takeWhile isOperatorSign ∧
      (u ++ c :: x).dropWhile isOperatorSign = u.dropWhile isOperatorSign ++ c :: x :=
    ⟨takeWhile_append_of_stop seam.noSign u x, dropWhile_append_of_stop seam.noSign u x⟩
  cases u with
  | nil =>
    have here := signs []
    rw [List.nil_append] at here ⊢
    rw [scanOperator, here.1, here.2]
    · rfl
    · exact fun t same => noParenthesis (List.cons.inj same).1
  | cons d u =>
    by_cases isOpen : d = '('
    · subst isOpen
      rw [List.cons_append, scanOperator, scanOperator, takeWhile_append_of_stop seam.noConversion,
        dropWhile_append_of_stop seam.noConversion]
      cases behind : u.dropWhile isConversionChar with
      | nil => simp [noEnd]
      | cons e v => by_cases isEnd : e = ')' <;> simp [isEnd]
    · have here := signs (d :: u)
      rw [List.cons_append] at here ⊢
      rw [scanOperator, here.1, here.2, scanOperator]
      · exact fun t same => isOpen (List.cons.inj same).1
      · exact fun t same => isOpen (List.cons.inj same).1

theorem scanIdentifier_append_seam (d : Char) (u x : Text) :
    scanIdentifier d (u ++ c :: x) =
      ((scanIdentifier d u).1, (scanIdentifier d u).2 ++ c :: x) := by
  rw [scanIdentifier, scanIdentifier, takeWhile_append_of_stop seam.noWord,
    dropWhile_append_of_stop seam.noWord, extendOperator, extendOperator,
    scanOperator_append_seam seam]
  split <;> rfl

theorem scanSymbol_append_seam (d : Char) (u x : Text) :
    scanSymbol d (u ++ c :: x) = ((scanSymbol d u).1, (scanSymbol d u).2 ++ c :: x) := by
  have noPart := seam.noPart
  simp only [List.mem_cons, List.not_mem_nil, or_false, not_or] at noPart
  cases u with
  | nil =>
    unfold scanSymbol
    split <;> simp_all
  | cons e u =>
    unfold scanSymbol
    split <;> simp_all

/-- What stands in front of a seam is scanned as if nothing followed it. -/
theorem scanHere_append_seam {u : Text} (some : u ≠ []) (x : Text) :
    scanHere (u ++ c :: x) = ((scanHere u).1, (scanHere u).2 ++ c :: x) := by
  obtain ⟨d, u, rfl⟩ := List.exists_cons_of_ne_nil some
  rw [List.cons_append, scanHere, scanHere, scanIdentifier_append_seam seam,
    scanSymbol_append_seam seam]
  split <;> rfl

theorem startsWithMarginMark_append_seam (d : Char) (u x : Text) :
    startsWithMarginMark (d :: (u ++ c :: x)) = startsWithMarginMark (d :: u) := by
  have noSlash : c ≠ '/' := fun same => seam.noPart (by simp [same])
  rw [startsWithMarginMark_cons, startsWithMarginMark_cons]
  cases u with
  | nil =>
    have passed : (some c != some '/') = true := bne_iff_ne.2 fun same =>
      noSlash (Option.some.inj same)
    rw [List.nil_append, List.head?_cons, passed]
    rfl
  | cons e u => rfl

/-- A margin in front of a seam ends before it, or goes on with it. -/
theorem skipMargin_append_seam (fresh : Bool) (u x : Text) :
    skipMargin fresh (u ++ c :: x) =
      if skipMargin fresh u = [] then skipMargin (fresh || u.any isLineBreak) (c :: x)
      else skipMargin fresh u ++ c :: x := by
  induction u generalizing fresh with
  | nil => simp [skipMargin]
  | cons d u ih =>
    rw [List.cons_append, skipMargin, startsWithMarginMark_append_seam seam, skipMargin]
    by_cases blank : isBlank d = true
    · have noBreak : isLineBreak d = false := by
        by_contra isBreak
        simp only [isLineBreak, Bool.not_eq_false, Bool.or_eq_true, beq_iff_eq] at isBreak
        rcases isBreak with rfl | rfl <;> exact absurd blank (by decide)
      rw [if_pos blank, if_pos blank, ih, List.any_cons, noBreak, Bool.false_or]
    · rw [if_neg blank, if_neg blank]
      by_cases isBreak : isLineBreak d = true
      · rw [if_pos isBreak, if_pos isBreak, ih, List.any_cons, isBreak]
        simp only [Bool.true_or, Bool.or_true]
      · rw [if_neg isBreak, if_neg isBreak, List.any_cons, eq_false_of_ne_true isBreak,
          Bool.false_or]
        split
        · exact ih fresh
        · simp

/-- **A lexeme in front of a seam** is scanned the same way whatever follows the seam. -/
theorem scan_append_seam {u : Text} (found : (scan u).1 ≠ endOfSource) (x : Text) :
    scan (u ++ c :: x) = ((scan u).1, (scan u).2 ++ c :: x) := by
  have some : skipMargin false u ≠ [] := fun none => found (by rw [scan, none]; rfl)
  rw [scan, skipMargin_append_seam seam, if_neg some, scanHere_append_seam seam some]
  rfl

/-- **Where no lexeme stands in front of a seam**, the scan goes on at the seam. -/
theorem scan_append_seam_of_nothing {u : Text} (none : (scan u).1 = endOfSource) (x : Text) :
    scan (u ++ c :: x) = scanHere (skipMargin (u.any isLineBreak) (c :: x)) := by
  rw [scan, skipMargin_append_seam seam, if_pos (scanHere_eq_endOfSource_iff.1 none),
    Bool.false_or]

end Lexeme

/-! ## Passages -/

section Passages

variable {c : Char} (seam : IsSeam c)

include seam

theorem startsWithLoneColon_append_seam (u x : Text) :
    startsWithLoneColon (u ++ c :: x) = startsWithLoneColon u := by
  have noColon : c ≠ ':' := fun same => seam.noPart (by simp [same])
  rcases u with - | ⟨d, - | ⟨e, u⟩⟩
  · simp [startsWithLoneColon, noColon]
  · by_cases isColon : d = ':' <;> simp [startsWithLoneColon, isColon, noColon]
  · by_cases first : d = ':' <;> by_cases second : e = ':' <;>
      simp [startsWithLoneColon, first, second]

theorem label?_append_seam (d : Char) (u x : Text) :
    label? (d :: (u ++ c :: x)) = (label? (d :: u)).map fun l => (l.1, l.2 ++ c :: x) := by
  rw [label?, label?, takeWhile_append_of_stop seam.noWord, dropWhile_append_of_stop seam.noWord,
    startsWithLoneColon_append_seam seam]
  split <;> rfl

theorem closing_isPrefixOf_append_seam (d : Char) (u x : Text) :
    ['*', '/'].isPrefixOf (d :: (u ++ c :: x)) = ['*', '/'].isPrefixOf (d :: u) := by
  have noSlash : c ≠ '/' := fun same => seam.noPart (by simp [same])
  cases u with
  | nil => simp [List.isPrefixOf, Ne.symm noSlash]
  | cons e u => rfl

namespace Passage

/-- A passage in front of a seam stops before it, or goes on with it. -/
theorem exists_scan_append_seam (lineStart : Bool) (u : Text) :
    ∃ atStart, ∀ x, scan lineStart (u ++ c :: x) =
      if (scan lineStart u).stop = .endOfSource then
        prepend (scan lineStart u).text (scan atStart (c :: x))
      else { scan lineStart u with rest := (scan lineStart u).rest ++ c :: x } := by
  fun_induction scan lineStart u with
  | case1 lineStart => exact ⟨lineStart, fun x => by rw [List.nil_append, if_pos rfl]; rfl⟩
  | case2 lineStart d u isClosing =>
    refine ⟨lineStart, fun x => ?_⟩
    obtain ⟨e, u, rfl⟩ : ∃ e v, u = e :: v := by
      cases u with
      | nil => simp at isClosing
      | cons e v => exact ⟨e, v, rfl⟩
    rw [List.cons_append, scan, closing_isPrefixOf_append_seam seam, if_pos isClosing]
    rfl
  | case3 d u notClosing isMargin ih =>
    obtain ⟨atStart, ih⟩ := ih
    refine ⟨atStart, fun x => ?_⟩
    rw [List.cons_append, scan, closing_isPrefixOf_append_seam seam, if_neg notClosing, if_pos rfl,
      if_pos isMargin, ih]
  | case4 d u notClosing noMargin isBreak ih =>
    obtain ⟨atStart, ih⟩ := ih
    refine ⟨atStart, fun x => ?_⟩
    rw [List.cons_append, scan, closing_isPrefixOf_append_seam seam, if_neg notClosing, if_pos rfl,
      if_neg noMargin, if_pos isBreak, ih, cons_stop]
    split <;> rfl
  | case5 d u notClosing noMargin noBreak word rest isLabel =>
    refine ⟨true, fun x => ?_⟩
    rw [List.cons_append, scan, closing_isPrefixOf_append_seam seam, if_neg notClosing, if_pos rfl,
      if_neg noMargin, if_neg noBreak, label?_append_seam seam, isLabel]
    rfl
  | case6 d u notClosing noMargin noBreak noLabel ih =>
    obtain ⟨atStart, ih⟩ := ih
    refine ⟨atStart, fun x => ?_⟩
    rw [List.cons_append, scan, closing_isPrefixOf_append_seam seam, if_neg notClosing, if_pos rfl,
      if_neg noMargin, if_neg noBreak, label?_append_seam seam, noLabel, cons_stop]
    simp only [Option.map_none, ih]
    split <;> rfl
  | case7 lineStart d u notClosing within ih =>
    obtain ⟨atStart, ih⟩ := ih
    refine ⟨atStart, fun x => ?_⟩
    rw [List.cons_append, scan, closing_isPrefixOf_append_seam seam, if_neg notClosing,
      if_neg within, ih, cons_stop]
    split <;> rfl

end Passage

end Passages

/-! ## Declarations -/

/-- **A declaration in front of a character on which it ends** is read the same way whatever
follows. -/
theorem declaration_append_of_stop {c : Char} {x : Text}
    (ends : declaration (c :: x) = ([], c :: x)) (noPart : c ∉ ['*', ':']) (u : Text) :
    declaration (u ++ c :: x) = ((declaration u).1, (declaration u).2 ++ c :: x) := by
  simp only [List.mem_cons, List.not_mem_nil, or_false, not_or] at noPart
  -- No opening goes on behind the text, so it starts there as it does alone.
  have opens (d : Char) (u : Text) :
      opening.isPrefixOf (d :: (u ++ c :: x)) = opening.isPrefixOf (d :: u) := by
    rcases u with - | ⟨e, - | ⟨f, u⟩⟩
    · simp [opening, List.isPrefixOf, Ne.symm noPart.1]
    · simp [opening, List.isPrefixOf, Ne.symm noPart.2]
    · rfl
  have single {d : Char} {u : Text} (noPair : ∀ t, d = ':' → u = ':' :: t → False) :
      ∀ t, d = ':' → u ++ c :: x = ':' :: t → False := by
    intro t isColon same
    cases u with
    | nil => exact noPart.2 (List.cons.inj same).1
    | cons e u => exact noPair u isColon (by rw [(List.cons.inj same).1])
  fun_induction declaration u with
  | case1 => exact ends
  | case2 u ih => rw [List.cons_append, List.cons_append, declaration, ih]
  | case3 d u noPair stops =>
    rw [List.cons_append, declaration, opens, if_pos stops]
    exact single noPair
  | case4 d u noPair goes ih =>
    rw [List.cons_append, declaration, opens, if_neg goes, ih]
    exact single noPair

end Docblock
