import Docblock.Passage
import Docblock.Proofs.Extent

/-!
# Words and signs between gaps

A header is scanned piece by piece: a gap is passed, and the word or the sign behind it is the next
lexeme. A word ends in front of any character that no identifier goes on with; only the word
`operator` also minds the signs and the parenthesis that it would take along.

## Main definitions

* `Identifier`: a word that is scanned as one
* `Gap`: spaces and tabs
* `Identifier.EndsBefore w t`: the word `w` ends where the text `t` starts
* `Lexes xs t u`: the lexemes `xs` are what `t` starts with, and `u` is behind them

## Main results

* `takeWhile_append_of_stop`, `dropWhile_append_of_stop`: a run ends at a character outside of it
* `scan_gap`: a gap is passed
* `scan_identifier`: a word is a lexeme where it ends
* `scan_scope`, `scan_closing`, `scan_hash`, `scan_of_startsWithLoneColon`: signs are lexemes
* `Lexes.nth`, `Lexes.behind`: what is scanned along a list of lexemes
-/

namespace Docblock

/-! ## Runs that a character ends -/

section TakeWhile

variable {p : Char → Bool} {c : Char} (stops : p c = false) (u x : Text)

include stops

theorem takeWhile_append_of_stop : (u ++ c :: x).takeWhile p = u.takeWhile p := by
  rw [List.takeWhile_append, List.takeWhile_cons_of_neg (by simp [stops]), List.append_nil]
  split
  · rename_i whole
    exact ((List.takeWhile_prefix p).eq_of_length whole).symm
  · rfl

theorem dropWhile_append_of_stop : (u ++ c :: x).dropWhile p = u.dropWhile p ++ c :: x := by
  rw [List.dropWhile_append, List.dropWhile_cons_of_neg (by simp [stops])]
  split
  · rename_i nothing
    rw [List.isEmpty_iff.1 nothing, List.nil_append]
  · rfl

end TakeWhile

/-! ## Words and gaps -/

/-- A word: a letter, an underscore or a tilde, and what identifiers go on with. -/
structure Identifier where
  first : Char
  others : Text
  starts : startsIdentifier first = true
  continues : others.all continuesIdentifier = true

/-- The characters of a word. -/
def Identifier.text (w : Identifier) : Text := w.first :: w.others

theorem Identifier.continues_of_mem (w : Identifier) :
    ∀ c ∈ w.others, continuesIdentifier c = true := List.all_eq_true.1 w.continues

/-- Spaces and tabs. -/
structure Gap where
  chars : Text
  blank : ∀ c ∈ chars, c = ' ' ∨ c = '\t'

/-- No gap. -/
def Gap.none : Gap := ⟨[], by simp⟩

/-- A single space. -/
def Gap.space : Gap := ⟨[' '], by simp⟩

/-- A word ends where a text starts: nothing there belongs to it, nor to an operator's name. -/
def Identifier.EndsBefore (w : Identifier) (t : Text) : Prop :=
  ∀ c, t.head? = some c → continuesIdentifier c = false ∧
    (w.text = "operator".toList → c ≠ '(' ∧ isOperatorSign c = false)

/-- What no identifier starts with is not the first character of one. -/
theorem ne_of_startsIdentifier {c d : Char} (starts : startsIdentifier c = true)
    (outside : startsIdentifier d = false) : c ≠ d := by
  rintro rfl
  rw [starts] at outside
  exact absurd outside (by decide)

/-- No identifier starts with a blank or a line break. -/
theorem isBlank_of_startsIdentifier {c : Char} (starts : startsIdentifier c = true) :
    isBlank c = false ∧ isLineBreak c = false := by
  constructor
  · by_contra blank
    simp only [isBlank, Bool.not_eq_false, Bool.or_eq_true, beq_iff_eq] at blank
    rcases blank with ((rfl | rfl) | rfl) | rfl <;> exact absurd starts (by decide)
  · by_contra lineBreak
    simp only [isLineBreak, Bool.not_eq_false, Bool.or_eq_true, beq_iff_eq] at lineBreak
    rcases lineBreak with rfl | rfl <;> exact absurd starts (by decide)

/-- A word ends before a character of a few. -/
theorem Identifier.endsBefore_cons (w : Identifier) {c : Char} (t : Text)
    (isEnd : c ∈ [' ', '\t', '\n', ':']) : w.EndsBefore (c :: t) := by
  have ends : continuesIdentifier c = false ∧ c ≠ '(' ∧ isOperatorSign c = false := by
    simp only [List.mem_cons, List.not_mem_nil, or_false] at isEnd
    rcases isEnd with rfl | rfl | rfl | rfl <;> decide
  intro d first
  obtain rfl := Option.some.inj first
  exact ⟨ends.1, fun _ => ends.2⟩

/-- A word ends before a gap. -/
theorem Identifier.endsBefore_gap_of_ne_nil (w : Identifier) {g : Gap} (apart : g.chars ≠ [])
    (t : Text) : w.EndsBefore (g.chars ++ t) := by
  obtain ⟨c, chars, shape⟩ := List.exists_cons_of_ne_nil apart
  have blank := g.blank c (by simp [shape])
  rw [shape]
  apply w.endsBefore_cons
  rcases blank with rfl | rfl <;> decide

/-- Where there may be no gap, a word ends if it ends before what follows. -/
theorem Identifier.endsBefore_gap (w : Identifier) (g : Gap) {t : Text} (ends : w.EndsBefore t) :
    w.EndsBefore (g.chars ++ t) := by
  by_cases apart : g.chars = []
  · rwa [apart, List.nil_append]
  · exact w.endsBefore_gap_of_ne_nil apart t

namespace Lexeme

/-- **A gap is passed.** -/
theorem scan_gap (g : Gap) (t : Text) : scan (g.chars ++ t) = scan t := by
  obtain ⟨chars, blank⟩ := g
  -- Blanks are skipped without a line break, so the margin stays that of a line.
  suffices skipMargin false (chars ++ t) = skipMargin false t from congrArg scanHere this
  induction chars with
  | nil => rfl
  | cons c chars ih =>
    have isBlank : isBlank c = true := by
      rcases blank c List.mem_cons_self with rfl | rfl <;> rfl
    rw [List.cons_append, skipMargin, if_pos isBlank]
    exact ih fun d inside => blank d (List.mem_cons_of_mem c inside)

/-- What is no blank and no line break ends the margin of a line. -/
theorem scan_cons {c : Char} (noBlank : isBlank c = false) (noBreak : isLineBreak c = false)
    (t : Text) : scan (c :: t) = scanHere (c :: t) := by
  rw [scan, skipMargin, if_neg (by simp [noBlank]), if_neg (by simp [noBreak]), if_neg (by simp)]

/-- The word `operator` takes nothing along where it ends. -/
theorem scanOperator_of_endsBefore {w : Identifier} {t : Text} (ends : w.EndsBefore t)
    (operator : w.text = "operator".toList) : scanOperator t = ([], t) := by
  cases t with
  | nil => rfl
  | cons c t =>
    obtain ⟨noParenthesis, noSign⟩ := (ends c rfl).2 operator
    rw [scanOperator]
    · have outside : ¬ isOperatorSign c = true := by simp [noSign]
      rw [List.takeWhile_cons_of_neg outside, List.dropWhile_cons_of_neg outside]
    · exact fun u same => noParenthesis (List.cons.inj same).1

/-- **A word is a lexeme where it ends.** -/
theorem scan_identifier (w : Identifier) {t : Text} (ends : w.EndsBefore t) :
    scan (w.text ++ t) = (.identifier w.text, t) := by
  obtain ⟨noBlank, noBreak⟩ := isBlank_of_startsIdentifier w.starts
  have stops : t.takeWhile continuesIdentifier = [] ∧ t.dropWhile continuesIdentifier = t := by
    cases t with
    | nil => exact ⟨rfl, rfl⟩
    | cons c t =>
      have outside : ¬ continuesIdentifier c = true := by simp [(ends c rfl).1]
      exact ⟨List.takeWhile_cons_of_neg outside, List.dropWhile_cons_of_neg outside⟩
  -- The word `operator` is taken in two parts, and the second one is empty here.
  have scanned : scanIdentifier w.first (w.others ++ t) = (w.text, t) := by
    rw [scanIdentifier, List.takeWhile_append_of_pos w.continues_of_mem,
      List.dropWhile_append_of_pos w.continues_of_mem, stops.1, stops.2, List.append_nil]
    show extendOperator w.text t = (w.text, t)
    rw [extendOperator]
    split
    · rename_i operator
      rw [scanOperator_of_endsBefore ends operator, List.append_nil]
    · rfl
  rw [Identifier.text, List.cons_append, scan_cons noBlank noBreak, scanHere, if_pos w.starts,
    scanned]
  rfl

theorem scan_scope (t : Text) : scan (':' :: ':' :: t) = (.scope, t) := rfl

theorem scan_closing (t : Text) : scan ('*' :: '/' :: t) = (.closing, t) := rfl

theorem scan_hash (t : Text) : scan ('#' :: t) = (.hash, t) := by
  rw [scan_cons (by decide) (by decide), scanHere, if_neg (by decide), scanSymbol]
  · rfl
  · exact fun _ same => absurd same (by decide)
  · exact fun _ same => absurd same (by decide)
  · exact fun _ same => absurd same (by decide)

/-- A colon is alone in front of a gap and a word. -/
theorem startsWithLoneColon_gap (g : Gap) (w : Identifier) (t : Text) :
    startsWithLoneColon (':' :: (g.chars ++ (w.text ++ t))) = true := by
  have alone {c : Char} (h : c ≠ ':') (v : Text) : startsWithLoneColon (':' :: c :: v) = true := by
    simp [startsWithLoneColon, h]
  obtain ⟨chars, blank⟩ := g
  cases chars with
  | nil =>
    exact alone (ne_of_startsIdentifier w.starts (by decide)) _
  | cons c chars =>
    apply alone
    intro colon
    rcases blank c List.mem_cons_self with rfl | rfl <;> exact absurd colon (by decide)

/-- A lone colon is a lexeme. -/
theorem scan_of_startsWithLoneColon {v : Text} (colon : startsWithLoneColon (':' :: v) = true) :
    scan (':' :: v) = (.colon, v) := by
  rw [scan_cons (by decide) (by decide), scanHere, if_neg (by decide)]
  cases v with
  | nil => rfl
  | cons d v =>
    by_cases second : d = ':'
    · subst second
      cases colon
    · simp [scanSymbol, second, Lexeme.colon]

/-! ## Lexemes one after the other -/

/-- The lexemes that a text starts with, and the text behind them. -/
inductive Lexes : List Lexeme → Text → Text → Prop
  /-- No lexeme. -/
  | nil {t : Text} : Lexes [] t t
  /-- A lexeme in front of others. -/
  | cons {x : Lexeme} {xs : List Lexeme} {t u v : Text} (scanned : scan t = (x, u))
      (rest : Lexes xs u v) : Lexes (x :: xs) t v

variable {xs ys : List Lexeme} {t u v : Text}

theorem Lexes.append (first : Lexes xs t u) (second : Lexes ys u v) : Lexes (xs ++ ys) t v := by
  induction first with
  | nil => exact second
  | cons scanned _ ih => exact .cons scanned (ih second)

/-- A gap in front of a lexeme is passed. -/
theorem Lexes.gap (g : Gap) (lexes : Lexes xs t u) (nonempty : xs ≠ []) :
    Lexes xs (g.chars ++ t) u := by
  cases lexes with
  | nil => exact absurd rfl nonempty
  | cons scanned rest => exact .cons ((scan_gap g t).trans scanned) rest

theorem Lexes.space (lexes : Lexes xs t u) (nonempty : xs ≠ []) : Lexes xs (' ' :: t) u :=
  lexes.gap .space nonempty

theorem behind_succ_of_scan {x : Lexeme} (scanned : scan t = (x, u)) (n : Nat) :
    behind (n + 1) t = behind n u := by
  have first : behind 1 t = u := congrArg Prod.snd scanned
  rw [Nat.add_comm, behind_add, first]

theorem Lexes.behind (lexes : Lexes xs t u) : behind xs.length t = u := by
  induction lexes with
  | nil => rfl
  | cons scanned _ ih => rw [List.length_cons, behind_succ_of_scan scanned, ih]

/-- **Along a list of lexemes** each of them is what is scanned behind those before it. -/
theorem Lexes.nth (lexes : Lexes xs t u) {k : Nat} {x : Lexeme} (listed : xs[k]? = some x) :
    nth k t = x := by
  induction lexes generalizing k with
  | nil => exact nomatch listed
  | cons scanned _ ih =>
    cases k with
    | zero =>
      obtain rfl := Option.some.inj listed
      exact congrArg Prod.fst scanned
    | succ k =>
      rw [Lexeme.nth, behind_succ_of_scan scanned]
      exact ih listed

end Lexeme

end Docblock
