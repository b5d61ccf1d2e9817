import Docblock.Lexeme
import Docblock.Proofs.Occurrence
import Mathlib.Data.List.TakeWhile

/-!
# What a lexeme takes

Scanning takes a margin and the lexeme behind it. The end of a block and the opening of the next one
are looked for in the characters that are left, so what matters is which of those signs a scan takes
a part of. The margin never takes a part of the end of a block, and among the lexemes only the name
of an operator does, apart from the end itself. An opening is less safe: its slash and its star pass
for a margin.

## Main definitions

* `Lexeme.behind n t`, `Lexeme.nth n t`: the text behind the first `n` lexemes, and its lexeme
* `Lexeme.TakesClosing`, `Lexeme.TakesOpening`: the ways in which a scan takes a part of the end of
  a block, and of an opening

## Main results

* `behindFirst_closingMark_scan`: a scan takes the end of the block, or a part of it in the name of
  an operator, or leaves the first end of a block where it is
* `behindFirst_opening_behind_iff`: the next opening is found from behind some lexemes on exactly
  when none of them takes a part of one
-/

namespace Docblock.Lexeme

/-- The text behind the first lexemes of a text. -/
def behind : Nat → Text → Text
  | 0, t => t
  | n + 1, t => (scan (behind n t)).2

@[simp] theorem behind_zero (t : Text) : behind 0 t = t := rfl

theorem behind_succ (n : Nat) (t : Text) : behind (n + 1) t = (scan (behind n t)).2 := rfl

theorem behind_add (n m : Nat) (t : Text) : behind (n + m) t = behind m (behind n t) := by
  induction m with
  | zero => rfl
  | succ m ih => rw [← Nat.add_assoc, behind_succ, behind_succ, ih]

theorem behind_suffix (n : Nat) (t : Text) : behind n t <:+ t := by
  induction n with
  | zero => exact List.suffix_rfl
  | succ n ih => exact (scan_rest_suffix _).trans ih

theorem behind_suffix_of_le {n m : Nat} (h : n ≤ m) (t : Text) : behind m t <:+ behind n t := by
  obtain ⟨d, rfl⟩ := Nat.exists_eq_add_of_le h
  rw [behind_add]
  exact behind_suffix d _

/-- The lexeme behind the first lexemes of a text. -/
def nth (n : Nat) (t : Text) : Lexeme := (scan (behind n t)).1

/-- The ways in which a scan takes the star of the end of a block, but not as the end: the name of
an operator goes over it. -/
inductive TakesClosing (t : Text) : Prop
  /-- The end lies among the signs of an operator. -/
  | signs {signs rest : Text} (scanned : scan t = (identifier ("operator".toList ++ signs), rest))
      (inside : closingMark <:+: signs)
  /-- The star is taken for that of a pointer type, which lacks its closing parenthesis. -/
  | conversion {type rest : Text}
      (scanned : scan t = (identifier ("operator(".toList ++ type ++ ['*']), '/' :: rest))

/-- The ways in which a scan takes the slash of an opening. -/
inductive TakesOpening (t : Text) : Prop
  /-- The slash is the lexeme, or the last character of the end of a block. -/
  | slash {sign rest : Text} (scanned : scan t = (symbol (sign ++ ['/']), '*' :: ':' :: rest))
  /-- The slash and the star are the last characters of the margin, and the colon starts the
  lexeme. -/
  | margin {before rest : Text} (margin : t = before ++ opening ++ rest)
      (skipped : skipMargin false t = ':' :: rest)
  /-- The slash and the star are the last signs of the name of an operator. -/
  | signs {signs rest : Text}
      (scanned : scan t = (identifier ("operator".toList ++ signs ++ ['/', '*']), ':' :: rest))

/-! ## The margin -/

/-- The character behind a star tells whether the star closes the block. -/
theorem startsWithMarginMark_cons (d : Char) (t : Text) :
    startsWithMarginMark (d :: t) = (d == '/' || d == '*' && t.head? != some '/') := by
  unfold startsWithMarginMark
  split
  · rename_i same
    obtain ⟨rfl, rfl⟩ := List.cons.inj same
    rfl
  · rename_i notClosing same
    obtain ⟨rfl, rfl⟩ := List.cons.inj same
    cases t with
    | nil => rfl
    | cons e t =>
      have noSlash : e ≠ '/' := fun isSlash => notClosing t (by rw [isSlash])
      simp [noSlash]
  · rename_i same
    obtain ⟨rfl, rfl⟩ := List.cons.inj same
    rfl
  · rename_i noStar noSlash
    have isOther : d ≠ '*' ∧ d ≠ '/' :=
      ⟨fun h => noStar t (by rw [h]), fun h => noSlash t (by rw [h])⟩
    simp [isOther]

/-- **The margin takes no part of the end of a block.** -/
theorem behindFirst_closingMark_skipMargin (fresh : Bool) (t : Text) :
    behindFirst closingMark (skipMargin fresh t) = behindFirst closingMark t := by
  have step {c : Char} (t : Text) (outside : c = '*' → t.head? ≠ some '/') :
      behindFirst closingMark (c :: t) = behindFirst closingMark t := by
    -- The search passes a character that no end starts with.
    have skips : ¬ closingMark <+: c :: t := fun ends =>
      have ⟨star, slash⟩ := closingMark_prefix_cons_iff.1 ends
      outside star slash
    rw [behindFirst, if_neg (by simpa using skips)]
  induction t generalizing fresh with
  | nil => rfl
  | cons c t ih =>
    rw [skipMargin]
    split
    · rename_i blank
      rw [ih, step]
      rintro rfl
      exact absurd blank (by decide)
    · split
      · rename_i lineBreak
        rw [ih, step]
        rintro rfl
        exact absurd lineBreak (by decide)
      · split
        · -- A star is no mark of the margin in front of a slash.
          rename_i mark
          rw [ih, step]
          rintro rfl slash
          obtain ⟨u, rfl⟩ := List.head?_eq_some_iff.1 slash
          simp [startsWithMarginMark] at mark
        · rfl

/-- Where a mark of the margin is left, only blanks have been passed. -/
theorem exists_skipMargin_append (fresh : Bool) (t : Text) :
    ∃ m, m ++ skipMargin fresh t = t ∧ ':' ∉ m ∧
      (startsWithMarginMark (skipMargin fresh t) = true → fresh = false ∧ ∀ c ∈ m, isBlank c) := by
  induction t generalizing fresh with
  | nil => exact ⟨[], rfl, by simp, by simp [skipMargin, startsWithMarginMark]⟩
  | cons c t ih =>
    rw [skipMargin]
    split
    · rename_i blank
      obtain ⟨m, whole, colon, marked⟩ := ih fresh
      refine ⟨c :: m, by rw [List.cons_append, whole], ?_, fun mark => ?_⟩
      · rintro (_ | ⟨_, inside⟩)
        · exact absurd blank (by decide)
        · exact colon inside
      · exact ⟨(marked mark).1, List.forall_mem_cons.2 ⟨blank, (marked mark).2⟩⟩
    · split
      · -- Behind a line break no mark is left.
        rename_i lineBreak
        obtain ⟨m, whole, colon, marked⟩ := ih true
        refine ⟨c :: m, by rw [List.cons_append, whole], ?_, fun mark => ?_⟩
        · rintro (_ | ⟨_, inside⟩)
          · exact absurd lineBreak (by decide)
          · exact colon inside
        · exact absurd (marked mark).1 (by decide)
      · split
        · rename_i mark
          obtain ⟨isFresh, mark⟩ := Bool.and_eq_true_iff.1 mark
          obtain ⟨m, whole, colon, marked⟩ := ih fresh
          refine ⟨c :: m, by rw [List.cons_append, whole], ?_, fun again => ?_⟩
          · rintro (_ | ⟨_, inside⟩)
            · exact absurd mark (by simp [startsWithMarginMark])
            · exact colon inside
          · exact absurd ((marked again).1.symm.trans isFresh) (by decide)
        · -- The margin ends here.
          rename_i mark
          refine ⟨[], rfl, by simp, fun marked => ⟨?_, by simp⟩⟩
          simpa [marked] using mark

/-- An opening begins in the margin only with the slash and the star at its end. -/
theorem begins_opening_margin_iff {m t : Text} (whole : m ++ skipMargin false t = t)
    (colon : ':' ∉ m)
    (marked : startsWithMarginMark (skipMargin false t) = true → ∀ c ∈ m, isBlank c) :
    Begins opening m (skipMargin false t) ↔
      ∃ before rest, t = before ++ opening ++ rest ∧ skipMargin false t = ':' :: rest := by
  constructor
  · intro begins
    rcases begins_opening_iff.1 begins with inside | ⟨before, v, rfl, stopped⟩ |
      ⟨before, v, rfl, stopped⟩
    · exact absurd (inside.subset (by simp [opening])) colon
    · -- Only the slash has been passed: the star would have been passed as well.
      have blank := marked (by simp [stopped, startsWithMarginMark]) '/' (by simp)
      exact absurd blank (by decide)
    · refine ⟨before, v, ?_, stopped⟩
      rw [← whole, stopped]
      simp [opening]
  · rintro ⟨before, rest, split, stopped⟩
    have margin : m = before ++ ['/', '*'] := by
      rw [stopped] at whole
      apply List.append_cancel_right
      rw [whole, split]
      simp [opening]
    refine ⟨['/', '*'], by simp, ⟨before, margin.symm⟩, rest, ?_⟩
    rw [stopped]
    rfl

/-! ## The name of an operator -/

/-- The names that scanning gives: a word, or the word `operator` with signs, or with a type between
parentheses, of which the closing one may be missing. -/
inductive Name : Text → Text → Prop
  /-- A word. -/
  | word {word rest : Text} (chars : ∀ c ∈ word, startsIdentifier c || continuesIdentifier c) :
      Name word rest
  /-- An operator with its signs; no sign follows. -/
  | signs {signs rest : Text} (chars : ∀ c ∈ signs, isOperatorSign c)
      (stops : ∀ c, rest.head? = some c → isOperatorSign c = false) :
      Name ("operator".toList ++ signs) rest
  /-- An operator that converts to a type. -/
  | conversion {type rest : Text} (chars : ∀ c ∈ type, isConversionChar c) :
      Name ("operator(".toList ++ type ++ [')']) rest
  /-- An operator that converts to a type, without the closing parenthesis. -/
  | opened {type rest : Text} (chars : ∀ c ∈ type, isConversionChar c) :
      Name ("operator(".toList ++ type) rest

/-- Scanning an identifier gives a name. -/
theorem name_scanIdentifier {c : Char} (t : Text) (starts : startsIdentifier c = true) :
    Name (scanIdentifier c t).1 (scanIdentifier c t).2 := by
  have taken {p : Char → Bool} {u : Text} : ∀ d ∈ u.takeWhile p, p d :=
    fun d inside => List.mem_takeWhile_imp inside
  have stops {p : Char → Bool} {u : Text} : ∀ d, (u.dropWhile p).head? = some d → p d = false := by
    intro d found
    simpa [found] using List.head?_dropWhile_not p u
  unfold scanIdentifier extendOperator
  split
  · rename_i operator
    rw [operator]
    unfold scanOperator
    split
    · split
      · simpa using Name.conversion taken
      · exact Name.opened taken
    · exact Name.signs taken stops
  · apply Name.word
    intro d inside
    rcases List.mem_cons.1 inside with rfl | inside
    · simp [starts]
    · simp [taken d inside]

/-! ## The end of a block -/

/-- What is left behind the margin is the lexeme with the text behind it. -/
theorem text_append_scan (t : Text) : (scan t).1.text ++ (scan t).2 = skipMargin false t :=
  scanHere_append _

/-- The lexeme of a text that a scan finds behind a margin. -/
theorem scan_cases (t : Text) :
    scan t = (endOfSource, []) ∨ (∃ word rest, scan t = (identifier word, rest) ∧ Name word rest) ∨
      ∃ c u, startsIdentifier c = false ∧ skipMargin false t = c :: u ∧
        scan t = (symbol (scanSymbol c u).1, (scanSymbol c u).2) := by
  unfold scan
  cases skipMargin false t with
  | nil => exact Or.inl rfl
  | cons c u =>
    simp only [scanHere]
    split
    · rename_i starts
      exact Or.inr (Or.inl ⟨_, _, rfl, name_scanIdentifier u starts⟩)
    · rename_i starts
      exact Or.inr (Or.inr ⟨c, u, by simpa using starts, rfl, rfl⟩)

theorem begins_closingMark_scanSymbol_iff {c : Char} {u : Text} :
    Begins closingMark (scanSymbol c u).1 (scanSymbol c u).2 ↔
      (scanSymbol c u).1 = closingMark := by
  unfold scanSymbol
  split
  · simp [begins_cons, closingMark]
  · simp [begins_cons, closingMark]
  · simp [begins_cons, closingMark]
  · rename_i notClosing _ _
    simp only [begins_cons, not_begins_nil, or_false, List.nil_append, closingMark]
    constructor
    · rintro ⟨v, whole⟩
      simp only [List.cons_append, List.nil_append, List.cons.injEq] at whole
      exact absurd whole.2.symm (notClosing v whole.1.symm)
    · simp

/-- A type takes only the star of the end of a block. -/
theorem begins_closingMark_type {type rest : Text} (chars : ∀ c ∈ type, isConversionChar c)
    (begins : Begins closingMark type rest) :
    ∃ before u, type = before ++ ['*'] ∧ rest = '/' :: u := by
  apply (begins_closingMark_iff.1 begins).resolve_left
  intro inside
  have slash := chars '/' (inside.subset (by simp [closingMark]))
  exact absurd slash (by decide)

/-- A name takes a part of the end of a block in two ways. -/
theorem begins_closingMark_name_iff {word rest : Text} (name : Name word rest) :
    Begins closingMark word rest ↔
      (∃ signs, word = "operator".toList ++ signs ∧ closingMark <:+: signs) ∨
        ∃ type u, word = "operator(".toList ++ type ++ ['*'] ∧ rest = '/' :: u := by
  constructor
  · intro begins
    cases name with
    | word chars =>
      -- A word has no star.
      apply absurd begins
      apply not_begins_of_head_notMem
      intro star
      exact absurd (chars _ star) (by decide)
    | @signs signs rest chars stops =>
      have behind := (begins_append.1 begins).resolve_left
        (not_begins_of_head_notMem (by decide) _)
      rcases begins_closingMark_iff.1 behind with inside | ⟨before, u, -, rfl⟩
      · exact Or.inl ⟨signs, rfl, inside⟩
      · -- The slash would be a sign as well.
        exact absurd (stops '/' rfl) (by decide)
    | @conversion type rest chars =>
      rw [begins_append, begins_append] at begins
      rcases begins with (outside | inside) | outside
      · exact absurd outside (not_begins_of_head_notMem (by decide) _)
      · -- The closing parenthesis follows the type, not a slash.
        obtain ⟨before, u, -, slash⟩ := begins_closingMark_type chars inside
        simp at slash
      · exact absurd outside (not_begins_of_head_notMem (by decide) _)
    | @opened type rest chars =>
      rcases begins_append.1 begins with outside | inside
      · exact absurd outside (not_begins_of_head_notMem (by decide) _)
      · obtain ⟨before, u, rfl, rfl⟩ := begins_closingMark_type chars inside
        exact Or.inr ⟨before, u, (List.append_assoc _ _ _).symm, rfl⟩
  · rintro (⟨signs, rfl, ⟨before, behind, rfl⟩⟩ | ⟨type, u, rfl, rfl⟩)
    · refine ⟨closingMark ++ behind, by simp [closingMark], ⟨"operator".toList ++ before, ?_⟩, ?_⟩
      · simp
      · exact ⟨behind ++ rest, by simp⟩
    · exact ⟨['*'], by simp, ⟨_, rfl⟩, u, rfl⟩

/-- **A scan takes a part of the end of a block** only as the end, or in the name of an operator. -/
theorem begins_closingMark_scan_iff (t : Text) :
    Begins closingMark (scan t).1.text (scan t).2 ↔ (scan t).1 = closing ∨ TakesClosing t := by
  have takes : TakesClosing t → ∃ word rest, scan t = (identifier word, rest) ∧
      ((∃ signs, word = "operator".toList ++ signs ∧ closingMark <:+: signs) ∨
        ∃ type u, word = "operator(".toList ++ type ++ ['*'] ∧ rest = '/' :: u) := by
    rintro (⟨scanned, inside⟩ | ⟨scanned⟩)
    · exact ⟨_, _, scanned, Or.inl ⟨_, rfl, inside⟩⟩
    · exact ⟨_, _, scanned, Or.inr ⟨_, _, rfl, rfl⟩⟩
  rcases scan_cases t with ended | ⟨word, rest, scanned, name⟩ | ⟨c, u, -, -, scanned⟩
  · have none : ¬ TakesClosing t := by
      intro taken
      obtain ⟨word, rest, scanned, -⟩ := takes taken
      rw [ended] at scanned
      simp at scanned
    simp [ended, none, text, closing]
  · rw [scanned]
    refine (begins_closingMark_name_iff name).trans ⟨?_, ?_⟩
    · rintro (⟨signs, rfl, inside⟩ | ⟨type, u, rfl, rfl⟩)
      · exact Or.inr (.signs scanned inside)
      · exact Or.inr (.conversion scanned)
    · rintro (isClosing | taken)
      · simp [closing] at isClosing
      · obtain ⟨word', rest', scanned', shape⟩ := takes taken
        rw [scanned] at scanned'
        simp only [Prod.mk.injEq, identifier.injEq] at scanned'
        obtain ⟨rfl, rfl⟩ := scanned'
        exact shape
  · have none : ¬ TakesClosing t := by
      intro taken
      obtain ⟨word, rest, scanned', -⟩ := takes taken
      rw [scanned] at scanned'
      simp at scanned'
    rw [scanned]
    refine begins_closingMark_scanSymbol_iff.trans ?_
    simp [none, closing, closingMark]

/-- **Where the first end of a block is after a scan**: it has been taken, as the end or in the name
of an operator, or it stands where it stood. -/
theorem behindFirst_closingMark_scan {t u : Text} (found : behindFirst closingMark t = some u) :
    scan t = (closing, u) ∨ TakesClosing t ∨
      (scan t).1 ≠ closing ∧ behindFirst closingMark (scan t).2 = some u := by
  rw [← behindFirst_closingMark_skipMargin false, ← text_append_scan] at found
  by_cases begins : Begins closingMark (scan t).1.text (scan t).2
  · rcases (begins_closingMark_scan_iff t).1 begins with isClosing | taken
    · -- Where the end is the lexeme, it is the first one, so `u` is behind it.
      refine Or.inl (Prod.ext isClosing ?_)
      rw [isClosing] at found
      simpa [closing, text, closingMark, behindFirst] using found
    · exact Or.inr (Or.inl taken)
  · rw [behindFirst_append_of_not_begins begins] at found
    have other := mt (begins_closingMark_scan_iff t).2 begins
    exact Or.inr (Or.inr ⟨fun isClosing => other (Or.inl isClosing), found⟩)

/-- The name of an operator that goes over the star leaves less than the whole sign. -/
theorem TakesClosing.length_lt {t u : Text} (taken : TakesClosing t)
    (found : behindFirst closingMark t = some u) : (scan t).2.length < 2 + u.length := by
  rw [← behindFirst_closingMark_skipMargin false, ← text_append_scan] at found
  obtain ⟨v, found', short⟩ :=
    exists_behindFirst_of_begins ((begins_closingMark_scan_iff t).2 (Or.inr taken))
  obtain rfl : u = v := Option.some.inj (found.symm.trans found')
  exact short

/-! ## Openings -/

theorem begins_opening_scanSymbol_iff {c : Char} {u : Text} :
    Begins opening (scanSymbol c u).1 (scanSymbol c u).2 ↔
      ∃ sign v, (scanSymbol c u).1 = sign ++ ['/'] ∧ (scanSymbol c u).2 = '*' :: ':' :: v := by
  constructor
  · unfold scanSymbol
    split
    · rintro begins
      obtain ⟨v, whole⟩ : opening <+: '/' :: _ := by simpa [begins_cons, opening] using begins
      exact ⟨['*'], v, rfl, by simpa [opening] using whole.symm⟩
    · simp [begins_cons, opening]
    · simp [begins_cons, opening]
    · rintro begins
      obtain ⟨v, whole⟩ : opening <+: _ :: _ := by simpa [begins_cons] using begins
      simp only [opening, List.cons_append, List.nil_append, List.cons.injEq] at whole
      obtain ⟨rfl, rfl⟩ := whole
      exact ⟨[], v, rfl, rfl⟩
  · rintro ⟨sign, v, isSlash, behind⟩
    rw [isSlash, behind]
    exact ⟨['/'], by simp, ⟨sign, rfl⟩, v, rfl⟩

/-- A name takes an opening only with the last two of its signs. -/
theorem begins_opening_name_iff {word rest : Text} (name : Name word rest) :
    Begins opening word rest ↔
      ∃ signs u, word = "operator".toList ++ signs ++ ['/', '*'] ∧ rest = ':' :: u := by
  constructor
  · intro begins
    cases name with
    | word chars =>
      apply absurd begins
      apply not_begins_of_head_notMem
      intro slash
      exact absurd (chars _ slash) (by decide)
    | @signs signs rest chars stops =>
      have behind := (begins_append.1 begins).resolve_left
        (not_begins_of_head_notMem (by decide) _)
      rcases begins_opening_iff.1 behind with inside | ⟨before, u, -, rfl⟩ | ⟨before, u, rfl, rfl⟩
      · -- A colon is no sign.
        have colon := chars ':' (inside.subset (by simp [opening]))
        exact absurd colon (by decide)
      · -- The star would be a sign as well.
        exact absurd (stops '*' rfl) (by decide)
      · exact ⟨before, u, (List.append_assoc _ _ _).symm, rfl⟩
    | @conversion type rest chars =>
      apply absurd begins
      apply not_begins_of_head_notMem
      intro slash
      simp only [List.mem_append, List.mem_singleton] at slash
      rcases slash with (outside | inside) | outside
      · exact absurd outside (by decide)
      · exact absurd (chars _ inside) (by decide)
      · exact absurd outside (by decide)
    | @opened type rest chars =>
      apply absurd begins
      apply not_begins_of_head_notMem
      intro slash
      rcases List.mem_append.1 slash with outside | inside
      · exact absurd outside (by decide)
      · exact absurd (chars _ inside) (by decide)
  · rintro ⟨signs, u, rfl, rfl⟩
    exact ⟨['/', '*'], by simp, ⟨_, rfl⟩, u, rfl⟩

/-- **An opening is found from behind a lexeme on** exactly when the scan takes no part of one. -/
theorem behindFirst_opening_scan_iff (t : Text) :
    behindFirst opening t = behindFirst opening (scan t).2 ↔ ¬ TakesOpening t := by
  -- What is taken is the margin and the lexeme, and an opening may begin in either.
  obtain ⟨m, whole, colon, marked⟩ := exists_skipMargin_append false t
  have margin := begins_opening_margin_iff whole colon fun mark => (marked mark).2
  rw [behindFirst_eq_trans_iff ⟨m, whole⟩ ⟨_, text_append_scan t⟩, behindFirst_eq_iff whole,
    behindFirst_eq_iff (text_append_scan t), ← not_or, not_iff_not, margin]
  constructor
  · rintro (⟨before, rest, split, skipped⟩ | begins)
    · exact .margin split skipped
    · rcases scan_cases t with ended | ⟨word, rest, scanned, name⟩ | ⟨c, u, -, -, scanned⟩
      · rw [ended] at begins
        exact absurd begins (not_begins_nil _ _)
      · rw [scanned] at begins
        obtain ⟨signs, u, rfl, rfl⟩ := (begins_opening_name_iff name).1 begins
        exact .signs scanned
      · rw [scanned] at begins
        obtain ⟨sign, v, isSlash, behind⟩ := begins_opening_scanSymbol_iff.1 begins
        rw [isSlash, behind] at scanned
        exact .slash scanned
  · rintro (⟨scanned⟩ | ⟨split, skipped⟩ | ⟨scanned⟩)
    · rw [scanned]
      exact Or.inr ⟨['/'], by simp, ⟨_, rfl⟩, _, rfl⟩
    · exact Or.inl ⟨_, _, split, skipped⟩
    · rw [scanned]
      exact Or.inr ⟨['/', '*'], by simp, ⟨_, rfl⟩, _, rfl⟩

/-- **An opening is found from behind some lexemes on** exactly when none of them takes a part of
one. -/
theorem behindFirst_opening_behind_iff (n : Nat) (t : Text) :
    behindFirst opening t = behindFirst opening (behind n t) ↔
      ∀ k < n, ¬ TakesOpening (behind k t) := by
  induction n with
  | zero => simp
  | succ n ih =>
    rw [behind_succ, behindFirst_eq_trans_iff (behind_suffix n t) (scan_rest_suffix _), ih,
      behindFirst_opening_scan_iff]
    exact (Nat.forall_lt_succ_right).symm

/-! ## What no lexeme contains -/

/-- What stands between two lexemes: a blank or a line break. -/
def separates (c : Char) : Bool := isBlank c || isLineBreak c

theorem separates_iff {c : Char} :
    separates c = true ↔ c ∈ [' ', '\t', '\x0c', '\x0b', '\n', '\r'] := by
  simp [separates, isBlank, isLineBreak, or_assoc]

/-- A class of characters that leaves the blanks and the line breaks out. -/
theorem separates_eq_false {p : Char → Bool} {c : Char}
    (outside : [' ', '\t', '\x0c', '\x0b', '\n', '\r'].all (fun d => !p d) = true)
    (inside : p c = true) : separates c = false := by
  apply eq_false_of_ne_true
  intro between
  have left := List.all_eq_true.1 outside c (separates_iff.1 between)
  rw [inside] at left
  exact absurd left (by decide)

/-- Neither a blank nor a line break stands behind a margin. -/
theorem separates_of_skipMargin {fresh : Bool} {t u : Text} {c : Char}
    (skipped : skipMargin fresh t = c :: u) : separates c = false := by
  induction t generalizing fresh with
  | nil => cases skipped
  | cons d t ih =>
    rw [skipMargin] at skipped
    split at skipped
    · exact ih skipped
    · rename_i noBlank
      split at skipped
      · exact ih skipped
      · rename_i noBreak
        split at skipped
        · exact ih skipped
        · obtain ⟨rfl, -⟩ := List.cons.inj skipped
          exact Bool.or_eq_false_iff.2 ⟨eq_false_of_ne_true noBlank, eq_false_of_ne_true noBreak⟩

theorem Name.separates_eq_false {word rest : Text} (name : Name word rest) :
    ∀ c ∈ word, separates c = false := by
  have operator {c : Char} (inside : c ∈ "operator(".toList) : separates c = false :=
    Lexeme.separates_eq_false (p := fun d => "operator(".toList.contains d) (by decide)
      (List.contains_iff_mem.2 inside)
  intro c inside
  cases name with
  | word chars =>
    exact Lexeme.separates_eq_false (p := fun d => startsIdentifier d || continuesIdentifier d)
      (by decide) (chars c inside)
  | signs chars stops =>
    rcases List.mem_append.1 inside with outside | inside
    · exact operator (List.mem_append_left ['('] outside)
    · exact Lexeme.separates_eq_false (by decide) (chars c inside)
  | conversion chars =>
    rcases List.mem_append.1 inside with inside | last
    · rcases List.mem_append.1 inside with outside | inside
      · exact operator outside
      · exact Lexeme.separates_eq_false (by decide) (chars c inside)
    · rw [List.mem_singleton.1 last]
      rfl
  | opened chars =>
    rcases List.mem_append.1 inside with outside | inside
    · exact operator outside
    · exact Lexeme.separates_eq_false (by decide) (chars c inside)

/-- **No lexeme contains a blank or a line break.** -/
theorem separates_of_mem_text {t : Text} {c : Char} (inside : c ∈ (scan t).1.text) :
    separates c = false := by
  rcases scan_cases t with ended | ⟨word, rest, scanned, name⟩ | ⟨d, u, -, skipped, scanned⟩
  · rw [ended] at inside
    cases inside
  · rw [scanned] at inside
    exact name.separates_eq_false c inside
  · -- The first character is what the margin has left, and a second one is a fixed sign.
    have first := separates_of_skipMargin skipped
    rw [scanned] at inside
    change c ∈ (scanSymbol d u).1 at inside
    unfold scanSymbol at inside
    split at inside
    · exact Lexeme.separates_eq_false (p := fun c => ['*', '/'].contains c) (by decide)
        (List.contains_iff_mem.2 inside)
    · exact Lexeme.separates_eq_false (p := fun c => [':', ':'].contains c) (by decide)
        (List.contains_iff_mem.2 inside)
    · exact Lexeme.separates_eq_false (p := fun c => ['(', ')'].contains c) (by decide)
        (List.contains_iff_mem.2 inside)
    · rw [List.mem_singleton.1 inside]
      exact first

end Docblock.Lexeme
