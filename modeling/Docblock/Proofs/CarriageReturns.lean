import Docblock.Proofs.BetweenBlocks
import Docblock.Proofs.FaultLines
import Docblock.Proofs.PlainProse
import Docblock.Proofs.ProseLines
import Docblock.Proofs.Seam
import Docblock.Proofs.Values
import Mathlib.Data.List.Induction

/-!
# Sources whose lines end with two characters

A line may end with a line feed, or with a carriage return and a line feed. Both of them are line
breaks, and only line feeds are counted. So what is read of a text and of the text with a carriage
return in front of each line feed goes in step: each step takes the same, stands in the same line
and leaves texts that differ in the same way. Only prose and declarations keep the line breaks that
they have taken.

## Main definitions

* `withReturns`: a text with a carriage return in front of each line feed
* `Reader.withReturns`: a reader of that text, at the same place

## Main results

* `isPrefixOf_withReturns`, `dropWhile_withReturns`: what a text starts with
* `Composed.apply_withReturns`: a reading without prose takes the same
* `Block.read_withReturns`: a block is read in step, and says the same up to line breaks
* `recordSource_withReturns`: and so is a source
-/

namespace Docblock

open Lexeme Reading

/-! ## Texts -/

/-- A character, with a carriage return in front of a line feed. -/
def withReturn (c : Char) : Text := if c = '\n' then ['\r', '\n'] else [c]

/-- A text with a carriage return in front of each line feed. -/
def withReturns (t : Text) : Text := t.flatMap withReturn

variable {c : Char} {t u w : Text}

@[simp] theorem withReturns_nil : withReturns [] = [] := rfl

theorem withReturns_append (t u : Text) :
    withReturns (t ++ u) = withReturns t ++ withReturns u := List.flatMap_append

@[simp] theorem withReturns_lineFeed (t : Text) :
    withReturns ('\n' :: t) = '\r' :: '\n' :: withReturns t := rfl

theorem withReturns_cons (noFeed : c ≠ '\n') (t : Text) :
    withReturns (c :: t) = c :: withReturns t := by
  rw [withReturns, List.flatMap_cons, withReturn, if_neg noFeed]
  rfl

/-- A text stays as it is if it has no line feed. -/
theorem withReturns_eq_self_iff : withReturns t = t ↔ '\n' ∉ t := by
  induction t with
  | nil => simp
  | cons c t ih =>
    by_cases feed : c = '\n'
    · subst feed
      simp
    · rw [withReturns_cons feed, List.cons_inj_right, ih, List.mem_cons, not_or]
      exact ⟨fun others => ⟨Ne.symm feed, others⟩, And.right⟩

/-- **The number of line feeds is the same.** -/
@[simp] theorem count_withReturns (t : Text) : (withReturns t).count '\n' = t.count '\n' := by
  induction t with
  | nil => rfl
  | cons c t ih =>
    by_cases feed : c = '\n'
    · subst feed
      simp [ih]
    · rw [withReturns_cons feed, List.count_cons, List.count_cons, ih]

theorem isLineBreak_opening : ∀ c ∈ opening, isLineBreak c = false := by
  simp [opening, isLineBreak]

theorem isLineBreak_closingMark : ∀ c ∈ closingMark, isLineBreak c = false := by
  simp [closingMark, isLineBreak]

/-- **A text starts with the same words**, as long as they have no line break. -/
theorem isPrefixOf_withReturns (inLine : ∀ c ∈ w, isLineBreak c = false) (t : Text) :
    w.isPrefixOf (withReturns t) = w.isPrefixOf t := by
  induction w generalizing t with
  | nil => simp
  | cons d w ih =>
    obtain ⟨noBreak, inLine⟩ := List.forall_mem_cons.1 inLine
    cases t with
    | nil => rfl
    | cons c t =>
      by_cases feed : c = '\n'
      · subst feed
        -- Neither text starts with the first character of the word.
        rw [isLineBreak, Bool.or_eq_false_iff] at noBreak
        simp [List.isPrefixOf, noBreak]
      · rw [withReturns_cons feed, List.isPrefixOf, List.isPrefixOf, ih inLine]

/-- What is left behind the characters of one kind, where a line feed and a carriage return are of
the same kind. -/
theorem dropWhile_withReturns {p : Char → Bool} (alike : p '\r' = p '\n') (t : Text) :
    (withReturns t).dropWhile p = withReturns (t.dropWhile p) := by
  induction t with
  | nil => rfl
  | cons c t ih =>
    by_cases feed : c = '\n'
    · subst feed
      cases taken : p '\n' <;> simp [taken, alike, ih]
    · cases taken : p c <;> simp [withReturns_cons feed, taken, ih]

/-- The characters of a kind to which no line feed and no carriage return belongs. -/
theorem takeWhile_withReturns {p : Char → Bool} (noReturn : p '\r' = false)
    (noFeed : p '\n' = false) (t : Text) :
    (withReturns t).takeWhile p = t.takeWhile p := by
  induction t with
  | nil => rfl
  | cons c t ih =>
    by_cases feed : c = '\n'
    · subst feed
      simp [noReturn, noFeed]
    · cases taken : p c <;> simp [withReturns_cons feed, taken, ih]

/-- **Trimming takes both characters** of a line break. -/
theorem trim_withReturns (t : Text) : (withReturns t).trim = withReturns t.trim := by
  have right (t : Text) : Text.trimRight (withReturns t) = withReturns (Text.trimRight t) := by
    induction t using List.reverseRecOn with
    | nil => rfl
    | append_singleton t c ih =>
      rw [withReturns_append]
      cases white : Text.isWhite c with
      | true =>
        have both : ∀ d ∈ withReturns [c], Text.isWhite d = true := by
          by_cases feed : c = '\n'
          · subst feed
            exact List.all_eq_true.1 rfl
          · simpa [withReturns_cons feed] using white
        rw [Text.trimRight_append_of_white both, ih,
          Text.trimRight_append_of_white (b := [c]) (by simpa using white)]
      | false =>
        have feed : c ≠ '\n' := by
          rintro rfl
          exact nomatch white
        rw [withReturns_cons feed]
        simp [Text.trimRight, white, withReturns_append, withReturns_cons feed]
  rw [Text.trim, Text.trim, Text.trimLeft, dropWhile_withReturns rfl, right]
  rfl

/-! ## Lexemes -/

/-- **What a text starts with**, if it is no part of a line break. -/
theorem withReturns_eq_cons_iff (inLine : isLineBreak c = false) :
    withReturns t = c :: u ↔ ∃ v, t = c :: v ∧ u = withReturns v := by
  cases t with
  | nil => simp
  | cons d t =>
    by_cases feed : d = '\n'
    · subst feed
      rw [isLineBreak, Bool.or_eq_false_iff, beq_eq_false_iff_ne, beq_eq_false_iff_ne] at inLine
      simp [Ne.symm inLine.1, Ne.symm inLine.2]
    · simp [withReturns_cons feed, eq_comm]

theorem head?_withReturns_eq_some_iff (inLine : isLineBreak c = false) :
    (withReturns t).head? = some c ↔ t.head? = some c := by
  simp [List.head?_eq_some_iff, withReturns_eq_cons_iff inLine]

namespace Lexeme

/-- **The margin of a line** is the same, and so is what stands behind it. -/
theorem skipMargin_withReturns (fresh : Bool) (t : Text) :
    skipMargin fresh (withReturns t) = withReturns (skipMargin fresh t) := by
  induction t generalizing fresh with
  | nil => rfl
  | cons c t ih =>
    by_cases feed : c = '\n'
    · subst feed
      simp [skipMargin, isBlank, isLineBreak, ih]
    · -- A star is a mark of the margin unless a slash follows, which is no line break.
      have mark : startsWithMarginMark (c :: withReturns t) = startsWithMarginMark (c :: t) := by
        have slash : ((withReturns t).head? == some '/') = (t.head? == some '/') := by
          rw [Bool.eq_iff_iff, beq_iff_eq, beq_iff_eq, head?_withReturns_eq_some_iff rfl]
        rw [startsWithMarginMark_cons, startsWithMarginMark_cons, bne, bne, slash]
      rw [withReturns_cons feed, skipMargin, skipMargin, mark, ih, ih]
      split
      · rfl
      · split
        · rfl
        · split
          · rfl
          · rw [withReturns_cons feed]

theorem scanOperator_withReturns (t : Text) :
    scanOperator (withReturns t) = ((scanOperator t).1, withReturns (scanOperator t).2) := by
  by_cases opens : ∃ u, t = '(' :: u
  · obtain ⟨u, rfl⟩ := opens
    rw [withReturns_cons (by decide), scanOperator, scanOperator, takeWhile_withReturns rfl rfl,
      dropWhile_withReturns rfl]
    generalize u.dropWhile isConversionChar = rest
    by_cases closes : ∃ v, rest = ')' :: v
    · obtain ⟨v, rfl⟩ := closes
      rfl
    · split
      · rename_i closed
        obtain ⟨v, whole, -⟩ := (withReturns_eq_cons_iff rfl).1 closed
        exact absurd ⟨v, whole⟩ closes
      · split
        · exact absurd ⟨_, rfl⟩ closes
        · rfl
  · unfold scanOperator
    split
    · rename_i opened
      obtain ⟨u, whole, -⟩ := (withReturns_eq_cons_iff rfl).1 opened
      exact absurd ⟨u, whole⟩ opens
    · split
      · exact absurd ⟨_, rfl⟩ opens
      · rw [takeWhile_withReturns rfl rfl, dropWhile_withReturns rfl]

theorem scanSymbol_withReturns (c : Char) (t : Text) :
    scanSymbol c (withReturns t) = ((scanSymbol c t).1, withReturns (scanSymbol c t).2) := by
  fun_cases scanSymbol c t with
  | case1 t => rfl
  | case2 t => rfl
  | case3 t => rfl
  | case4 c t noClosing noScope noParentheses =>
    -- No sign of two characters arises, since its second one is no part of a line break.
    unfold scanSymbol
    split
    · rename_i starts
      obtain ⟨v, whole, -⟩ := (withReturns_eq_cons_iff rfl).1 starts
      exact absurd whole (noClosing v rfl)
    · rename_i starts
      obtain ⟨v, whole, -⟩ := (withReturns_eq_cons_iff rfl).1 starts
      exact absurd whole (noScope v rfl)
    · rename_i starts
      obtain ⟨v, whole, -⟩ := (withReturns_eq_cons_iff rfl).1 starts
      exact absurd whole (noParentheses v rfl)
    · rfl

theorem scanIdentifier_withReturns (c : Char) (t : Text) :
    scanIdentifier c (withReturns t) =
      ((scanIdentifier c t).1, withReturns (scanIdentifier c t).2) := by
  rw [scanIdentifier, scanIdentifier, dropWhile_withReturns rfl, takeWhile_withReturns rfl rfl,
    extendOperator, extendOperator, scanOperator_withReturns]
  split <;> rfl

/-- **The first lexeme is the same.** -/
theorem scan_withReturns (t : Text) :
    scan (withReturns t) = ((scan t).1, withReturns (scan t).2) := by
  rw [scan, scan, skipMargin_withReturns]
  cases behind : skipMargin false t with
  | nil => rfl
  | cons c u =>
    -- No line break stands behind a margin.
    have feed : c ≠ '\n' := by
      rintro rfl
      exact absurd (isLineBreak_of_skipMargin behind).symm Bool.false_ne_true
    rw [withReturns_cons feed, scanHere, scanHere, scanIdentifier_withReturns,
      scanSymbol_withReturns]
    split <;> rfl

end Lexeme

/-! ## Passages -/

theorem startsWithLoneColon_withReturns (t : Text) :
    startsWithLoneColon (withReturns t) = startsWithLoneColon t := by
  by_cases opens : ∃ u, t = ':' :: u
  · obtain ⟨u, rfl⟩ := opens
    rw [withReturns_cons (by decide), Bool.eq_iff_iff, startsWithLoneColon_iff,
      startsWithLoneColon_iff, Ne, head?_withReturns_eq_some_iff rfl]
  · -- A lone colon is the first character of either text.
    rw [Bool.eq_iff_iff]
    constructor
    · intro colon
      obtain ⟨v, starts⟩ := exists_of_startsWithLoneColon colon
      obtain ⟨u, whole, -⟩ := (withReturns_eq_cons_iff rfl).1 starts
      exact absurd ⟨u, whole⟩ opens
    · intro colon
      exact absurd (exists_of_startsWithLoneColon colon) opens

/-- **A label is the same**, with its colon still in front of the text behind it. -/
theorem label?_withReturns (t : Text) :
    label? (withReturns t) = (label? t).map (Prod.map id withReturns) := by
  cases t with
  | nil => rfl
  | cons c t =>
    by_cases feed : c = '\n'
    · subst feed
      rfl
    · rw [withReturns_cons feed, label?, label?, dropWhile_withReturns rfl,
        takeWhile_withReturns rfl rfl, startsWithLoneColon_withReturns]
      split <;> rfl

namespace Passage

/-- A passage with a carriage return in front of each line feed, and in the text behind it. -/
def withReturns (p : Passage) : Passage :=
  ⟨Docblock.withReturns p.text, p.stop, Docblock.withReturns p.rest⟩

theorem withReturns_cons (feed : c ≠ '\n') (p : Passage) :
    (cons c p).withReturns = cons c p.withReturns := by
  rw [withReturns, cons, Docblock.withReturns_cons feed]
  rfl

/-- **A passage is the same up to line breaks.** -/
theorem scan_withReturns (lineStart : Bool) (t : Text) :
    scan lineStart (Docblock.withReturns t) = (scan lineStart t).withReturns := by
  induction t generalizing lineStart with
  | nil => rfl
  | cons c t ih =>
    by_cases feed : c = '\n'
    · subst feed
      cases lineStart <;> simp [scan, isMargin, isBlank, isLineBreak, ih] <;> rfl
    · have ends := isPrefixOf_withReturns (w := ['*', '/']) isLineBreak_closingMark (c :: t)
      have label := label?_withReturns (c :: t)
      rw [Docblock.withReturns_cons feed] at ends label ⊢
      rw [scan, scan, ends, label, ih, ih, ih]
      split
      · rename_i isClosing
        obtain ⟨u, whole⟩ := List.isPrefixOf_iff_prefix.1 isClosing
        obtain ⟨rfl, rfl⟩ := List.cons.inj whole
        rfl
      · split
        · split
          · rfl
          · split
            · rw [withReturns_cons feed]
            · cases label? (c :: t) with
              | none => exact (withReturns_cons feed _).symm
              | some found => rfl
        · rw [withReturns_cons feed]

end Passage

/-! ## Declarations -/

/-- **A declaration is the same up to line breaks.** -/
theorem declaration_withReturns (t : Text) :
    declaration (withReturns t) =
      (withReturns (declaration t).1, withReturns (declaration t).2) := by
  have single {c : Char} {t : Text} (noPair : ∀ u, c = ':' → t = ':' :: u → False) :
      ∀ u, c = ':' → withReturns t = ':' :: u → False := by
    intro u isColon starts
    obtain ⟨v, whole, -⟩ := (withReturns_eq_cons_iff rfl).1 starts
    exact noPair v isColon whole
  fun_induction declaration t with
  | case1 => rfl
  | case2 t ih =>
    rw [withReturns_cons (by decide), withReturns_cons (by decide), declaration, ih,
      withReturns_cons (by decide), withReturns_cons (by decide)]
  | case3 c t noPair ends =>
    have feed : c ≠ '\n' := by
      rintro rfl
      simp [opening, List.isPrefixOf] at ends
    have opens := isPrefixOf_withReturns isLineBreak_opening (c :: t)
    rw [withReturns_cons feed] at opens ⊢
    rw [declaration, opens, if_pos ends]
    · rfl
    · exact single noPair
  | case4 c t noPair goes ih =>
    by_cases feed : c = '\n'
    · subst feed
      simp [declaration, opening, List.isPrefixOf, ih]
    · have opens := isPrefixOf_withReturns isLineBreak_opening (c :: t)
      rw [withReturns_cons feed] at opens ⊢
      rw [declaration, opens, if_neg goes, ih, withReturns_cons feed]
      exact single noPair

/-! ## Readers -/

/-- Prose with a carriage return in front of each line feed. -/
def Prose.withReturns : Prose → Prose
  | text t => text (Docblock.withReturns t)
  | missing => missing
  | ended => ended

@[simp] theorem Prose.get_withReturns (p : Prose) :
    p.withReturns.get = Docblock.withReturns p.get := by
  cases p <;> rfl

namespace Reader

/-- A reader at the same place of a text with a carriage return in front of each line feed. -/
def withReturns (r : Reader) : Reader := { r with rest := Docblock.withReturns r.rest }

variable {r : Reader}

/-- **It stands in the same line.** -/
@[simp] theorem line_withReturns (r : Reader) : r.withReturns.line = r.line := by
  simp [line, withReturns]

theorem next_withReturns (r : Reader) :
    r.withReturns.next = (r.next.1, r.next.2.withReturns) := by
  obtain ⟨lastLine, rest, held⟩ := r
  cases held with
  | none => simp [next, withReturns, Lexeme.scan_withReturns]
  | some x => rfl

theorem peek_withReturns (r : Reader) :
    r.withReturns.peek = (r.peek.1, r.peek.2.withReturns) := by
  obtain ⟨lastLine, rest, held⟩ := r
  cases held with
  | none => simp [peek, withReturns, Lexeme.scan_withReturns]
  | some x => rfl

/-- A reader holds no lexeme with a line feed in it. -/
def HoldsNoFeed (r : Reader) : Prop := ∀ x, r.held = some x → '\n' ∉ x.text

theorem readPassage_withReturns (r : Reader) (lineStart : Bool) {before : Text}
    (inLine : '\n' ∉ before) :
    r.withReturns.readPassage lineStart before =
      ((r.readPassage lineStart before).1.withReturns,
        (r.readPassage lineStart before).2.withReturns) := by
  simp only [readPassage, withReturns, Passage.scan_withReturns, Passage.withReturns,
    Prose.withReturns, withReturns_append, withReturns_eq_self_iff.2 inLine]

/-- **Prose is the same up to line breaks.** A lexeme that is held belongs to it, and has none. -/
theorem freeText_withReturns (noFeed : r.HoldsNoFeed) :
    r.withReturns.freeText = (r.freeText.1.withReturns, r.freeText.2.withReturns) := by
  have passage (lineStart : Bool) {before : Text} (inLine : '\n' ∉ before) :=
    r.readPassage_withReturns lineStart inLine
  have colon := startsWithLoneColon_withReturns r.rest
  have held : r.withReturns.held = r.held := rfl
  unfold freeText
  rw [held]
  cases holds : r.held with
  | none => exact passage true List.not_mem_nil
  | some x =>
    have inLine := noFeed x holds
    cases x with
    | endOfSource => rfl
    | symbol sign =>
      simp only
      split
      · rfl
      · split
        · exact passage true List.not_mem_nil
        · exact passage false inLine
    | identifier word =>
      simp only [withReturns, colon] at passage ⊢
      split
      · rfl
      · exact passage false inLine

/-- **The declaration that stands here is the same up to line breaks.** -/
theorem declarationHere_withReturns (r : Reader) :
    Block.declarationHere r.withReturns = Docblock.withReturns (Block.declarationHere r) := by
  rw [Block.declarationHere_eq, Block.declarationHere_eq, withReturns,
    Docblock.declaration_withReturns, trim_withReturns]

end Reader

/-! ## Readings without prose -/

namespace Reading

/-- A result with the reader that is left put into the text with carriage returns. -/
def resultWithReturns {α : Type} :
    EStateM.Result Diagnostic Reader α → EStateM.Result Diagnostic Reader α
  | .ok a r => .ok a r.withReturns
  | .error fault r => .error fault r.withReturns

/-- **A reading without prose takes the same**, and misses the same. -/
theorem Composed.apply_withReturns {α : Type} {p : Reading α} (composed : Composed false p)
    (r : Reader) : p r.withReturns = resultWithReturns (p r) := by
  induction composed generalizing r with
  | pure a => rfl
  | take =>
    rw [Reading.take, Reader.next_withReturns]
    rfl
  | look =>
    rw [Reading.look, Reader.peek_withReturns]
    rfl
  | text allowed => exact nomatch allowed
  | lack expected found =>
    rw [Reading.lack, Reader.line_withReturns]
    rfl
  | throw fault => rfl
  | @bind α β p q _ _ first second =>
    simp only [Bind.bind, EStateM.bind, first r]
    cases p r with
    | ok a r' => exact second a r'
    | error fault r' => rfl

/-- No step makes a reader hold a lexeme with a line feed in it. -/
theorem alongSteps_holdsNoFeed :
    AlongSteps false fun r s => r.HoldsNoFeed → s.HoldsNoFeed where
  refl _ := id
  trans first second := second ∘ first
  next r _ x held := by rw [r.next_held] at held; exact nomatch held
  peek r noFeed x held := by
    obtain rfl := Option.some.inj (r.peek_held.symm.trans held)
    cases holds : r.held with
    | none =>
      rw [Reader.peek, holds]
      exact Lexeme.lineFeed_notMem_scan r.rest
    | some y =>
      rw [Reader.peek, holds]
      exact noFeed y holds
  freeText allowed := nomatch allowed

end Reading

/-! ## Blocks -/

namespace Block

variable {r : Reader}

/-- **A labelled attribute is the same up to line breaks.** -/
theorem labelled?_withReturns (r : Reader) :
    labelled? r.withReturns =
      match labelled? r with
      | .ok a r' => .ok (a.map (·.mapValue withReturns)) r'.withReturns
      | .error fault r' => .error fault r'.withReturns := by
  rw [labelled?, look_bind, look_bind, Reader.peek_withReturns]
  cases r.peek.1 with
  | symbol sign => rfl
  | endOfSource => rfl
  | identifier keyword =>
    simp only [discard_take_bind, look_bind, Reader.next_withReturns, Reader.peek_withReturns]
    split
    · -- Behind the colon no lexeme is held.
      generalize r.peek.2.next.2.peek.2 = s
      have noFeed : s.next.2.HoldsNoFeed := by
        intro x held
        rw [s.next_held] at held
        cases held
      simp only [discard_take_bind, prose_bind, Reader.next_withReturns, pure_apply,
        Reader.freeText_withReturns noFeed, Prose.get_withReturns, trim_withReturns]
      rfl
    · simp only [lacking_apply, Reader.line_withReturns]

/-- Labelled attributes are read one after the other. -/
theorem labelledAll_eq (r : Reader) :
    labelledAll r =
      match labelled? r with
      | .ok (some a) r' => (a :: (labelledAll r').1, (labelledAll r').2)
      | .ok none r' => ([], .ok () r')
      | .error fault r' => ([], .error fault r') := by
  rw [labelledAll]
  split <;> simp only [*]

/-- **And so are all of them.** -/
theorem labelledAll_withReturns (r : Reader) :
    labelledAll r.withReturns =
      ((labelledAll r).1.map (·.mapValue withReturns), resultWithReturns (labelledAll r).2) := by
  fun_induction labelledAll r with
  | case1 r a r' here others ih =>
    rw [labelledAll_eq, labelled?_withReturns, here]
    simp only [Option.map_some, ih]
    rfl
  | case2 r r' here =>
    rw [labelledAll_eq, labelled?_withReturns, here]
    rfl
  | case3 r fault r' here =>
    rw [labelledAll_eq, labelled?_withReturns, here]
    rfl

theorem skipToEnd_withReturns (r : Reader) :
    skipToEnd r.withReturns = ((skipToEnd r).1, (skipToEnd r).2.withReturns) := by
  fun_induction skipToEnd r with
  | case1 r ended => rw [skipToEnd, Reader.next_withReturns, dif_pos ended]
  | case2 r further closing =>
    rw [skipToEnd, Reader.next_withReturns, dif_neg further, if_pos closing]
  | case3 r further other ih =>
    rw [skipToEnd, Reader.next_withReturns, dif_neg further, if_neg other, ih]

theorem finish_withReturns (labelled : EStateM.Result Diagnostic Reader Unit) :
    finish (resultWithReturns labelled) =
      ((finish labelled).1, (finish labelled).2.1, (finish labelled).2.2.withReturns) := by
  cases labelled with
  | error fault r =>
    rw [resultWithReturns, finish, finish, skipToEnd_withReturns]
  | ok _ r =>
    rw [resultWithReturns, finish, finish, composed_readEnd.apply_withReturns]
    cases readEnd r with
    | ok _ r' => rfl
    | error fault r' =>
      simp only [resultWithReturns]
      rw [skipToEnd_withReturns]

/-- **A block is read in step**, and says the same up to line breaks. -/
theorem read_withReturns (held : r.held = none) :
    read r.withReturns = ((read r).1.mapValues withReturns, (read r).2.withReturns) := by
  have composed : Composed false readHeader := composed_readHeader
  have header := composed.apply_withReturns r
  have noFeed := composed_readHeader.reached_of_steps alongSteps_holdsNoFeed r
    fun x holds => nomatch held.symm.trans holds
  rw [read, read, header]
  cases found : readHeader r with
  | error fault r' => rfl
  | ok said r' =>
    rw [found] at noFeed
    have description := Reader.freeText_withReturns noFeed
    simp only [resultWithReturns, reached] at description ⊢
    simp only [readBody, Reader.line_withReturns, description, labelledAll_withReturns,
      finish_withReturns, Prose.get_withReturns, trim_withReturns,
      Reader.declarationHere_withReturns]
    simp only [mapValues, Entry.mapValues]
    split <;> rfl

theorem firstStart?_withReturns (r : Reader) :
    r.withReturns.firstStart? = r.firstStart?.map Reader.withReturns := by
  have behind (t : Text) :
      behindFirst opening (withReturns t) = (behindFirst opening t).map withReturns := by
    induction t with
    | nil => rfl
    | cons c t ih =>
      by_cases feed : c = '\n'
      · subst feed
        rw [withReturns_lineFeed, behindFirst, behindFirst, behindFirst, ih]
        simp [opening, List.isPrefixOf]
      · have opens := isPrefixOf_withReturns isLineBreak_opening (c :: t)
        rw [withReturns_cons feed] at opens ⊢
        rw [behindFirst, behindFirst, opens, ih]
        split
        · rename_i starts
          obtain ⟨u, whole⟩ := List.isPrefixOf_iff_prefix.1 starts
          obtain ⟨rfl, rfl⟩ := List.cons.inj whole
          rfl
        · rfl
  rw [Reader.firstStart?, Reader.firstStart?, Reader.withReturns, behind]
  cases behindFirst opening r.rest <;> rfl

/-- **The blocks from here on** say the same up to line breaks. -/
theorem readAll_withReturns (r : Reader) :
    readAll r.withReturns = (readAll r).map (·.mapValues withReturns) := by
  induction r using run_induction with
  | ended r last =>
    rw [readAll_of_firstStart?_eq_none last, readAll_of_firstStart?_eq_none]
    · rfl
    · rw [firstStart?_withReturns, last]
      rfl
  | started r s first ih =>
    have unheld : s.held = none := (Reader.firstStart?_spec first).2.1
    have first' : r.withReturns.firstStart? = some s.withReturns := by
      rw [firstStart?_withReturns, first]
      rfl
    rw [readAll_of_firstStart?_eq_some first, readAll_of_firstStart?_eq_some first',
      read_withReturns unheld, ih]
    rfl

end Block

/-! ## Sources -/

/-- **A source whose lines end with a carriage return and a line feed** has the same diagnostics as
one whose lines end with a line feed, and recording it in a document without line feeds gives the
same up to the line breaks in values. -/
theorem recordSource_withReturns (source : Text) {d : Document}
    (inLine : ∀ s, ∀ a ∈ d.attributesOf s, '\n' ∉ a.value) :
    sourceFaults (withReturns source) = sourceFaults source ∧
      d.recordSource (withReturns source) = (d.recordSource source).mapValues withReturns := by
  have blocks : Block.ofSource (withReturns source) =
      (Block.ofSource source).map (·.mapValues withReturns) := by
    rw [Block.ofSource, Block.ofSource, ← Block.readAll_withReturns]
    simp [Reader.ofSource, Reader.withReturns]
  constructor
  · rw [sourceFaults, sourceFaults, blocks, List.flatMap_map]
    simp only [Block.faults_mapValues]
  · have same : d.mapValues withReturns = d := by
      refine Document.mapValues_eq_self fun s a inside => ?_
      exact withReturns_eq_self_iff.2 (inLine s a inside)
    rw [Document.recordSource, Document.recordSource, Document.mapValues_foldl_record, blocks, same]

/-- A description of two lines behind a title that has been recorded before. -/
theorem recordSource_withReturns_titled :
    let title : Attribute := ⟨"Title".toList, "One".toList⟩
    let d := Document.empty.addAttribute (.classNamed ['A']) title
    let source := "/*: Class A\nOne\ntwo. */".toList
    (∀ s, ∀ a ∈ d.attributesOf s, '\n' ∉ a.value) ∧
      withReturns source = "/*: Class A\r\nOne\r\ntwo. */".toList ∧
      sourceFaults (withReturns source) = sourceFaults source ∧
      d.recordSource (withReturns source) = (d.recordSource source).mapValues withReturns := by
  intro title d source
  have inLine : ∀ s, ∀ a ∈ d.attributesOf s, '\n' ∉ a.value := by
    intro s a inside
    have nothing : Document.empty.attributesOf s = [] := by cases s <;> rfl
    rw [Document.attributesOf_addAttribute, nothing, List.nil_append] at inside
    split at inside
    · obtain rfl := List.mem_singleton.1 inside
      decide
    · exact nomatch inside
  exact ⟨inLine, by decide, recordSource_withReturns source inLine⟩

end Docblock
