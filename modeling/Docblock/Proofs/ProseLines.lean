import Docblock.Proofs.PlainProse
import Mathlib.Data.List.SplitBy
import Mathlib.Order.Bounds.Basic

/-!
# Prose line by line

Prose is read character by character, but what is read can be told by lines. The text is split
behind its line breaks, each line loses its margin, and the whole is cut at the first place where
prose stops: at the end of the block, at a label that leads a line behind its margin, or at the end
of the source.

A passage may be read from within a line; then the first line has no margin and no label. Both cases
are told together, since reading goes from one to the other and back with each line.

## Main definitions

* `sourceLines`: the lines of a text, each with its line break
* `marginLength`: how much of a line is margin
* `textUpTo`: lines without their margins, cut at a place
* `StopsAt`: the places where prose stops, with the lexeme and the text behind it

## Main results

* `sourceLines_cons`: a character in front of a text, and its lines
* `textUpTo_cons`, `stopsAt_cons_succ_iff`: one character more of the text and of the places
* `Passage.exists_cutAt_scan`: a passage is cut at the first place where prose stops
* `freeText_eq_textUpTo`: the prose that is read where no lexeme is held
-/

namespace Docblock

/-! ## Lines, margins and places -/

/-- The lines of a text, each with the line break that ends it. -/
def sourceLines (t : Text) : List Text := t.splitBy fun c _ => !isLineBreak c

/-- Whether the first character of a line belongs to its margin: it is a mark of the margin, and it
does not start an end of the block. -/
def startsMargin : Text → Bool
  | [] => false
  | c :: t => isMargin c && !closingMark.isPrefixOf (c :: t)

/-- How many characters of a line are its margin. -/
def marginLength : Text → Nat
  | [] => 0
  | c :: t => if startsMargin (c :: t) then marginLength t + 1 else 0

/-- Lines up to a place, each without its margin. The first one has a margin if it is read from its
start. -/
def textUpTo (lineStart : Bool) (n : Nat) : List Text → Text
  | [] => []
  | line :: lines =>
    (line.take n).drop (if lineStart then marginLength line else 0) ++
      textUpTo true (n - line.length) lines

/-- A line starts at a place: behind a line break, or where reading starts, if a line does. -/
def StartsLine (lineStart : Bool) (t : Text) : Nat → Prop
  | 0 => lineStart = true
  | n + 1 => ∃ c, t[n]? = some c ∧ isLineBreak c = true

/-- A place right behind the margin of a line. -/
def LeadsLine (lineStart : Bool) (t : Text) (n : Nat) : Prop :=
  ∃ k, StartsLine lineStart t k ∧ n = k + marginLength (t.drop k)

/-- **The places where prose stops**, with the lexeme that stops it and the text behind that: at an
end of the block, at a label that leads a line, in front of its lone colon, and at the end of the
text. -/
inductive StopsAt (lineStart : Bool) (t : Text) (n : Nat) : Lexeme → Text → Prop
  | closing {u : Text} (here : t.drop n = closingMark ++ u) : StopsAt lineStart t n .closing u
  | label {w : Identifier} {u : Text} (leads : LeadsLine lineStart t n)
      (here : t.drop n = w.text ++ ':' :: u) (lone : u.head? ≠ some ':') :
      StopsAt lineStart t n (.identifier w.text) (':' :: u)
  | ended (here : n = t.length) : StopsAt lineStart t n .endOfSource []

variable {c : Char} {t u line : Text} {lines : List Text} {lineStart : Bool} {n : Nat}

/-! ## One character more -/

/-- A line break is a line where nothing else stands in front of it. -/
theorem sourceLines_lineBreak (isBreak : isLineBreak c = true) (t : Text) :
    sourceLines (c :: t) = [c] :: sourceLines t := by
  refine List.splitBy_append (l := [c]) fun x isLast y _ => ?_
  obtain rfl : c = x := Option.some.inj isLast
  simp [isBreak]

/-- **Any other character belongs to the first line** of the text behind it. -/
theorem sourceLines_cons (within : isLineBreak c = false) (split : sourceLines t = line :: lines) :
    sourceLines (c :: t) = (c :: line) :: lines := by
  obtain ⟨whole, noNil, chains, apart⟩ := List.splitBy_eq_iff.1 split
  have some : line ≠ [] := fun nil => noNil (nil ▸ List.mem_cons_self)
  refine List.splitBy_eq_iff.2 ⟨by rw [whole]; rfl, ?_, ?_, ?_⟩
  · rw [List.mem_cons, not_or] at noNil ⊢
    exact ⟨(List.cons_ne_nil _ _).symm, noNil.2⟩
  · intro m inside
    rcases List.mem_cons.1 inside with rfl | inside
    · exact List.isChain_cons.2 ⟨fun _ _ => by rw [within]; rfl, chains line List.mem_cons_self⟩
    · exact chains m (List.mem_cons_of_mem _ inside)
  · cases lines with
    | nil => exact List.isChain_singleton _
    | cons second lines =>
      obtain ⟨⟨_, second_ne, ends⟩, later⟩ := List.isChain_cons_cons.1 apart
      refine List.isChain_cons_cons.2 ⟨⟨List.cons_ne_nil _ _, second_ne, ?_⟩, later⟩
      rwa [List.getLast_cons some]

/-- The first line starts with the first character. -/
theorem head?_of_sourceLines (split : sourceLines t = line :: lines) : line.head? = t.head? := by
  obtain ⟨whole, noNil, -, -⟩ := List.splitBy_eq_iff.1 split
  have some : line ≠ [] := fun nil => noNil (nil ▸ List.mem_cons_self)
  rw [whole, List.flatten_cons, List.head?_append_of_ne_nil _ some]

/-- Whether a margin starts depends on two characters. -/
theorem startsMargin_congr (same : t.head? = u.head?) :
    startsMargin (c :: t) = startsMargin (c :: u) := by
  have ends : closingMark.isPrefixOf (c :: t) = closingMark.isPrefixOf (c :: u) := by
    rw [Bool.eq_iff_iff, List.isPrefixOf_iff_prefix, List.isPrefixOf_iff_prefix,
      closingMark_prefix_cons_iff, closingMark_prefix_cons_iff, same]
  rw [startsMargin, startsMargin, ends]

theorem startsMargin_of_isLineBreak (isBreak : isLineBreak c = true) (t : Text) :
    startsMargin (c :: t) = false := by
  have noMark : isMargin c = false := by
    simp only [isLineBreak, Bool.or_eq_true, beq_iff_eq] at isBreak
    rcases isBreak with rfl | rfl <;> rfl
  rw [startsMargin, noMark, Bool.false_and]

/-- Whether a margin may go on behind the first character of a text: behind a character of a margin,
or behind a line break. -/
def goesOn (lineStart : Bool) (c : Char) (t : Text) : Bool :=
  lineStart && startsMargin (c :: t) || isLineBreak c

/-- **One character more of the text**, unless it belongs to the margin. -/
theorem textUpTo_cons (lineStart : Bool) (c : Char) (t : Text) (n : Nat) :
    textUpTo lineStart (n + 1) (sourceLines (c :: t)) =
      (if lineStart && startsMargin (c :: t) then [] else [c]) ++
        textUpTo (goesOn lineStart c t) n (sourceLines t) := by
  cases isBreak : isLineBreak c with
  | true =>
    have noMargin (t : Text) := startsMargin_of_isLineBreak isBreak t
    rw [sourceLines_lineBreak isBreak, goesOn, noMargin, isBreak]
    simp [textUpTo, marginLength, noMargin]
  | false =>
    rw [goesOn, isBreak, Bool.or_false]
    cases split : sourceLines t with
    | nil =>
      obtain rfl := List.splitBy_eq_nil.1 split
      have single : sourceLines [c] = [[c]] := rfl
      cases lineStart <;> cases margin : startsMargin [c] <;>
        simp [single, textUpTo, marginLength, margin]
    | cons line lines =>
      have margin := startsMargin_congr (c := c) (head?_of_sourceLines split)
      rw [sourceLines_cons isBreak split]
      cases lineStart <;> cases starts : startsMargin (c :: t) <;>
        simp [textUpTo, marginLength, margin, starts]

/-- **One character more in front of the places that lead a line.** -/
theorem leadsLine_cons_succ_iff :
    LeadsLine lineStart (c :: t) (n + 1) ↔ LeadsLine (goesOn lineStart c t) t n := by
  constructor
  · rintro ⟨k, starts, place⟩
    match k with
    | 0 =>
      -- The place is in the first line, so the character belongs to its margin.
      rw [List.drop_zero, marginLength, Nat.zero_add] at place
      split at place
      · rename_i margin
        refine ⟨0, ?_, by simpa using place⟩
        rw [StartsLine] at starts
        rw [StartsLine, goesOn, starts, margin]
        rfl
      · exact nomatch place
    | 1 =>
      obtain ⟨d, first, isBreak⟩ := starts
      obtain rfl := Option.some.inj first
      refine ⟨0, by rw [StartsLine, goesOn, isBreak, Bool.or_true], ?_⟩
      rw [List.drop_succ_cons] at place
      omega
    | k + 2 =>
      refine ⟨k + 1, starts, ?_⟩
      rw [List.drop_succ_cons] at place
      omega
  · rintro ⟨k, starts, place⟩
    match k with
    | 0 =>
      rcases Bool.or_eq_true_iff.1 starts with within | isBreak
      · obtain ⟨start, margin⟩ := Bool.and_eq_true_iff.1 within
        refine ⟨0, start, ?_⟩
        rw [List.drop_zero, marginLength, if_pos margin, place, List.drop_zero]
        omega
      · refine ⟨1, ⟨c, rfl, isBreak⟩, ?_⟩
        rw [List.drop_succ_cons]
        omega
    | k + 1 =>
      refine ⟨k + 2, starts, ?_⟩
      rw [List.drop_succ_cons]
      omega

/-- **One character more in front of the places where prose stops.** -/
theorem stopsAt_cons_succ_iff {x : Lexeme} :
    StopsAt lineStart (c :: t) (n + 1) x u ↔ StopsAt (goesOn lineStart c t) t n x u := by
  constructor
  · rintro (here | ⟨leads, here, lone⟩ | here)
    · exact .closing here
    · exact .label (leadsLine_cons_succ_iff.1 leads) here lone
    · exact .ended (Nat.succ.inj here)
  · rintro (here | ⟨leads, here, lone⟩ | here)
    · exact .closing here
    · exact .label (leadsLine_cons_succ_iff.2 leads) here lone
    · exact .ended (congrArg (· + 1) here)

/-! ## Passages -/

/-- A lone colon is followed by no second one. -/
theorem startsWithLoneColon_iff : startsWithLoneColon (':' :: u) = true ↔ u.head? ≠ some ':' := by
  cases u with
  | nil => simp [startsWithLoneColon]
  | cons d u => by_cases second : d = ':' <;> simp [startsWithLoneColon, second]

/-- A label is an identifier in front of a lone colon. -/
theorem label?_eq_some_iff {word rest : Text} :
    label? t = some (word, rest) ↔ ∃ (w : Identifier) (u : Text),
      word = w.text ∧ rest = ':' :: u ∧ t = w.text ++ ':' :: u ∧ u.head? ≠ some ':' := by
  constructor
  · intro isLabel
    obtain ⟨u, rfl⟩ := exists_of_startsWithLoneColon (startsWithLoneColon_of_label?_eq isLabel)
    have lone := startsWithLoneColon_iff.1 (startsWithLoneColon_of_label?_eq isLabel)
    have whole := append_of_label?_eq isLabel
    cases t with
    | nil => cases isLabel
    | cons c t =>
      rw [label?] at isLabel
      split at isLabel
      · rename_i colon
        obtain ⟨rfl, -⟩ := Prod.mk.inj (Option.some.inj isLabel)
        exact ⟨⟨c, _, (Bool.and_eq_true_iff.1 colon).1, List.all_takeWhile⟩, u, rfl, rfl,
          whole.symm, lone⟩
      · cases isLabel
  · rintro ⟨w, u, rfl, rfl, rfl, lone⟩
    exact label?_of_identifier w (startsWithLoneColon_iff.2 lone)

/-- Prose does not stop in front of a character that starts no end of the block, and no label behind
the margin of a line. -/
theorem not_stopsAt_zero {x : Lexeme} (noEnd : ¬ closingMark.isPrefixOf (c :: t) = true)
    (noLabel : lineStart = true → startsMargin (c :: t) = false → label? (c :: t) = none) :
    ¬ StopsAt lineStart (c :: t) 0 x u := by
  rintro (here | ⟨⟨k, starts, place⟩, here, lone⟩ | here)
  · exact noEnd (List.isPrefixOf_iff_prefix.2 ⟨_, here.symm⟩)
  · obtain ⟨rfl, noMargin⟩ := Nat.add_eq_zero_iff.1 place.symm
    rw [List.drop_zero, marginLength, ite_eq_right_iff] at noMargin
    have none := noLabel starts (Bool.eq_false_iff.2 fun margin => nomatch noMargin margin)
    exact nomatch none.symm.trans (label?_eq_some_iff.2 ⟨_, _, rfl, rfl, here, lone⟩)
  · exact nomatch here

namespace Passage

/-- A passage is cut at a place: it stops there, prose stops nowhere in front of it, and the text is
that of the lines up to the place. -/
structure CutAt (lineStart : Bool) (t : Text) (p : Passage) (n : Nat) : Prop where
  stops : StopsAt lineStart t n p.stop p.rest
  first : ∀ m x u, StopsAt lineStart t m x u → n ≤ m
  text : p.text = textUpTo lineStart n (sourceLines t)

/-- Where prose stops at once the passage has no text. -/
theorem cutAt_zero {x : Lexeme} (stops : StopsAt lineStart t 0 x u) :
    CutAt lineStart t ⟨[], x, u⟩ 0 where
  stops := stops
  first _ _ _ _ := Nat.zero_le _
  text := by
    have nothing (lineStart : Bool) (lines : List Text) : textUpTo lineStart 0 lines = [] := by
      induction lines generalizing lineStart with
      | nil => rfl
      | cons line lines ih => simp [textUpTo, ih]
    rw [nothing]

/-- **A passage goes on in front of a character**, which belongs to its text or to a margin. -/
theorem CutAt.cons {p : Passage} {start : Bool} (cut : CutAt start t p n)
    (goes : goesOn lineStart c t = start)
    (noEnd : ¬ closingMark.isPrefixOf (c :: t) = true)
    (noLabel : lineStart = true → startsMargin (c :: t) = false → label? (c :: t) = none) :
    CutAt lineStart (c :: t)
      { p with text := (if lineStart && startsMargin (c :: t) then [] else [c]) ++ p.text }
      (n + 1) := by
  subst goes
  refine ⟨stopsAt_cons_succ_iff.2 cut.stops, fun m x u stops => ?_, ?_⟩
  · cases m with
    | zero => exact absurd stops (not_stopsAt_zero noEnd noLabel)
    | succ m => exact Nat.succ_le_succ (cut.first m x u (stopsAt_cons_succ_iff.1 stops))
  · rw [textUpTo_cons, cut.text]

/-- **A passage is cut at the first place where prose stops.** -/
theorem exists_cutAt_scan (lineStart : Bool) (t : Text) :
    ∃ n, CutAt lineStart t (scan lineStart t) n := by
  -- Each case says what `goesOn` makes of the character, and why there is no label in front of it.
  fun_induction scan lineStart t with
  | case1 => exact ⟨0, cutAt_zero (.ended rfl)⟩
  | case2 lineStart c t isClosing =>
    obtain ⟨u, whole⟩ := List.isPrefixOf_iff_prefix.1 isClosing
    obtain ⟨rfl, rfl⟩ := List.cons.inj whole
    exact ⟨0, cutAt_zero (.closing rfl)⟩
  | case3 c t noEnd isMark ih =>
    obtain ⟨n, cut⟩ := ih
    have margin : startsMargin (c :: t) = true := by
      rw [startsMargin, isMark, Bool.true_and, Bool.not_eq_true']
      exact Bool.eq_false_iff.2 noEnd
    have inside : goesOn true c t = true := by rw [goesOn, margin]; rfl
    have cut := cut.cons inside noEnd fun _ noMargin => nomatch margin.symm.trans noMargin
    rw [margin] at cut
    exact ⟨n + 1, cut⟩
  | case4 c t noEnd noMark isBreak ih =>
    obtain ⟨n, cut⟩ := ih
    have noMargin := startsMargin_of_isLineBreak isBreak t
    have behind : goesOn true c t = true := by rw [goesOn, isBreak, Bool.or_true]
    have noLabel : label? (c :: t) = none := by
      rw [label?, if_neg]
      intro isLabel
      have starts := (Bool.and_eq_true_iff.1 isLabel).1
      exact nomatch isBreak.symm.trans (isBlank_of_startsIdentifier starts).2
    have cut := cut.cons behind noEnd fun _ _ => noLabel
    rw [noMargin] at cut
    exact ⟨n + 1, cut⟩
  | case5 c t noEnd noMark noBreak word rest isLabel =>
    obtain ⟨w, u, rfl, rfl, here, lone⟩ := label?_eq_some_iff.1 isLabel
    have noMargin : marginLength (c :: t) = 0 := by
      rw [marginLength, startsMargin, Bool.eq_false_iff.2 noMark]
      rfl
    have leads : LeadsLine true (c :: t) 0 := ⟨0, rfl, by rw [List.drop_zero, noMargin]⟩
    exact ⟨0, cutAt_zero (.label leads here lone)⟩
  | case6 c t noEnd noMark noBreak noLabel ih =>
    obtain ⟨n, cut⟩ := ih
    have noMargin : startsMargin (c :: t) = false := by
      rw [startsMargin, Bool.eq_false_iff.2 noMark]
      rfl
    have within : goesOn true c t = false := by
      rw [goesOn, noMargin, Bool.eq_false_iff.2 noBreak]
      rfl
    have cut := cut.cons within noEnd fun _ _ => noLabel
    rw [noMargin] at cut
    exact ⟨n + 1, cut⟩
  | case7 lineStart c t noEnd within ih =>
    obtain ⟨n, cut⟩ := ih
    obtain rfl := Bool.eq_false_iff.2 within
    have behind : goesOn false c t = isLineBreak c := by rw [goesOn, Bool.false_and, Bool.false_or]
    exact ⟨n + 1, cut.cons behind noEnd fun start => absurd start Bool.false_ne_true⟩

end Passage

/-! ## Free text -/

/-- **Prose is read line by line.** A reader that holds no lexeme reads, from where it stands, the
lines of its text, each without its margin, up to the first place where prose stops: an end of the
block, a label that leads a line, or the end of the text. It then stands behind the end, in front of
the colon of the label or at the end of the text, and holds what has stopped the prose. -/
theorem freeText_eq_textUpTo (lastLine : Nat) (t : Text) :
    ∃ n x u, IsLeast {n | ∃ x u, StopsAt true t n x u} n ∧ StopsAt true t n x u ∧
      Reader.freeText ⟨lastLine, t, none⟩ =
        (.text (textUpTo true n (sourceLines t)), ⟨lastLine, u, some x⟩) := by
  obtain ⟨n, stops, first, text⟩ := Passage.exists_cutAt_scan true t
  refine ⟨n, _, _, ⟨⟨_, _, stops⟩, ?_⟩, stops, ?_⟩
  · rintro m ⟨x, u, stops⟩
    exact first m x u stops
  · rw [← text]
    rfl

example :
    (Reader.freeText ⟨0, " ** One::two\n\t/three x:\n* four:: x: y\n*five: z*/".toList, none⟩).1 =
      .text "One::two\nthree x:\nfour:: x: y\n".toList := by
  decide

end Docblock
