import Docblock.Document.Record
import Docblock.Proofs.Abreast
import Docblock.Proofs.PlainDeclaration
import Docblock.Proofs.Seam

/-!
# Margins that are put into a comment

A comment may be framed: the lines of a block may start with blanks, stars and slashes. A margin
that is put in front of a line changes nothing, wherever in the block the line is, since whatever is
read across a line feed is read without the margin behind it. So two readers of the text with and
without the margin stay abreast up to the line feed, and stand at the same place behind it.

## Main definitions

* `Margin`: what may be put in front of a line of a block
* `Indented m v t t'`: `t'` is `t` with the margin `m` in front of the line `v`, or `t` itself

## Main results

* `Margin.skipMargin_append`, `Margin.scan_append`: at the start of a line a margin is not read
* `abreast_indented`: readers of the text with the margin and without it stay abreast
* `readAll_indented`: the blocks of the text are those of the text with the margin
* `recordSource_indented`: a margin in a block with an end is invisible
-/

namespace Docblock

open Lexeme

/-! ## What is not read at the start of a line -/

/-- Marks of a margin in which no block ends, whatever follows them. -/
inductive Skipped : Text → Prop
  | nil : Skipped []
  | cons {c : Char} {m : Text} (mark : isMargin c = true)
      (notClosing : ∀ v, ¬ closingMark <+: c :: (m ++ v)) (rest : Skipped m) : Skipped (c :: m)

/-- What may be put in front of a line of a block: marks of a margin and a space behind them. No
block ends in it. -/
structure Margin where
  chars : Text
  marks : ∀ c ∈ chars, isMargin c = true
  ends : chars.getLast? = some ' '
  noClosing : ¬ closingMark <:+: chars

/-- No block ends in a margin and what follows it, because of the space. -/
theorem skipped_of_space {m : Text} (marks : ∀ c ∈ m, isMargin c = true)
    (ends : ∀ c, m.getLast? = some c → c = ' ') (noClosing : ¬ closingMark <:+: m) : Skipped m := by
  induction m with
  | nil => exact .nil
  | cons c m ih =>
    rw [List.infix_cons_iff, not_or] at noClosing
    refine .cons (marks c List.mem_cons_self) ?_
      (ih (fun d inside => marks d (List.mem_cons_of_mem c inside)) ?_ noClosing.2)
    · intro v closing
      obtain ⟨rfl, slash⟩ := closingMark_prefix_cons_iff.1 closing
      cases m with
      | nil => exact absurd (ends '*' rfl) (by decide)
      | cons d m => exact noClosing.1 (closingMark_prefix_cons_iff.2 ⟨rfl, slash⟩)
    · intro d last
      cases m with
      | nil => exact nomatch last
      | cons e m => exact ends d (by rwa [List.getLast?_cons_cons])

theorem Margin.skipped (m : Margin) : Skipped m.chars := by
  refine skipped_of_space m.marks (fun c last => ?_) m.noClosing
  exact Option.some.inj (last.symm.trans m.ends)

namespace Skipped

variable {m : Text}

theorem lineFeed_notMem (skipped : Skipped m) : '\n' ∉ m := by
  induction skipped with
  | nil => exact List.not_mem_nil
  | @cons c m mark _ _ ih =>
    rw [List.mem_cons, not_or]
    refine ⟨?_, ih⟩
    rintro rfl
    exact absurd mark (by decide)

/-- Between lexemes a margin at the start of a line is left out. -/
theorem skipMargin_append (skipped : Skipped m) (v : Text) :
    skipMargin true (m ++ v) = skipMargin true v := by
  induction skipped with
  | nil => rfl
  | @cons c m mark notClosing _ ih =>
    rw [List.cons_append, skipMargin]
    by_cases blank : isBlank c = true
    · rw [if_pos blank, ih]
    · -- What is no blank is a slash, or a star that no slash follows.
      have isMark : c = '*' ∨ c = '/' := by simpa [isMargin, blank] using mark
      have noBreak : ¬ isLineBreak c = true := by rcases isMark with rfl | rfl <;> decide
      have starts : startsWithMarginMark (c :: (m ++ v)) = true := by
        rw [startsWithMarginMark_cons]
        rcases isMark with rfl | rfl
        · have noSlash : (m ++ v).head? ≠ some '/' := fun slash =>
            notClosing v (closingMark_prefix_cons_iff.2 ⟨rfl, slash⟩)
          simpa using noSlash
        · rfl
      rw [if_neg blank, if_neg noBreak, if_pos (by rw [starts]; rfl), ih]

/-- In prose a margin at the start of a line is left out. -/
theorem scan_append (skipped : Skipped m) (v : Text) :
    Passage.scan true (m ++ v) = Passage.scan true v := by
  induction skipped with
  | nil => rfl
  | @cons c m mark notClosing _ ih =>
    have noEnd : ¬ ['*', '/'].isPrefixOf (c :: (m ++ v)) = true := fun ends =>
      notClosing v (List.isPrefixOf_iff_prefix.1 ends)
    rw [List.cons_append, Passage.scan, if_neg noEnd, if_pos rfl, if_pos mark, ih]

end Skipped

/-! ## Texts with and without a margin -/

/-- A text with the margin `m` in front of the line `v`, or behind it. -/
inductive Indented (m v : Text) : Text → Text → Prop
  | same (t : Text) : Indented m v t t
  | apart (u : Text) : Indented m v (u ++ '\n' :: v) (u ++ '\n' :: (m ++ v))

namespace Indented

variable {m v t t' : Text}

theorem count_eq (indented : Indented m v t t') (skipped : Skipped m) :
    t'.count '\n' = t.count '\n' := by
  cases indented with
  | same => rfl
  | apart u =>
    have none := List.count_eq_zero.2 skipped.lineFeed_notMem
    simp [none]

theorem startsWithLoneColon_eq (indented : Indented m v t t') :
    startsWithLoneColon t' = startsWithLoneColon t := by
  cases indented with
  | same => rfl
  | apart u =>
    rw [startsWithLoneColon_append_seam isSeam_lineFeed,
      startsWithLoneColon_append_seam isSeam_lineFeed]

/-- **The same lexeme is scanned with and without the margin.** -/
theorem scan (indented : Indented m v t t') (skipped : Skipped m) :
    (scan t).1 = (scan t').1 ∧ Indented m v (scan t).2 (scan t').2 := by
  cases indented with
  | same => exact ⟨rfl, .same _⟩
  | apart u =>
    by_cases none : (Lexeme.scan u).1 = endOfSource
    · -- The scan goes over the line feed, so the margin is left out.
      have across (x : Text) : Lexeme.scan (u ++ '\n' :: x) = scanHere (skipMargin true x) :=
        scan_append_seam_of_nothing isSeam_lineFeed none x
      rw [across, across, skipped.skipMargin_append]
      exact ⟨rfl, .same _⟩
    · rw [scan_append_seam isSeam_lineFeed none, scan_append_seam isSeam_lineFeed none]
      exact ⟨rfl, .apart _⟩

/-- **The same prose is read with and without the margin.** -/
theorem passage (indented : Indented m v t t') (skipped : Skipped m) (lineStart : Bool) :
    (Passage.scan lineStart t).text = (Passage.scan lineStart t').text ∧
      (Passage.scan lineStart t).stop = (Passage.scan lineStart t').stop ∧
      Indented m v (Passage.scan lineStart t).rest (Passage.scan lineStart t').rest := by
  cases indented with
  | same => exact ⟨rfl, rfl, .same _⟩
  | apart u =>
    obtain ⟨atStart, scanned⟩ := Passage.exists_scan_append_seam isSeam_lineFeed lineStart u
    rw [scanned, scanned]
    split
    · rw [Passage.scan_lineBreak, Passage.scan_lineBreak, skipped.scan_append]
      exact ⟨rfl, rfl, .same _⟩
    · exact ⟨rfl, rfl, .apart _⟩

end Indented

/-! ## Readers of the two texts -/

/-- Two readers stand at the same place of a text, with the margin and without it. -/
structure Reader.Beside (m v : Text) (r s : Reader) : Prop where
  lastLine : s.lastLine = r.lastLine
  held : s.held = r.held
  rest : Indented m v r.rest s.rest

namespace Reader.Beside

variable {m v : Text} {r s : Reader}

/-- Behind the margin the readers are the same. -/
theorem eq_of_length_lt (beside : Beside m v r s) (behind : r.rest.length ≤ v.length) : s = r := by
  obtain ⟨_, rest, _⟩ := r
  obtain ⟨lastLine, rest', held⟩ := s
  obtain ⟨rfl, rfl, indented⟩ := beside
  cases indented with
  | same => rfl
  | apart u =>
    have long : v.length < (u ++ '\n' :: v).length := by
      rw [List.length_append, List.length_cons]
      omega
    exact absurd behind (Nat.not_le.2 long)

variable (skipped : Skipped m)

include skipped

theorem line_eq (beside : Beside m v r s) : s.line = r.line := by
  rw [line, line, beside.lastLine, beside.rest.count_eq skipped]

theorem next (beside : Beside m v r s) : r.next.1 = s.next.1 ∧ Beside m v r.next.2 s.next.2 := by
  obtain ⟨_, rest, _⟩ := r
  obtain ⟨lastLine, rest', held⟩ := s
  obtain ⟨rfl, rfl, indented⟩ := beside
  cases held with
  | some x => exact ⟨rfl, rfl, rfl, indented⟩
  | none =>
    obtain ⟨same, behind⟩ := indented.scan skipped
    exact ⟨same, rfl, rfl, behind⟩

theorem peek (beside : Beside m v r s) : r.peek.1 = s.peek.1 ∧ Beside m v r.peek.2 s.peek.2 := by
  obtain ⟨_, rest, _⟩ := r
  obtain ⟨lastLine, rest', held⟩ := s
  obtain ⟨rfl, rfl, indented⟩ := beside
  cases held with
  | some x => exact ⟨rfl, rfl, rfl, indented⟩
  | none =>
    obtain ⟨same, behind⟩ := indented.scan skipped
    exact ⟨same, rfl, congrArg some same.symm, behind⟩

theorem freeText (beside : Beside m v r s) :
    r.freeText.1 = s.freeText.1 ∧ Beside m v r.freeText.2 s.freeText.2 := by
  rcases freeText_cases beside.held beside.rest.startsWithLoneColon_eq with
    ⟨prose, first, second⟩ | ⟨lineStart, before, first, second⟩
  · rw [first, second]
    exact ⟨rfl, beside⟩
  · obtain ⟨sameText, sameStop, behind⟩ := beside.rest.passage skipped lineStart
    rw [first, second]
    exact ⟨congrArg (fun t => Prose.text (before ++ t)) sameText, beside.lastLine,
      congrArg some sameStop.symm, behind⟩

end Reader.Beside

/-- **Readers of the text with the margin and without it stay abreast.** -/
theorem abreast_indented {m : Text} (skipped : Skipped m) (v : Text) :
    Abreast 0 False (Reader.Beside m v) (Reader.Beside m v) where
  look beside := beside.peek skipped
  take beside _ := (beside.next skipped).2
  pass beside := (beside.next skipped).2
  prose beside := Or.inr (beside.freeText skipped)
  line beside := beside.line_eq skipped
  loosen beside := beside

/-! ## Openings in the two texts -/

namespace Indented

variable {m v t t' w : Text}

/-- An opening in front of the line feed is found in both texts. -/
theorem exists_behindFirst (indented : Indented m v t t')
    (found : behindFirst opening t = some (w ++ '\n' :: v)) :
    ∃ w', behindFirst opening t' = some w' ∧ Indented m v (w ++ '\n' :: v) w' := by
  cases indented with
  | same => exact ⟨_, found, .same _⟩
  | apart u =>
    have front := behindFirst_of_append_right (by decide) found
    exact ⟨_, behindFirst_append_right front _, .apart w⟩

/-- A declaration in front of such an opening is read in both texts. -/
theorem declaration_fst_eq (indented : Indented m v t t')
    (found : behindFirst opening t = some (w ++ '\n' :: v)) :
    (declaration t').1 = (declaration t).1 := by
  cases indented with
  | same => rfl
  | apart u =>
    obtain ⟨before, rfl⟩ := behindFirst_suffix (behindFirst_of_append_right (by decide) found)
    -- The declaration ends at the opening at the latest.
    have ends (x : Text) : declaration ('/' :: '*' :: ':' :: x) = ([], '/' :: '*' :: ':' :: x) := by
      rw [declaration, if_pos (by simp [opening])]
      rintro _ ⟨⟩
    have cut (x : Text) : (declaration (before ++ (opening ++ w) ++ '\n' :: x)).1 =
        (declaration before).1 := by
      have whole : before ++ (opening ++ w) ++ '\n' :: x =
          before ++ '/' :: '*' :: ':' :: (w ++ '\n' :: x) := by simp [opening]
      rw [whole, declaration_append_of_stop (ends _) (by decide)]
    rw [cut, cut]

end Indented

namespace Reader.Beside

variable {m v : Text} {r s p : Reader}

theorem exists_firstStart? (beside : Beside m v r s) (first : r.firstStart? = some p)
    (inside : '\n' :: v <:+ p.rest) : ∃ p', s.firstStart? = some p' ∧ Beside m v p p' := by
  obtain ⟨_, found, rfl⟩ := Option.map_eq_some_iff.1 first
  obtain ⟨w, rfl⟩ := inside
  obtain ⟨w', found', indented⟩ := beside.rest.exists_behindFirst found
  refine ⟨⟨r.lastLine, w', none⟩, ?_, rfl, rfl, indented⟩
  rw [Reader.firstStart?, found', beside.lastLine]
  rfl

theorem declarationHere_eq (beside : Beside m v r s) (first : r.firstStart? = some p)
    (inside : '\n' :: v <:+ p.rest) : Block.declarationHere s = Block.declarationHere r := by
  obtain ⟨_, found, rfl⟩ := Option.map_eq_some_iff.1 first
  obtain ⟨w, rfl⟩ := inside
  simp only [Block.declarationHere, Reader.declaration, beside.rest.declaration_fst_eq found]

end Reader.Beside

/-! ## The blocks of the two texts -/

namespace Block

variable {m v : Text} (skipped : Skipped m) {r s q q' : Reader} {e : Entry}

include skipped

/-- **A block with an end behind the line feed** is the same with the margin, and so is the place
behind it. -/
theorem read_eq_of_beside (beside : Reader.Beside m v r s) (held : r.held = none)
    (isEntry : read r = (entry e, q')) (ended : e.fault = none) (before : q'.rest <:+ v) :
    read s = read r := by
  cases sameRead_of_abreast (abreast_indented skipped v) beside held (beside.held.trans held) with
  | broken first _ _ =>
    rw [isEntry] at first
    exact nomatch first
  | closed _ first second near _ _ =>
    rw [isEntry] at first
    obtain ⟨-, rfl⟩ := Prod.mk.inj first
    rw [isEntry, second, near.eq_of_length_lt before.length_le, Entry.later_zero, first]
  | unclosed missing _ first _ _ =>
    rw [isEntry] at first
    obtain ⟨same, -⟩ := Prod.mk.inj first
    rw [Block.entry.inj same, missing] at ended
    exact nomatch ended
  | ended allowed _ _ _ => exact allowed.elim

/-- **A block in front of the one with the margin** is the same as well. -/
theorem beside_read (beside : Reader.Beside m v r s) (held : r.held = none)
    (start : q ∈ starts (read r).2) (inside : '\n' :: v <:+ q.rest) :
    (read s).1 = (read r).1 ∧ Reader.Beside m v (read r).2 (read s).2 := by
  cases sameRead_of_abreast (abreast_indented skipped v) beside held (beside.held.trans held) with
  | broken first second near =>
    rw [first, second]
    exact ⟨rfl, near⟩
  | closed _ first second near _ _ =>
    rw [first] at start
    obtain ⟨p, next, further⟩ := exists_firstStart?_of_mem_starts start
    rw [first, second, near.declarationHere_eq next (inside.trans further), Entry.later_zero]
    exact ⟨rfl, near⟩
  | unclosed _ _ first second near =>
    rw [first, second, Entry.later_zero]
    exact ⟨rfl, near⟩
  | ended allowed _ _ _ => exact allowed.elim

/-- **The blocks of the text are those of the text with the margin**, where the margin is inside a
block with a header and an end. -/
theorem readAll_of_beside (isEntry : read q = (entry e, q')) (ended : e.fault = none)
    (inside : '\n' :: v <:+ q.rest) (before : q'.rest <:+ v) (start : q ∈ starts r)
    (beside : Reader.Beside m v r s) : readAll s = readAll r := by
  -- The induction passes the blocks in front of the one with the margin.
  induction r using run_induction generalizing s with
  | ended r first =>
    rw [starts_of_firstStart?_eq_none first] at start
    exact absurd start List.not_mem_nil
  | started r p first ih =>
    obtain ⟨-, held, -⟩ := Reader.firstStart?_spec first
    obtain ⟨_, same, further⟩ := exists_firstStart?_of_mem_starts start
    obtain rfl := Option.some.inj (first.symm.trans same)
    obtain ⟨p', second, beside'⟩ := beside.exists_firstStart? first (inside.trans further)
    rw [starts_of_firstStart?_eq_some first, List.mem_cons] at start
    rw [readAll_of_firstStart?_eq_some first, readAll_of_firstStart?_eq_some second]
    rcases start with rfl | later
    · rw [read_eq_of_beside skipped beside' held isEntry ended before]
    · obtain ⟨sameBlock, behind⟩ := beside_read skipped beside' held later inside
      rw [sameBlock, ih later behind]

end Block

/-- **A margin is invisible.** It may be put in front of a line of a block that has a header and an
end, if the end is not in front of the line: a document records the same, and the diagnostics are
the same, in the same lines. -/
theorem recordSource_indented (m : Margin) {front v : Text} {r r' : Reader} {e : Entry}
    (start : r ∈ Block.starts (.ofSource (front ++ '\n' :: v)))
    (isEntry : Block.read r = (.entry e, r')) (ended : e.fault = none)
    (inside : '\n' :: v <:+ r.rest) (before : r'.rest <:+ v) (d : Document) :
    d.recordSource (front ++ '\n' :: (m.chars ++ v)) = d.recordSource (front ++ '\n' :: v) ∧
      sourceFaults (front ++ '\n' :: (m.chars ++ v)) = sourceFaults (front ++ '\n' :: v) := by
  have indented : Indented m.chars v (front ++ '\n' :: v) (front ++ '\n' :: (m.chars ++ v)) :=
    .apart front
  have beside : Reader.Beside m.chars v (.ofSource (front ++ '\n' :: v))
      (.ofSource (front ++ '\n' :: (m.chars ++ v))) :=
    ⟨congrArg (· + 1) (indented.count_eq m.skipped), rfl, indented⟩
  have blocks : Block.ofSource (front ++ '\n' :: (m.chars ++ v)) =
      Block.ofSource (front ++ '\n' :: v) :=
    Block.readAll_of_beside m.skipped isEntry ended inside before start beside
  exact ⟨by rw [Document.recordSource, blocks]; rfl, by rw [sourceFaults, blocks]; rfl⟩

/-- A star may be put in front of the line that goes on behind a name. -/
theorem recordSource_indented_star :
    let m : Margin := ⟨" * ".toList, List.all_eq_true.1 rfl, rfl,
      (behindFirst_eq_none_iff (List.cons_ne_nil _ _)).1 rfl⟩
    let front := "/*: f".toList
    let v := "Does it.\n*/".toList
    ∃ r r' e, r ∈ Block.starts (.ofSource (front ++ '\n' :: v)) ∧
      Block.read r = (.entry e, r') ∧ e.fault = none ∧ '\n' :: v <:+ r.rest ∧ r'.rest <:+ v ∧
      Document.empty.recordSource (front ++ '\n' :: (m.chars ++ v)) =
        Document.empty.recordSource (front ++ '\n' :: v) ∧
      sourceFaults (front ++ '\n' :: (m.chars ++ v)) = sourceFaults (front ++ '\n' :: v) := by
  intro m front v
  let r : Reader := ⟨3, " f\nDoes it.\n*/".toList, none⟩
  let s : Reader := ⟨3, " it.\n*/".toList, some (.identifier "Does".toList)⟩
  have start : r ∈ Block.starts (.ofSource (front ++ '\n' :: v)) := by
    rw [Block.starts_of_firstStart?_eq_some (s := r) rfl]
    exact List.mem_cons_self
  have header : Block.readHeader r = .ok (.member .function globalClass ['f'], .absent) s := rfl
  have stopped : s.freeText.2.held = some .closing := rfl
  have labelled := congrArg Prod.snd (Block.labelledAll_of_closing stopped)
  have isEntry := Block.read_of_closing header labelled stopped
  have inside : '\n' :: v <:+ r.rest := ⟨" f".toList, rfl⟩
  have before : s.freeText.2.next.2.rest <:+ v := List.nil_suffix
  exact ⟨r, _, _, start, isEntry, rfl, inside, before,
    recordSource_indented m start isEntry rfl inside before Document.empty⟩

end Docblock
