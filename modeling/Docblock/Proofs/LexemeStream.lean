import Docblock.Proofs.Closing
import Docblock.Proofs.ProseLines
import Docblock.Proofs.Words
import Mathlib.Data.List.TakeDrop

/-!
# The lexemes of a source

A reader is asked for lexemes, and it may be asked to look ahead at any time. What is taken of a
source is the same whenever that happens. The lexemes of a source contain each of its characters
once and in order, except for those that stand between lexemes: blanks, line breaks, and the marks
of a margin at the start of a line.

## Main definitions

* `Call`, `taken`: what a reader is asked for, and the lexemes that it gives away
* `Lexeme.lexemes`: the lexemes of a text up to its end
* `MarkAt`, `Vacant`: the marks of a margin, and the places that belong to no lexeme
* `Remains`: what is left of a text without the characters at some places
* `unspaced`: a text without its vacant places

## Main results

* `nth_eq_getD`: the lexemes one after the other are those of the list
* `Reader.Stands.taken_eq`: what is taken depends on how often, and not on looking ahead
* `vacant_cons_succ_iff`: one character more in front of the vacant places
* `taken_and_flatMap_text`: nothing is lost and nothing is taken twice
-/

namespace Docblock

open Lexeme

/-! ## What is left of a text -/

section Remains

variable {gone gone' : Nat → Prop} {c : Char} {t u : Text}

/-- What is left of a text without the characters at some places. -/
def Remains (gone : Nat → Prop) (t u : Text) : Prop :=
  ∃ places : List Nat, places.Pairwise (· < ·) ∧
    (∀ n, n ∈ places ↔ n < t.length ∧ ¬ gone n) ∧ places.filterMap (t[·]?) = u

theorem remains_nil (gone : Nat → Prop) : Remains gone [] [] :=
  ⟨[], List.Pairwise.nil, by simp, rfl⟩

theorem Remains.congr (remains : Remains gone t u) (same : ∀ n, gone n ↔ gone' n) :
    Remains gone' t u := by
  obtain rfl : gone = gone' := funext fun n => propext (same n)
  exact remains

/-- The places behind the first one, counted from there. -/
theorem filterMap_map_succ (places : List Nat) :
    (places.map (· + 1)).filterMap ((c :: t)[·]?) = places.filterMap (t[·]?) := by
  rw [List.filterMap_map]
  rfl

theorem pairwise_map_succ {places : List Nat} (increasing : places.Pairwise (· < ·)) :
    (places.map (· + 1)).Pairwise (· < ·) := by
  rw [List.pairwise_map]
  exact increasing.imp Nat.succ_lt_succ

/-- **A character that is gone** is not there. -/
theorem Remains.skip (here : gone 0) (remains : Remains (fun n => gone (n + 1)) t u) :
    Remains gone (c :: t) u := by
  obtain ⟨places, increasing, mem_iff, rfl⟩ := remains
  refine ⟨places.map (· + 1), pairwise_map_succ increasing, ?_, filterMap_map_succ places⟩
  intro n
  cases n with
  | zero => simp [here]
  | succ n => simp [mem_iff]

/-- **A character that is not gone** is there, in front of the others. -/
theorem Remains.keep (here : ¬ gone 0) (remains : Remains (fun n => gone (n + 1)) t u) :
    Remains gone (c :: t) (c :: u) := by
  obtain ⟨places, increasing, mem_iff, rfl⟩ := remains
  refine ⟨0 :: places.map (· + 1), ?_, ?_, ?_⟩
  · rw [List.pairwise_cons]
    exact ⟨by simp, pairwise_map_succ increasing⟩
  · intro n
    cases n with
    | zero => simp [here]
    | succ n => simp [mem_iff]
  · rw [List.filterMap_cons, filterMap_map_succ]
    rfl

end Remains

/-! ## Vacant places -/

/-- A mark of a margin stands at a place: a star that no slash follows, or a slash that is not the
end of a star and a slash. -/
def MarkAt (t : Text) (n : Nat) : Prop :=
  t[n]? = some '*' ∧ t[n + 1]? ≠ some '/' ∨
    t[n]? = some '/' ∧ ∀ m, m + 1 = n → t[m]? ≠ some '*'

/-- **The places that belong to no lexeme**: a blank, a line break, or a mark of a margin with only
such places between it and the start of a line. -/
inductive Vacant (fresh : Bool) (t : Text) : Nat → Prop
  | separator {n : Nat} {c : Char} (here : t[n]? = some c)
      (between : c ∈ [' ', '\t', '\x0c', '\x0b', '\n', '\r']) : Vacant fresh t n
  | mark {k n : Nat} (line : StartsLine fresh t k) (behind : k ≤ n)
      (margin : ∀ m, k ≤ m → m < n → Vacant fresh t m) (mark : MarkAt t n) : Vacant fresh t n

/-- A text without its vacant places. -/
def unspaced (fresh : Bool) : Text → Text
  | [] => []
  | c :: t =>
    if isBlank c then unspaced fresh t
    else if isLineBreak c then unspaced true t
    else if fresh && startsWithMarginMark (c :: t) then unspaced fresh t
    else c :: unspaced false t

/-- Whether the margin of a line goes on behind a character. -/
def staysFresh (fresh : Bool) (c : Char) (t : Text) : Bool :=
  isLineBreak c || fresh && (isBlank c || startsWithMarginMark (c :: t))

section Vacant

variable {fresh : Bool} {c : Char} {t : Text} {n k : Nat}

theorem markAt_zero_iff : MarkAt (c :: t) 0 ↔ startsWithMarginMark (c :: t) = true := by
  rw [startsWithMarginMark_cons, List.head?_eq_getElem?]
  simp [MarkAt, or_comm]

theorem vacant_zero_iff : Vacant fresh (c :: t) 0 ↔
    separates c = true ∨ fresh = true ∧ startsWithMarginMark (c :: t) = true := by
  constructor
  · rintro (⟨here, between⟩ | ⟨line, behind, -, mark⟩)
    · obtain rfl := Option.some.inj here
      exact Or.inl (separates_iff.2 between)
    · obtain rfl := Nat.le_zero.1 behind
      exact Or.inr ⟨line, markAt_zero_iff.1 mark⟩
  · rintro (between | ⟨isFresh, mark⟩)
    · exact .separator rfl (separates_iff.1 between)
    · exact .mark (k := 0) isFresh le_rfl (by simp) (markAt_zero_iff.2 mark)

theorem staysFresh_iff : staysFresh fresh c t = true ↔
    isLineBreak c = true ∨ fresh = true ∧ Vacant fresh (c :: t) 0 := by
  rw [vacant_zero_iff]
  cases fresh <;> simp only [staysFresh, separates, Bool.or_eq_true, Bool.and_eq_true] <;> tauto

/-- A margin does not go on behind a star that a slash follows. -/
theorem ne_star_of_staysFresh (fresh' : staysFresh fresh c t = true) (slash : t[0]? = some '/') :
    c ≠ '*' := by
  rintro rfl
  have noMark : startsWithMarginMark ('*' :: t) = false := by
    rw [startsWithMarginMark_cons, List.head?_eq_getElem?, slash]
    rfl
  rw [staysFresh, noMark, Bool.or_false] at fresh'
  cases fresh <;> exact absurd fresh' (by decide)

theorem markAt_cons_succ_iff (apart : n = 0 → t[0]? = some '/' → c ≠ '*') :
    MarkAt (c :: t) (n + 1) ↔ MarkAt t n := by
  refine or_congr Iff.rfl (and_congr_right fun slash => ?_)
  constructor
  · intro unclosed m place
    exact unclosed (m + 1) (congrArg (· + 1) place)
  · intro unclosed m place
    obtain rfl := Nat.succ.inj place
    cases m with
    | zero =>
      intro star
      exact apart rfl slash (Option.some.inj star)
    | succ m => exact unclosed m rfl

/-- A line that starts behind a character is one of the whole text, or the one that the character is
in the margin of. -/
theorem exists_startsLine_cons (line : StartsLine (staysFresh fresh c t) t k) :
    ∃ k', StartsLine fresh (c :: t) k' ∧ (k' = k + 1 ∨ k' = 0 ∧ k = 0 ∧ Vacant fresh (c :: t) 0) := by
  cases k with
  | zero =>
    rcases staysFresh_iff.1 line with isBreak | ⟨isFresh, vacant⟩
    · exact ⟨1, ⟨c, rfl, isBreak⟩, Or.inl rfl⟩
    · exact ⟨0, isFresh, Or.inr ⟨rfl, rfl, vacant⟩⟩
  | succ k => exact ⟨k + 2, line, Or.inl rfl⟩

/-- And the other way round. -/
theorem exists_startsLine_of_cons (line : StartsLine fresh (c :: t) k)
    (margin : k = 0 → Vacant fresh (c :: t) 0) :
    StartsLine (staysFresh fresh c t) t (k - 1) := by
  match k with
  | 0 => exact staysFresh_iff.2 (Or.inr ⟨line, margin rfl⟩)
  | 1 =>
    obtain ⟨d, first, isBreak⟩ := line
    obtain rfl := Option.some.inj first
    exact staysFresh_iff.2 (Or.inl isBreak)
  | k + 2 => exact line

/-- **One character more in front of the vacant places.** -/
theorem vacant_cons_succ_iff :
    Vacant fresh (c :: t) (n + 1) ↔ Vacant (staysFresh fresh c t) t n := by
  -- The induction goes over the margin in front of a mark, in both directions.
  constructor
  · intro vacant
    generalize place : n + 1 = m at vacant
    induction vacant generalizing n with
    | separator here between =>
      subst place
      exact .separator here between
    | @mark k m line behind margin mark ih =>
      subst place
      have line' : StartsLine (staysFresh fresh c t) t (k - 1) := by
        apply exists_startsLine_of_cons line
        rintro rfl
        exact margin 0 le_rfl n.succ_pos
      refine .mark line' (by omega) ?_ ?_
      · intro m above below
        exact ih (m + 1) (by omega) (by omega) rfl
      · refine (markAt_cons_succ_iff ?_).1 mark
        rintro rfl
        have first : k - 1 = 0 := by omega
        rw [first] at line'
        exact ne_star_of_staysFresh line'
  · intro vacant
    induction vacant with
    | separator here between => exact .separator here between
    | @mark k n line behind margin mark ih =>
      obtain ⟨k', line', starts⟩ := exists_startsLine_cons line
      refine .mark line' (by omega) ?_ ((markAt_cons_succ_iff ?_).2 mark)
      · intro m above below
        cases m with
        | zero =>
          rcases starts with rfl | ⟨-, -, vacant⟩
          · exact absurd above (Nat.not_succ_le_zero k)
          · exact vacant
        | succ m => exact ih m (by omega) (by omega)
      · rintro rfl
        obtain rfl := Nat.le_zero.1 behind
        exact ne_star_of_staysFresh line

/-- **What is left without the vacant places.** -/
theorem remains_unspaced (fresh : Bool) (t : Text) : Remains (Vacant fresh t) t (unspaced fresh t) := by
  induction t generalizing fresh with
  | nil => exact remains_nil _
  | cons c t ih =>
    have behind {fresh' : Bool} (same : staysFresh fresh c t = fresh') :
        Remains (fun n => Vacant fresh (c :: t) (n + 1)) t (unspaced fresh' t) := by
      apply (ih fresh').congr
      intro n
      rw [vacant_cons_succ_iff, same]
    rw [unspaced]
    split
    · rename_i blank
      have noBreak : isLineBreak c = false := by
        apply eq_false_of_ne_true
        intro isBreak
        simp only [isLineBreak, Bool.or_eq_true, beq_iff_eq] at isBreak
        rcases isBreak with rfl | rfl <;> exact absurd blank (by decide)
      apply Remains.skip
      · exact vacant_zero_iff.2 (Or.inl (by rw [separates, blank]; rfl))
      · exact behind (by simp [staysFresh, noBreak, blank])
    · rename_i noBlank
      split
      · rename_i isBreak
        apply Remains.skip
        · exact vacant_zero_iff.2 (Or.inl (by rw [separates, isBreak, Bool.or_true]))
        · exact behind (by rw [staysFresh, isBreak, Bool.true_or])
      · rename_i noBreak
        split
        · rename_i mark
          obtain ⟨rfl, isMark⟩ := Bool.and_eq_true_iff.1 mark
          apply Remains.skip
          · exact vacant_zero_iff.2 (Or.inr ⟨rfl, isMark⟩)
          · exact behind (by simp [staysFresh, isMark])
        · rename_i noMark
          apply Remains.keep
          · rw [vacant_zero_iff, separates]
            simpa [noBlank, noBreak] using noMark
          · exact behind (by simpa [staysFresh, noBlank, noBreak] using noMark)

end Vacant

/-! ## The lexemes of a text -/

section Unspaced

variable {t u w : Text}

/-- The margin in front of a lexeme is vacant. -/
theorem unspaced_skipMargin (fresh : Bool) (t : Text) :
    unspaced fresh t = unspaced false (skipMargin fresh t) := by
  induction t generalizing fresh with
  | nil => rfl
  | cons c t ih =>
    rw [unspaced, skipMargin]
    split
    · exact ih fresh
    · rename_i noBlank
      split
      · exact ih true
      · rename_i noBreak
        split
        · exact ih fresh
        · rw [unspaced, if_neg noBlank, if_neg noBreak, Bool.false_and, if_neg (by decide)]

/-- A lexeme has no vacant place. -/
theorem unspaced_append (within : ∀ c ∈ w, separates c = false) :
    unspaced false (w ++ u) = w ++ unspaced false u := by
  induction w with
  | nil => rfl
  | cons c w ih =>
    obtain ⟨solid, others⟩ := List.forall_mem_cons.1 within
    obtain ⟨noBlank, noBreak⟩ := Bool.or_eq_false_iff.1 solid
    rw [List.cons_append, unspaced, noBlank, noBreak, Bool.false_and, if_neg (by decide),
      if_neg (by decide), if_neg (by decide), ih others, List.cons_append]

end Unspaced

namespace Lexeme

variable {t : Text} {n : Nat}

/-- The lexemes of a text, up to its end. -/
def lexemes (t : Text) : List Lexeme :=
  if (scan t).1 = .endOfSource then [] else (scan t).1 :: lexemes (scan t).2
termination_by t.length
decreasing_by exact length_scan_rest_lt ‹_›

theorem lexemes_of_endOfSource (ended : (scan t).1 = .endOfSource) : lexemes t = [] := by
  rw [lexemes, if_pos ended]

theorem lexemes_of_ne (more : (scan t).1 ≠ .endOfSource) :
    lexemes t = (scan t).1 :: lexemes (scan t).2 := by
  rw [lexemes, if_neg more]

theorem endOfSource_notMem_lexemes (t : Text) : .endOfSource ∉ lexemes t := by
  fun_induction lexemes t with
  | case1 => simp
  | case2 t more ih => exact List.not_mem_cons_of_ne_of_not_mem (Ne.symm more) ih

/-- **The lexemes of a text have all its characters**, except for those at the vacant places. -/
theorem flatMap_text_lexemes (t : Text) : (lexemes t).flatMap text = unspaced false t := by
  fun_induction lexemes t with
  | case1 t ended =>
    have nothing : skipMargin false t = [] := scanHere_eq_endOfSource_iff.1 ended
    rw [unspaced_skipMargin, nothing]
    rfl
  | case2 t more ih =>
    rw [List.flatMap_cons, ih, unspaced_skipMargin false t, ← text_append_scan t]
    exact (unspaced_append fun c inside => separates_of_mem_text inside).symm

/-- **The lexemes one after the other are those of the list**, and then the end of the source. -/
theorem nth_eq_getD (n : Nat) (t : Text) : nth n t = (lexemes t).getD n .endOfSource := by
  induction n generalizing t with
  | zero =>
    by_cases ended : (scan t).1 = .endOfSource
    · rw [lexemes_of_endOfSource ended]
      exact ended
    · rw [lexemes_of_ne ended]
      rfl
  | succ n ih =>
    have further : nth (n + 1) t = nth n (scan t).2 :=
      congrArg (fun u => (scan u).1) (behind_succ_of_scan (Prod.mk.eta (p := scan t)).symm n)
    rw [further, ih]
    by_cases ended : (scan t).1 = .endOfSource
    · -- Behind the end there is nothing.
      rw [lexemes_of_endOfSource ended, scan_rest_of_eq_endOfSource ended]
      rw [lexemes_of_endOfSource rfl]
      rfl
    · rw [lexemes_of_ne ended]
      rfl

end Lexeme

/-! ## What is taken of a source -/

/-- What a reader is asked for. -/
inductive Call where
  /-- The next lexeme, which is taken. -/
  | take
  /-- The next lexeme, which is only looked at. -/
  | look
  deriving DecidableEq

/-- What a reader answers, and where it stands then. -/
def Call.answer : Call → Reader → Lexeme × Reader
  | take => Reader.next
  | look => Reader.peek

/-- The lexemes that are taken by some calls. -/
def taken : List Call → Reader → List Lexeme
  | [], _ => []
  | .take :: calls, r => r.next.1 :: taken calls r.next.2
  | .look :: calls, r => taken calls r.peek.2

namespace Reader

/-- The reader behind some calls. -/
def behindCalls (calls : List Call) (r : Reader) : Reader :=
  calls.foldl (fun r call => (call.answer r).2) r

variable {n : Nat} {r s : Reader}

/-- A call that takes a lexeme goes one on, and one that looks at it does not. -/
theorem Stands.answer (stands : Stands n r s) (call : Call) :
    (call.answer s).1 = nth n r.rest ∧ Stands (n + [call].count .take) r (call.answer s).2 := by
  cases call with
  | take =>
    have next := stands.next
    refine ⟨congrArg Prod.fst next, ?_⟩
    rw [Call.answer, next]
    exact stands_after (n + 1) r
  | look => exact stands.peek

/-- **Behind some calls** a reader has taken as many lexemes as it has been asked for. -/
theorem Stands.behindCalls (stands : Stands n r s) (calls : List Call) :
    Stands (n + calls.count .take) r (behindCalls calls s) := by
  induction calls generalizing n s with
  | nil => exact stands
  | cons call calls ih =>
    have further := ih (stands.answer call).2
    rwa [Nat.add_assoc, ← List.count_append, List.singleton_append] at further

/-- **What is taken depends on how often lexemes are taken**, and not on looking ahead. -/
theorem Stands.taken_eq (stands : Stands n r s) (calls : List Call) :
    taken calls s = ((lexemes r.rest).drop n).takeD (calls.count .take) .endOfSource := by
  induction calls generalizing n s with
  | nil => rfl
  | cons call calls ih =>
    obtain ⟨shown, further⟩ := stands.answer call
    have others := ih further
    cases call with
    | take =>
      change s.next.1 = _ at shown
      change taken calls s.next.2 = ((lexemes r.rest).drop (n + 1)).takeD _ _ at others
      rw [taken, others, shown, nth_eq_getD, List.count_cons_self (l := calls), List.takeD_succ,
        List.head?_drop, List.tail_drop, ← List.getD_eq_getElem?_getD]
    | look =>
      rw [taken, List.count_cons_of_ne (by decide)]
      exact others

end Reader

namespace Lexeme

/-- Ends of the source add no characters. -/
theorem flatMap_text_takeD {n : Nat} {xs : List Lexeme} (all : xs.length ≤ n) :
    (xs.takeD n .endOfSource).flatMap text = xs.flatMap text := by
  induction xs generalizing n with
  | nil =>
    rw [List.takeD_nil, List.flatMap_replicate]
    exact List.flatten_replicate_nil
  | cons x xs ih =>
    cases n with
    | zero => exact absurd all (Nat.not_succ_le_zero _)
    | succ n =>
      rw [List.takeD_succ, List.flatMap_cons, List.flatMap_cons, List.tail_cons,
        ih (Nat.succ_le_succ_iff.1 all)]
      rfl

end Lexeme

open Reader

/-- **Nothing is lost and nothing is taken twice.** What is taken of a source are its lexemes in
order, wherever the reader is asked to look ahead, and then the end of the source. Once that has
been taken, the lexemes have all characters of the source except for those at its vacant places, and
every further call answers the end of the source. -/
theorem taken_and_flatMap_text (source : Text) :
    (∀ calls : List Call, taken calls (.ofSource source) =
      List.takeD (calls.count .take) (lexemes source) .endOfSource) ∧
    .endOfSource ∉ lexemes source ∧
    ∀ calls : List Call, .endOfSource ∈ taken calls (.ofSource source) →
      Remains (Vacant false source) source ((taken calls (.ofSource source)).flatMap text) ∧
      ∀ call : Call, (call.answer (behindCalls calls (.ofSource source))).1 = .endOfSource := by
  have start : Stands 0 (.ofSource source) (.ofSource source) := stands_zero rfl
  have given (calls : List Call) : taken calls (.ofSource source) =
      List.takeD (calls.count .take) (lexemes source) .endOfSource := start.taken_eq calls
  refine ⟨given, endOfSource_notMem_lexemes source, ?_⟩
  intro calls ended
  rw [given] at ended ⊢
  -- The end is no lexeme of the source, so all of them have been taken.
  have all : (lexemes source).length ≤ calls.count .take := by
    by_contra few
    rw [List.takeD_eq_take _ (Nat.le_of_not_le few)] at ended
    exact endOfSource_notMem_lexemes source (List.mem_of_mem_take ended)
  constructor
  · rw [flatMap_text_takeD all, flatMap_text_lexemes]
    exact remains_unspaced false source
  · intro call
    have shown := ((start.behindCalls calls).answer call).1
    rw [shown, Nat.zero_add, nth_eq_getD]
    rw [ofSource_rest, List.getD_eq_getElem?_getD, List.getElem?_eq_none all]
    rfl

end Docblock
