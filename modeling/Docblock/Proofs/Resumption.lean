import Docblock.Proofs.Starts

/-!
# Where reading resumes behind a broken header

A block with a broken header is given up where the fault is noticed, and the search for the next
block goes on from there. The lexemes that the header has taken are not looked at again, so the next
block is found where it opens exactly when none of them has taken a part of its opening.

## Main results

* `next_start_of_broken_iff`: behind a broken header the run goes on at the next opening exactly
  when no lexeme of the header has taken a part of an opening
-/

namespace Docblock.Block

open Lexeme Reading

/-- A broken header leaves the reader a number of lexemes behind the opening. -/
theorem exists_behind_of_broken {r r' : Reader} {fault : Diagnostic}
    (broken : read r = (.broken fault, r')) :
    r'.lastLine = r.lastLine ∧ ∃ n, r'.rest = behind n r.rest := by
  have last := composed_readHeader.reached_of_steps (alongSteps_lastLine false) r
  have taken := composed_readHeader.reached_of_steps alongSteps_behind r
  unfold read at broken
  split at broken
  · rename_i d s h
    obtain ⟨-, rfl⟩ := Prod.mk.inj broken
    rw [h] at last taken
    exact ⟨last, taken⟩
  · simp at broken

/-- **Behind a broken header the run goes on at the next opening** exactly when no lexeme of the
header has taken a part of an opening. The header has read `n` lexemes from the opening on. -/
theorem next_start_of_broken_iff (source : Text) {before after : List Reader} {r r' : Reader}
    {fault : Diagnostic} (run : starts (.ofSource source) = before ++ r :: after)
    (broken : read r = (.broken fault, r')) :
    ∃ n, r'.rest = behind n r.rest ∧
      (after.head? = r.firstStart? ↔ ∀ k < n, ¬ TakesOpening (behind k r.rest)) := by
  obtain ⟨last, n, taken⟩ := exists_behind_of_broken broken
  refine ⟨n, taken, ?_⟩
  -- The run goes on from the reader behind the fault.
  have resumed : after.head? = r'.firstStart? := by
    rw [eq_starts_of_starts_eq run, head?_starts, broken]
  -- Readers with the same last line are the same where the same text is left.
  have sameText : r'.firstStart? = r.firstStart? ↔
      behindFirst opening r.rest = behindFirst opening r'.rest := by
    have inj : Function.Injective fun u => (⟨r.lastLine, u, none⟩ : Reader) :=
      fun u v same => congrArg Reader.rest same
    rw [Reader.firstStart?, Reader.firstStart?, last, (Option.map_injective inj).eq_iff, eq_comm]
  rw [resumed, sameText, taken, behindFirst_opening_behind_iff]

/-- The two colons that are no name of a class take no part of the next opening. -/
theorem next_start_of_broken_iff_scope :
    let source := "/*: Class ::A /*: Class B */".toList
    let r : Reader := ⟨1, " Class ::A /*: Class B */".toList, none⟩
    let r' : Reader := ⟨1, "A /*: Class B */".toList, none⟩
    starts (.ofSource source) = [] ++ r :: starts r' ∧
      read r = (.broken ⟨1, .className, .scope⟩, r') ∧
      ∃ n, r'.rest = behind n r.rest ∧
        ((starts r').head? = r.firstStart? ↔ ∀ k < n, ¬ TakesOpening (behind k r.rest)) := by
  intro source r r'
  have broken : read r = (.broken ⟨1, .className, .scope⟩, r') := rfl
  have run : starts (.ofSource source) = [] ++ r :: starts r' := by
    rw [starts_of_firstStart?_eq_some (s := r) rfl, broken]
    rfl
  exact ⟨run, broken, next_start_of_broken_iff source run broken⟩

/-- The slash of an opening is lost where the name of a class is missing in front of it. -/
theorem next_start_ne_of_slash :
    let source := "/*: Class /*: Class Good */".toList
    let r : Reader := ⟨1, " Class /*: Class Good */".toList, none⟩
    ∃ fault r', starts (.ofSource source) = [r] ∧ read r = (.broken fault, r') ∧
      r.firstStart? = some ⟨1, " Class Good */".toList, none⟩ := by
  intro source r
  let r' : Reader := ⟨1, "*: Class Good */".toList, none⟩
  have broken : read r = (.broken ⟨1, .className, .symbol ['/']⟩, r') := rfl
  have ended : starts r' = [] := starts_of_firstStart?_eq_none rfl
  refine ⟨_, r', ?_, broken, rfl⟩
  rw [starts_of_firstStart?_eq_some (s := r) rfl, broken, ended]

end Docblock.Block
