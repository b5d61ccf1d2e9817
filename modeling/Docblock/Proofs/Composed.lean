import Docblock.Block
import Docblock.Proofs.Extent

/-!
# What the steps of a block keep

The readings of a block are composed of steps, so what holds along each step holds along them. The
number of the last line does not change, whatever is read. A header takes no prose, so where its
reading ends is a number of lexemes behind the place where it started.

## Main results

* `Reading.alongSteps_lastLine`: no step changes the number of the last line
* `Reading.alongSteps_behind`: what takes no prose takes a number of lexemes
-/

namespace Docblock

namespace Reader

theorem lastLine_next (r : Reader) : r.next.2.lastLine = r.lastLine := by
  unfold next
  split <;> rfl

theorem lastLine_peek (r : Reader) : r.peek.2.lastLine = r.lastLine := by
  unfold peek
  split <;> rfl

theorem lastLine_freeText (r : Reader) : r.freeText.2.lastLine = r.lastLine := by
  unfold freeText
  split
  · rfl
  · rfl
  · split
    · rfl
    · split <;> rfl
  · split <;> rfl

theorem exists_behind_next (r : Reader) : ∃ n, r.next.2.rest = Lexeme.behind n r.rest := by
  unfold next
  split
  · exact ⟨0, rfl⟩
  · exact ⟨1, rfl⟩

theorem exists_behind_peek (r : Reader) : ∃ n, r.peek.2.rest = Lexeme.behind n r.rest := by
  unfold peek
  split
  · exact ⟨0, rfl⟩
  · exact ⟨1, rfl⟩

end Reader

namespace Reading

open Lexeme

/-- **No step changes the number of the last line.** -/
theorem alongSteps_lastLine (prose : Bool) :
    AlongSteps prose fun r s => s.lastLine = r.lastLine where
  refl _ := rfl
  trans first second := second.trans first
  next := Reader.lastLine_next
  peek := Reader.lastLine_peek
  freeText _ := Reader.lastLine_freeText

/-- **What takes no prose takes a number of lexemes.** -/
theorem alongSteps_behind : AlongSteps false fun r s => ∃ n, s.rest = behind n r.rest where
  refl _ := ⟨0, rfl⟩
  trans := by
    rintro r s t ⟨n, first⟩ ⟨m, second⟩
    exact ⟨n + m, by rw [second, first, behind_add]⟩
  next := Reader.exists_behind_next
  peek := Reader.exists_behind_peek
  freeText allowed := nomatch allowed

end Reading

end Docblock
