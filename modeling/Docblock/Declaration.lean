import Docblock.Text

/-!
# Between the blocks

Outside the blocks a source is program text. Two things are found there: where the next block
opens, and the declaration that follows a block.

## Main definitions

* `opening`: what a block starts with
* `afterOpening`: the text behind the first opening
* `declaration`: the declaration that a text starts with, and the text behind it

## Main results

* `afterOpening_suffix`: an opening and the text behind it are an end of the text
* `declaration_append`: a declaration is what the text starts with
-/

namespace Docblock

/-- What a block starts with: the start of a comment and a colon. -/
def opening : Text := ['/', '*', ':']

/-- The text behind the first opening, if there is one. -/
def afterOpening : Text → Option Text
  | [] => none
  | c :: t => if opening.isPrefixOf (c :: t) then some (t.drop 2) else afterOpening t

/-- The declaration that a text starts with, and the text behind it. It ends before a semicolon, a
brace, the opening of a block or a colon; two colons belong to it. -/
def declaration : Text → Text × Text
  | [] => ([], [])
  -- Two colons join the names of a class and its member.
  | ':' :: ':' :: t => (':' :: ':' :: (declaration t).1, (declaration t).2)
  | c :: t =>
    if c == ';' || c == '{' || c == ':' || opening.isPrefixOf (c :: t) then ([], c :: t)
    else (c :: (declaration t).1, (declaration t).2)

/-- An opening and the text behind it are an end of the text. -/
theorem afterOpening_suffix {t u : Text} (h : afterOpening t = some u) :
    opening ++ u <:+ t := by
  induction t with
  | nil => simp [afterOpening] at h
  | cons c t ih =>
    rw [afterOpening] at h
    split at h
    · rename_i starts
      obtain ⟨v, whole⟩ := List.isPrefixOf_iff_prefix.1 starts
      have tail : t = '*' :: ':' :: v := by simp [opening] at whole; exact whole.2.symm
      obtain rfl : v = u := by simpa [tail] using h
      exact ⟨[], by simpa using whole⟩
    · exact (ih h).trans (List.suffix_cons c t)

/-- A declaration is what the text starts with. -/
theorem declaration_append (t : Text) : (declaration t).1 ++ (declaration t).2 = t := by
  fun_induction declaration t with
  | case1 => rfl
  | case2 t ih => simp [ih]
  | case3 c t _ ends => rfl
  | case4 c t _ ends ih => simp [ih]

end Docblock
