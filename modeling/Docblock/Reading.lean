import Docblock.Diagnostic
import Docblock.Reader
import Docblock.Text.White

/-!
# Readings

A reading takes what it needs from a reader and leaves the reader behind it; where something is
missing it stops with a diagnostic, and the reader stays where that was noticed.

## Main definitions

* `Reading`: a computation on a reader that may stop with a diagnostic
* `Reading.take`, `Reading.look`: the next lexeme, taken or left
* `Reading.lacking`: stops because something is missing here
* `Reading.Composed`: the readings that are put together from steps
* `Reading.AlongSteps`: the relations that hold along each step and add up

## Main results

* `Composed.reached_of_steps`: what every step does, a reading does
* `alongSteps_suffix`: no step goes back
-/

namespace Docblock

/-- A computation on a reader that may stop with a diagnostic. -/
abbrev Reading := EStateM Diagnostic Reader

namespace Reading

/-- Takes the next lexeme. -/
def take : Reading Lexeme := fun r => .ok r.next.1 r.next.2

/-- Looks at the next lexeme and leaves it. -/
def look : Reading Lexeme := fun r => .ok r.peek.1 r.peek.2

/-- Takes the next lexeme if it is the given one. -/
def takeIf (x : Lexeme) : Reading Unit := do
  if (← look) = x then discard take

/-- Takes the prose that stands here, trimmed. -/
def prose : Reading Text := fun r => .ok r.freeText.1.get.trim r.freeText.2

/-- What is missing here, where a lexeme was found in its place. -/
def lack (expected : Expected) (found : Lexeme) : Reading Diagnostic :=
  fun r => .ok ⟨r.line, expected, found⟩ r

/-- Stops because something is missing here. -/
def lacking {α : Type} (expected : Expected) (found : Lexeme) : Reading α := do
  throw (← lack expected found)

/-- Takes an identifier. -/
def identifier (expected : Expected) : Reading Text := do
  match ← take with
  | .identifier word => return word
  | found => lacking expected found

/-! ## Running a reading -/

variable {α β : Type}

@[simp] theorem look_bind (q : Lexeme → Reading α) (r : Reader) :
    (look >>= q) r = q r.peek.1 r.peek.2 := rfl

@[simp] theorem take_bind (q : Lexeme → Reading α) (r : Reader) :
    (take >>= q) r = q r.next.1 r.next.2 := rfl

@[simp] theorem discard_take_bind (q : Unit → Reading α) (r : Reader) :
    (discard take >>= q) r = q () r.next.2 := rfl

@[simp] theorem prose_bind (q : Text → Reading α) (r : Reader) :
    (prose >>= q) r = q r.freeText.1.get.trim r.freeText.2 := rfl

@[simp] theorem pure_apply (a : α) (r : Reader) : (pure a : Reading α) r = .ok a r := rfl

@[simp] theorem lacking_apply (expected : Expected) (found : Lexeme) (r : Reader) :
    (lacking expected found : Reading α) r = .error ⟨r.line, expected, found⟩ r := rfl

/-- A sequence succeeds where both of its parts do. -/
theorem bind_eq_ok_iff {p : Reading α} {q : α → Reading β} {r s : Reader} {b : β} :
    (p >>= q) r = .ok b s ↔ ∃ a r', p r = .ok a r' ∧ q a r' = .ok b s := by
  simp only [bind, EStateM.bind]
  cases p r <;> simp [and_assoc]

/-- A sequence stops where one of its parts does. -/
theorem bind_eq_error_iff {p : Reading α} {q : α → Reading β} {r s : Reader} {d : Diagnostic} :
    (p >>= q) r = .error d s ↔
      p r = .error d s ∨ ∃ a r', p r = .ok a r' ∧ q a r' = .error d s := by
  simp only [bind, EStateM.bind]
  cases p r <;> simp [and_assoc]

theorem takeIf_bind (x : Lexeme) (q : Unit → Reading α) (r : Reader) :
    (takeIf x >>= q) r = if r.peek.1 = x then q () r.next.2 else q () r.peek.2 := by
  simp only [takeIf, bind_assoc, look_bind]
  split
  · rw [discard_take_bind, Reader.next_peek]
  · rw [pure_bind]

theorem identifier_bind_of_eq {expected : Expected} {q : Text → Reading α} {r : Reader}
    {word : Text} (h : r.next.1 = .identifier word) :
    (identifier expected >>= q) r = q word r.next.2 := by
  simp only [identifier, bind_assoc, take_bind, h, pure_bind]

/-- Where no identifier stands, an identifier is missing. -/
theorem identifier_bind_of_ne {expected : Expected} {q : Text → Reading α} {r : Reader}
    (h : ∀ word, r.next.1 ≠ .identifier word) :
    (identifier expected >>= q) r = .error ⟨r.next.2.line, expected, r.next.1⟩ r.next.2 := by
  cases found : r.next.1 with
  | identifier word => exact absurd found (h word)
  | symbol sign => simp only [identifier, bind_assoc, take_bind, found]; rfl
  | endOfSource => simp only [identifier, bind_assoc, take_bind, found]; rfl

/-! ## Readings as sequences of steps -/

/-- The readings that are put together from steps: a lexeme is taken or looked at, prose is taken,
or something is reported as missing. `prose` says whether prose may be taken. -/
inductive Composed (prose : Bool) : {α : Type} → Reading α → Prop
  | pure {α : Type} (a : α) : Composed prose (pure a : Reading α)
  | take : Composed prose take
  | look : Composed prose look
  | text : prose = true → Composed prose Reading.prose
  | lack (expected : Expected) (found : Lexeme) : Composed prose (lack expected found)
  | throw {α : Type} (d : Diagnostic) : Composed prose (throw d : Reading α)
  | bind {α β : Type} {p : Reading α} {q : α → Reading β} (first : Composed prose p)
      (second : ∀ a, Composed prose (q a)) : Composed prose (p >>= q)

/-- The reader that a reading leaves, also when it stops. -/
def reached {α : Type} : EStateM.Result Diagnostic Reader α → Reader
  | .ok _ r => r
  | .error _ r => r

section Composed

variable {prose : Bool} {p : Reading α}

theorem composed_lacking (expected : Expected) (found : Lexeme) :
    Composed prose (lacking expected found : Reading α) :=
  .bind (.lack expected found) .throw

theorem composed_discard (h : Composed prose p) : Composed prose (discard p) :=
  .bind h fun _ => .pure _

theorem composed_takeIf (x : Lexeme) : Composed prose (takeIf x) := by
  refine .bind .look fun y => ?_
  split
  · exact composed_discard .take
  · exact .pure _

theorem composed_identifier (expected : Expected) : Composed prose (identifier expected) := by
  refine .bind .take fun x => ?_
  split
  · exact .pure _
  · exact composed_lacking _ _

/-- A relation between readers that holds along each step and adds up. -/
structure AlongSteps (prose : Bool) (R : Reader → Reader → Prop) : Prop where
  refl : ∀ r, R r r
  trans : ∀ {r s t}, R r s → R s t → R r t
  next : ∀ r, R r r.next.2
  peek : ∀ r, R r r.peek.2
  freeText : prose = true → ∀ r, R r r.freeText.2

/-- **What every step does, a reading does**: a relation along the steps holds between the reader
that a reading is given and the one that it leaves. -/
theorem Composed.reached_of_steps (h : Composed prose p) {R : Reader → Reader → Prop}
    (along : AlongSteps prose R) : ∀ r, R r (reached (p r)) := by
  induction h with
  | pure a => exact along.refl
  | take => exact along.next
  | look => exact along.peek
  | text allowed => exact along.freeText allowed
  | lack expected found => exact along.refl
  | throw d => exact along.refl
  | @bind α β p q _ _ first second =>
    intro r
    have before := first r
    simp only [Bind.bind, EStateM.bind]
    cases h : p r with
    | ok a r' =>
      rw [h] at before
      exact along.trans before (second a r')
    | error d r' =>
      -- The second part is not run.
      rw [h] at before
      exact before

/-- **No step goes back**: what it leaves is an end of what it was given. -/
theorem alongSteps_suffix (prose : Bool) : AlongSteps prose fun r s => s.rest <:+ r.rest where
  refl _ := List.suffix_rfl
  trans first second := second.trans first
  next := Reader.next_rest_suffix
  peek := Reader.peek_rest_suffix
  freeText _ := Reader.freeText_rest_suffix

end Composed

end Reading

end Docblock
