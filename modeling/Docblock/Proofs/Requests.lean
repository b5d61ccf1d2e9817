import Docblock.Proofs.Abreast
import Docblock.Proofs.FaultLines
import Docblock.Proofs.HeldLexeme
import Docblock.Proofs.ProseLines

/-!
# Requests to a reader

A reader can be asked for the next block, for a lexeme, to look ahead, for a declaration and for
prose. The requests may come in any order: looking for a block drops the lexeme that is held, a
declaration is read behind it, and prose takes it or leaves it. Whatever has been asked for, the
reader stands in its source, knows its line, and holds nothing or a lexeme that it has passed.

## Main definitions

* `Request`, `Request.behind`: what a reader can be asked for, and the reader behind it
* `Reader.cursor`: the number of characters in front of a reader
* `Reader.StandsIn`: a reader stands in a source, and has passed the lexeme that it holds
* `Reader.Placed`: what the cursor tells of a reader

## Main results

* `further_behind`: no request takes a reader back
* `StandsIn.behind`, `StandsIn.behindAll`: a reader stands in its source after one request, and
  after all of them
* `placed_behindAll`: where a reader stands after some requests, and after one more
-/

namespace Docblock

open Lexeme

/-- What a reader can be asked for. -/
inductive Request where
  /-- To go to the next block. -/
  | block
  /-- The next lexeme, which is taken. -/
  | lexeme
  /-- The next lexeme, which is only looked at. -/
  | lookahead
  /-- The declaration that stands here. -/
  | declaration
  /-- The prose that stands here. -/
  | prose
  deriving DecidableEq

/-- The reader behind what it is asked for. -/
def Request.behind : Request → Reader → Reader
  | block, r => r.seekBlock.2
  | lexeme, r => r.next.2
  | lookahead, r => r.peek.2
  | declaration, r => r.declaration.2
  | prose, r => r.freeText.2

/-- A sign that is scanned has a character. -/
theorem Lexeme.sign_ne_nil {t u sign : Text} (scanned : scan t = (.symbol sign, u)) :
    sign ≠ [] := by
  rw [scan] at scanned
  cases skipped : skipMargin false t with
  | nil =>
    rw [skipped] at scanned
    cases scanned
  | cons c v =>
    rw [skipped, scanHere] at scanned
    split at scanned
    · cases scanned
    · obtain ⟨same, -⟩ := Prod.mk.inj scanned
      rw [← Lexeme.symbol.inj same]
      exact scanSymbol_ne_nil c v

namespace Reader

/-- The reader behind some requests, one after the other. -/
def behindAll (requests : List Request) (r : Reader) : Reader :=
  requests.foldl (fun r request => request.behind r) r

/-- The number of characters of a source in front of the place where a reader stands. -/
def cursor (source : Text) (r : Reader) : Nat := source.length - r.rest.length

/-- A reader stands in a source, at its end if it holds the end of the source. A lexeme that it
holds is scanned in the source, and the reader is not in front of the text behind that lexeme. -/
structure StandsIn (source : Text) (r : Reader) : Prop where
  further : Further (.ofSource source) r
  sound : Sound r
  passed : ∀ x, r.held = some x → ∃ u, x.Precedes source u ∧ r.rest <:+ u

variable {source : Text} {r s : Reader}

/-! ## One request -/

/-- **No request takes a reader back.** -/
theorem further_behind (request : Request) (r : Reader) : Further r (request.behind r) := by
  cases request with
  | block =>
    have lastLine : r.seekBlock.2.lastLine = r.lastLine := by
      unfold seekBlock
      split <;> rfl
    exact ⟨lastLine, r.seekBlock_rest_suffix⟩
  | lexeme => exact (Reading.alongSteps_further true).next r
  | lookahead => exact (Reading.alongSteps_further true).peek r
  | declaration => exact ⟨rfl, r.declaration_rest_suffix⟩
  | prose => exact (Reading.alongSteps_further true).freeText rfl r

/-- A declaration is read with the lexeme that is held left alone, so nothing is left behind the end
of the source either. -/
theorem Sound.declaration (sound : Sound r) : Sound r.declaration.2 := by
  intro ended
  have nothing := r.declaration_rest_suffix
  rwa [sound ended, List.suffix_nil] at nothing

theorem Sound.behind (sound : Sound r) (request : Request) : Sound (request.behind r) := by
  cases request with
  | block => exact sound_of_unheld r.seekBlock_held
  | lexeme => exact sound_of_unheld r.next_held
  | lookahead => exact sound.peek
  | declaration => exact sound.declaration
  | prose => exact sound.stopped_freeText.sound

/-- A lexeme that is held after a request has been held before it, or it is scanned in what was to
be read, right in front of the reader. -/
theorem held_behind_cases {x : Lexeme} (request : Request)
    (held : (request.behind r).held = some x) :
    r.held = some x ∨ x.Precedes r.rest (request.behind r).rest := by
  cases request with
  | block => exact nomatch r.seekBlock_held.symm.trans held
  | lexeme => exact nomatch r.next_held.symm.trans held
  | lookahead =>
    obtain ⟨lastLine, rest, before⟩ := r
    cases before with
    | none =>
      obtain rfl := Option.some.inj held
      exact Or.inr ⟨rest, List.suffix_rfl, rfl⟩
    | some y => exact Or.inl held
  | declaration => exact Or.inl held
  | prose =>
    -- There is no prose and the reader is left alone, or what has stopped a passage is held.
    rcases freeText_cases (r := r) (s := r) rfl rfl with
      ⟨prose, same, -⟩ | ⟨lineStart, before, same, -⟩
    · rw [Request.behind, same] at held
      exact Or.inl held
    · rw [Request.behind, same] at held ⊢
      obtain rfl := Option.some.inj held
      exact Or.inr (Passage.stop_precedes lineStart r.rest)

/-- **No request takes a reader out of its source**, nor in front of what it holds. -/
theorem StandsIn.behind (stands : StandsIn source r) (request : Request) :
    StandsIn source (request.behind r) where
  further := stands.further.trans (further_behind request r)
  sound := stands.sound.behind request
  passed := by
    intro x held
    rcases held_behind_cases request held with before | precedes
    · -- A declaration leaves the lexeme held and goes on, so others may stand in between.
      obtain ⟨u, precedes, inside⟩ := stands.passed x before
      exact ⟨u, precedes, (further_behind request r).2.trans inside⟩
    · exact ⟨_, precedes.of_suffix stands.further.2, List.suffix_rfl⟩

/-! ## All requests -/

/-- **Behind some requests a reader stands in its source**, in whatever order they come. -/
theorem StandsIn.behindAll (stands : StandsIn source r) (requests : List Request) :
    StandsIn source (behindAll requests r) := by
  induction requests generalizing r with
  | nil => exact stands
  | cons request requests ih => exact ih (stands.behind request)

theorem standsIn_ofSource (source : Text) : StandsIn source (.ofSource source) where
  further := ⟨rfl, List.suffix_rfl⟩
  sound := sound_of_unheld rfl
  passed := by
    intro x held
    cases held

/-! ## What the cursor tells -/

/-- What the cursor tells of a reader: what it has still to read and the line that it stands in.
What it holds, if it holds anything, is a word or a sign of the source in front of the cursor, or
the end of the source, and then the cursor is at the end. -/
structure Placed (source : Text) (r : Reader) : Prop where
  bounded : r.cursor source ≤ source.length
  rest : r.rest = source.drop (r.cursor source)
  line : r.line = 1 + (source.take (r.cursor source)).count '\n'
  held : r.held = none ∨
    (∃ word, r.held = some (.identifier word) ∧ IsWord word ∧
      word <:+: source.take (r.cursor source)) ∨
    (∃ sign, r.held = some (.symbol sign) ∧ sign ≠ [] ∧
      sign <:+: source.take (r.cursor source)) ∨
    r.held = some .endOfSource ∧ r.cursor source = source.length

theorem drop_cursor (inside : r.rest <:+ source) : source.drop (r.cursor source) = r.rest :=
  (List.suffix_iff_eq_drop.1 inside).symm

theorem cursor_le_cursor (way : s.rest <:+ r.rest) : r.cursor source ≤ s.cursor source :=
  Nat.sub_le_sub_left way.length_le _

/-- A lexeme that a reader has passed stands in front of the cursor. -/
theorem text_infix_take_cursor {x : Lexeme} {u : Text} (precedes : x.Precedes source u)
    (behind : r.rest <:+ u) : x.text <:+: source.take (r.cursor source) := by
  obtain ⟨front, whole⟩ := precedes.append_suffix
  obtain ⟨between, rfl⟩ := behind
  have parts : source = (front ++ x.text ++ between) ++ r.rest := by simp [← whole]
  have here : r.cursor source = (front ++ x.text ++ between).length := by
    rw [cursor, parts, List.length_append, Nat.add_sub_cancel]
  rw [here, parts, List.take_left]
  exact ⟨front, between, rfl⟩

theorem StandsIn.placed (stands : StandsIn source r) : Placed source r where
  bounded := Nat.sub_le _ _
  rest := (drop_cursor stands.further.2).symm
  line := by
    have whole : source.take (r.cursor source) ++ r.rest = source := by
      rw [← drop_cursor stands.further.2]
      exact List.take_append_drop _ _
    exact line_of_further stands.further whole
  held := by
    cases held : r.held with
    | none => exact Or.inl rfl
    | some x =>
      obtain ⟨u, precedes, behind⟩ := stands.passed x held
      have inside := text_infix_take_cursor precedes behind
      obtain ⟨t, -, scanned⟩ := precedes
      cases x with
      | identifier word => exact Or.inr (Or.inl ⟨word, rfl, ⟨t, u, scanned⟩, inside⟩)
      | symbol sign => exact Or.inr (Or.inr (Or.inl ⟨sign, rfl, sign_ne_nil scanned, inside⟩))
      | endOfSource =>
        have nothing := stands.sound held
        refine Or.inr (Or.inr (Or.inr ⟨rfl, ?_⟩))
        rw [cursor, nothing]
        rfl

/-- **What a reader keeps.** However a reader is asked for blocks, lexemes, declarations and prose,
and to look ahead, it stands in its source: it has not gone back, and its line is counted by the
line feeds that it has passed. It holds nothing, or a word or a sign that it has passed, or the end
of the source, and then it stands at the end. Prose leaves it with the end of the source, the end of
the block, or the word of a label in front of its colon. -/
theorem placed_behindAll (source : Text) (requests : List Request) (request : Request) :
    let r := behindAll requests (.ofSource source)
    let s := behindAll (requests ++ [request]) (.ofSource source)
    r.cursor source ≤ s.cursor source ∧ Placed source s ∧
      (request = .prose →
        s.held = some .endOfSource ∨ s.held = some .closing ∨
          ∃ word t, s.held = some (.identifier word) ∧ s.rest = ':' :: t ∧ t.head? ≠ some ':') := by
  intro r s
  have stands : StandsIn source r := (standsIn_ofSource source).behindAll requests
  have last : s = request.behind r := by simp [s, r, behindAll]
  rw [last]
  refine ⟨cursor_le_cursor (further_behind request r).2, (stands.behind request).placed, ?_⟩
  rintro rfl
  have stopped : Stopped r.freeText.2 := stands.sound.stopped_freeText
  cases stopped with
  | closing held => exact Or.inr (Or.inl held)
  | ended held _ => exact Or.inl held
  | label held rest colon =>
    rw [rest] at colon
    exact Or.inr (Or.inr ⟨_, _, held, rest, startsWithLoneColon_iff.1 colon⟩)

end Reader

end Docblock
