import Docblock.Proofs.Closing

/-!
# How a block is read to its end

Behind the header of a block there is prose, and behind the prose the reader holds what has stopped
it: a label, the end of the block, or the end of the source. So the labels are read without a fault,
whatever the text, and the only thing that a block with a header can lack is its end.

## Main definitions

* `Reader.Sound`: where the end of the source is held, nothing is left
* `Reader.Stopped`: a reader that holds what has stopped prose
* `Reader.Done`: a reader behind the last label

## Main results

* `Reader.Sound.stopped_freeText`: prose leaves a reader that holds what has stopped it
* `exists_done_of_stopped`: the labels are read without a fault
* `read_of_closing`, `read_of_ended`: a block with an end and one without
-/

namespace Docblock

open Lexeme Reading

namespace Reader

/-- Where the end of the source is held, nothing is left. -/
def Sound (r : Reader) : Prop := r.held = some .endOfSource → r.rest = []

/-- A reader holds what has stopped prose. -/
inductive Stopped (r : Reader) : Prop
  /-- The end of the block. -/
  | closing (held : r.held = some .closing)
  /-- The end of the source. -/
  | ended (held : r.held = some .endOfSource) (nothing : r.rest = [])
  /-- A label, in front of its colon. -/
  | label {word v : Text} (held : r.held = some (.identifier word)) (rest : r.rest = ':' :: v)
      (colon : startsWithLoneColon r.rest = true)

/-- A reader holds what stands behind the last label. -/
inductive Done (r : Reader) : Prop
  /-- The end of the block. -/
  | closing (held : r.held = some .closing)
  /-- The end of the source. -/
  | ended (held : r.held = some .endOfSource) (nothing : r.rest = [])

variable {r : Reader}

theorem sound_of_unheld (held : r.held = none) : Sound r := by
  intro ended
  rw [held] at ended
  exact nomatch ended

theorem stopped_label {word : Text} (held : r.held = some (.identifier word))
    (colon : startsWithLoneColon r.rest = true) : Stopped r := by
  obtain ⟨v, rest⟩ := exists_of_startsWithLoneColon colon
  exact .label held rest colon

end Reader

/-- **A passage stops at a label, with the end of the block or with the end of the source.** -/
theorem Passage.stop_cases_of_all (lineStart : Bool) (t : Text) :
    (scan lineStart t).stop = .closing ∨
      (scan lineStart t).stop = .endOfSource ∧ (scan lineStart t).rest = [] ∨
      ∃ word, (scan lineStart t).stop = .identifier word ∧
        startsWithLoneColon (scan lineStart t).rest = true := by
  fun_induction scan lineStart t with
  | case1 => exact Or.inr (Or.inl ⟨rfl, rfl⟩)
  | case2 => exact Or.inl rfl
  | case3 c t _ _ ih => exact ih
  | case4 c t _ _ _ ih => exact ih
  | case5 c t _ _ _ word rest isLabel =>
    exact Or.inr (Or.inr ⟨word, rfl, startsWithLoneColon_of_label?_eq isLabel⟩)
  | case6 c t _ _ _ _ ih => exact ih
  | case7 _ c t _ _ ih => exact ih

namespace Reader

variable {r : Reader}

theorem stopped_readPassage (r : Reader) (lineStart : Bool) (before : Text) :
    Stopped (r.readPassage lineStart before).2 := by
  rcases Passage.stop_cases_of_all lineStart r.rest with stop | ⟨stop, rest⟩ | ⟨word, stop, colon⟩
  · exact .closing (congrArg some stop)
  · exact .ended (congrArg some stop) rest
  · exact stopped_label (congrArg some stop) colon

/-- **Prose leaves a reader that holds what has stopped it.** -/
theorem Sound.stopped_freeText (sound : Sound r) : Stopped r.freeText.2 := by
  unfold freeText
  split
  · exact r.stopped_readPassage _ _
  · rename_i held
    exact .ended held (sound held)
  · rename_i sign held
    split
    · rename_i isClosing
      exact .closing (held.trans (congrArg some isClosing))
    · split
      · exact r.stopped_readPassage _ _
      · exact r.stopped_readPassage _ _
  · rename_i word held
    split
    · rename_i colon
      exact stopped_label held colon
    · exact r.stopped_readPassage _ _

theorem Stopped.sound (stopped : Stopped r) : Sound r := by
  intro isHeld
  cases stopped with
  | closing held =>
    rw [held] at isHeld
    exact nomatch isHeld
  | ended _ nothing => exact nothing
  | label held _ _ =>
    rw [held] at isHeld
    exact nomatch isHeld

theorem Done.stopped (done : Done r) : Stopped r := by
  cases done with
  | closing held => exact .closing held
  | ended held nothing => exact .ended held nothing

theorem Sound.peek (sound : Sound r) : Sound r.peek.2 := by
  obtain ⟨lastLine, rest, held⟩ := r
  cases held with
  | none => exact fun ended => scan_rest_of_eq_endOfSource (Option.some.inj ended)
  | some x => exact sound

end Reader

/-- **No step leaves a reader that holds the end of the source with something left.** -/
theorem Reading.alongSteps_sound (prose : Bool) :
    AlongSteps prose fun r s => r.Sound → s.Sound where
  refl _ sound := sound
  trans first second sound := second (first sound)
  next r _ := Reader.sound_of_unheld r.next_held
  peek _ sound := sound.peek
  freeText _ _ sound := sound.stopped_freeText.sound

namespace Block

variable {r : Reader}

/-! ## The labels -/

/-- Behind a label the reader takes its colon. -/
theorem next_next_of_label {word v : Text} (held : r.held = some (.identifier word))
    (rest : r.rest = ':' :: v) (colon : startsWithLoneColon r.rest = true) :
    r.next.2.next = (.colon, ⟨r.lastLine, v, none⟩) := by
  rw [rest] at colon
  rw [next_of_held held]
  simp only [Reader.next, rest, scan_of_startsWithLoneColon colon]

/-- A label adds its attribute, with the prose behind its colon, to those behind it. -/
theorem labelledAll_of_label_freeText {word v : Text} (held : r.held = some (.identifier word))
    (rest : r.rest = ':' :: v) (colon : startsWithLoneColon r.rest = true) :
    labelledAll r =
      let prose := Reader.freeText ⟨r.lastLine, v, none⟩
      (⟨word, prose.1.get.trim⟩ :: (labelledAll prose.2).1, (labelledAll prose.2).2) :=
  labelledAll_of_label held rest colon

theorem labelledAll_of_ended (held : r.held = some .endOfSource) :
    labelledAll r = ([], .ok () r) := by
  have stopped : labelled? r = .ok none r := by
    rw [labelled?, look_bind, peek_of_held held]
    rfl
  rw [labelledAll]
  -- Of the three results of reading a label, the second one has been given.
  split
  · rename_i same
    rw [stopped] at same
    cases same
  · rename_i same
    rw [stopped] at same
    obtain ⟨-, rfl⟩ := EStateM.Result.ok.inj same
    rfl
  · rename_i same
    rw [stopped] at same
    cases same

/-- **The labels behind prose are read without a fault.** -/
theorem exists_done_of_stopped (stopped : r.Stopped) :
    ∃ q, (labelledAll r).2 = .ok () q ∧ q.Done := by
  -- The induction follows the labels: behind each one there is prose.
  induction length : r.rest.length using Nat.strong_induction_on generalizing r with
  | _ n ih =>
    cases stopped with
    | closing held =>
      rw [labelledAll_of_closing held]
      exact ⟨r, rfl, .closing held⟩
    | ended held nothing =>
      rw [labelledAll_of_ended held]
      exact ⟨r, rfl, .ended held nothing⟩
    | @label word v held rest colon =>
      have shorter : (Passage.scan true v).rest.length < n := by
        have short := (Passage.scan_rest_suffix true v).length_le
        rw [← length, rest, List.length_cons]
        omega
      have stopped := Reader.stopped_readPassage ⟨r.lastLine, v, none⟩ true []
      rw [labelledAll_of_label held rest colon]
      exact ih _ shorter stopped rfl

/-! ## The end -/

/-- **A block without an end** is read to the end of the source, and the end is missing there. -/
theorem finish_of_ended (held : r.held = some .endOfSource) (nothing : r.rest = []) :
    finish (.ok () r) =
      (some ⟨r.next.2.line, .endSymbol, .endOfSource⟩, false, r.next.2) := by
  have missing : readEnd r = .error ⟨r.next.2.line, .endSymbol, .endOfSource⟩ r.next.2 := by
    rw [readEnd, take_bind, next_of_held held]
    rfl
  have nothingLeft : r.next.2.next = (.endOfSource, r.next.2) := by
    rw [next_of_held held, nothing]
    rfl
  rw [finish, missing]
  simp only
  rw [skipToEnd, nothingLeft]
  rfl

/-- What the block behind `r` says up to its end, where its header leaves the reader `s`. -/
def saidBehind (r s : Reader) (header : Header) (link : LinkMark) : Entry where
  line := r.line
  header
  link
  description := s.freeText.1.get.trim
  labelled := (labelledAll s.freeText.2).1
  fault := none
  declaration := none

section Ends

variable {s t : Reader} {header : Header} {link : LinkMark}
  (succeeded : readHeader r = .ok (header, link) s)
  (labelled : (labelledAll s.freeText.2).2 = .ok () t)

include succeeded labelled

theorem read_of_closing (held : t.held = some .closing) :
    read r = (entry
      { saidBehind r s header link with declaration := some (declarationHere t.next.2) },
        t.next.2) := by
  rw [read_of_readHeader_eq succeeded, readBody, labelled, finish_of_closing held,
    next_of_held held]
  rfl

theorem read_of_ended (held : t.held = some .endOfSource) (nothing : t.rest = []) :
    read r = (entry
      { saidBehind r s header link with fault := some ⟨t.next.2.line, .endSymbol, .endOfSource⟩ },
        t.next.2) := by
  rw [read_of_readHeader_eq succeeded, readBody, labelled, finish_of_ended held nothing]
  rfl

end Ends

/-- Behind a header prose leaves a reader that holds what has stopped it. -/
theorem stopped_of_readHeader {s : Reader} {said : Header × LinkMark} (unheld : r.held = none)
    (succeeded : readHeader r = .ok said s) : s.freeText.2.Stopped := by
  have kept := composed_readHeader.reached_of_steps (alongSteps_sound false) r
  rw [succeeded] at kept
  exact (kept (Reader.sound_of_unheld unheld)).stopped_freeText

end Block

end Docblock
