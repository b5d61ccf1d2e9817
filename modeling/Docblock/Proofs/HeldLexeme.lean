import Docblock.Proofs.Missing

/-!
# The lexeme that is held

A reader that holds a lexeme stands right behind it. This is so when the reader has looked ahead,
and also where prose has stopped, since a label or the end of a block that stops prose is what would
be scanned in its place. So what is taken for the keyword of an attribute is an identifier of the
source, and a block that is closed is read to the place right behind a star and a slash.

## Main definitions

* `Lexeme.IsWord`: a text is an identifier that is scanned somewhere
* `Reader.Attached`: a reader stands right behind the lexeme that it holds
* `Block.ClosedAt`: the end of a block is taken, and the reader is behind it

## Main results

* `alongSteps_attached`: no step takes a reader away from the lexeme that it holds
* `of_mem_labelledAll`: the keyword of a labelled attribute is an identifier
* `closedAt_iff`, `closingMark_append_suffix`: which blocks are closed, and where
* `held_read`: a block that has been read leaves no lexeme held
-/

namespace Docblock

open Lexeme Reader Reading

/-! ## Identifiers -/

namespace Lexeme

/-- A text is an identifier that is scanned somewhere. -/
def IsWord (word : Text) : Prop := ∃ t rest, scan t = (.identifier word, rest)

theorem isWord_of_nth {n : Nat} {t word : Text} (named : nth n t = .identifier word) :
    IsWord word := ⟨behind n t, (scan (behind n t)).2, Prod.ext named rfl⟩

theorem head?_scanIdentifier (c : Char) (t : Text) :
    (scanIdentifier c t).1.head? = some c := by
  unfold scanIdentifier extendOperator
  split <;> rfl

/-- **An identifier starts like one**, so it is not empty and no mark stands in front of it. -/
theorem IsWord.exists_head? {word : Text} (isWord : IsWord word) :
    ∃ c, word.head? = some c ∧ startsIdentifier c = true := by
  obtain ⟨t, rest, scanned⟩ := isWord
  rw [scan] at scanned
  cases skipped : skipMargin false t with
  | nil =>
    rw [skipped] at scanned
    cases scanned
  | cons c u =>
    rw [skipped, scanHere] at scanned
    split at scanned
    · rename_i starts
      obtain rfl := Lexeme.identifier.inj (Prod.mk.inj scanned).1
      exact ⟨c, head?_scanIdentifier c u, starts⟩
    · cases scanned

theorem IsWord.ne_nil {word : Text} (isWord : IsWord word) : word ≠ [] := by
  obtain ⟨c, first, -⟩ := isWord.exists_head?
  rintro rfl
  cases first

/-- No identifier starts with a star, as the keywords do that are given to what has no label. -/
theorem IsWord.head?_ne_star {word : Text} (isWord : IsWord word) : word.head? ≠ some '*' := by
  obtain ⟨c, first, starts⟩ := isWord.exists_head?
  rw [first]
  intro star
  obtain rfl := Option.some.inj star
  exact absurd starts (by decide)

end Lexeme

/-- **A label is what would be scanned in its place.** -/
theorem scan_of_label?_eq {t word rest : Text} (isLabel : label? t = some (word, rest)) :
    scan t = (.identifier word, rest) := by
  have whole := append_of_label?_eq isLabel
  obtain ⟨v, colon⟩ := exists_of_startsWithLoneColon (startsWithLoneColon_of_label?_eq isLabel)
  cases t with
  | nil => cases isLabel
  | cons c t =>
    rw [label?] at isLabel
    split at isLabel
    · rename_i starts
      obtain ⟨named, -⟩ := Prod.mk.inj (Option.some.inj isLabel)
      -- A colon ends an identifier, also where it is the word that may take an operator along.
      let w : Identifier := ⟨c, t.takeWhile continuesIdentifier, (Bool.and_eq_true_iff.1 starts).1,
        List.all_takeWhile⟩
      obtain rfl : w.text = word := named
      have ends : w.EndsBefore rest := by
        rw [colon]
        exact w.endsBefore_cons v (by decide)
      rw [← whole]
      exact scan_identifier w ends
    · cases isLabel

/-- **What stops a passage is what would be scanned in its place.** -/
theorem Passage.stop_precedes (lineStart : Bool) (t : Text) :
    (scan lineStart t).stop.Precedes t (scan lineStart t).rest := by
  -- A character that goes into the passage, or that is left out, stands in front of the place.
  have step {c : Char} {t : Text} {stop : Lexeme} {rest : Text} (further : stop.Precedes t rest) :
      stop.Precedes (c :: t) rest := further.of_suffix (List.suffix_cons c t)
  fun_induction scan lineStart t with
  | case1 => exact ⟨[], List.suffix_rfl, rfl⟩
  | case2 _ c t isClosing =>
    obtain ⟨v, whole⟩ := List.isPrefixOf_iff_prefix.1 isClosing
    refine ⟨c :: t, List.suffix_rfl, ?_⟩
    obtain ⟨rfl, rfl⟩ := List.cons.inj whole
    exact scan_closing v
  | case3 c t _ _ ih => exact step ih
  | case4 c t _ _ _ ih => exact step ih
  | case5 c t _ _ _ word rest isLabel =>
    exact ⟨c :: t, List.suffix_rfl, scan_of_label?_eq isLabel⟩
  | case6 c t _ _ _ _ ih => exact step ih
  | case7 _ c t _ _ ih => exact step ih

/-! ## Readers and what they hold -/

namespace Reader

/-- A reader stands in a text, right behind the lexeme that it holds. -/
structure Attached (source : Text) (r : Reader) : Prop where
  inside : r.rest <:+ source
  precedes : ∀ x, r.held = some x → x.Precedes source r.rest

variable {source : Text} {r : Reader}

theorem attached_of_unheld (unheld : r.held = none) (inside : r.rest <:+ source) :
    Attached source r := by
  refine ⟨inside, ?_⟩
  intro x held
  rw [unheld] at held
  cases held

theorem Attached.next (attached : Attached source r) : Attached source r.next.2 :=
  attached_of_unheld r.next_held (r.next_rest_suffix.trans attached.inside)

theorem Attached.peek (attached : Attached source r) : Attached source r.peek.2 := by
  obtain ⟨lastLine, rest, held⟩ := r
  cases held with
  | none =>
    refine ⟨(Lexeme.scan_rest_suffix rest).trans attached.inside, ?_⟩
    intro x isHeld
    obtain rfl := Option.some.inj isHeld
    exact ⟨rest, attached.inside, rfl⟩
  | some x => exact attached

theorem Attached.readPassage (attached : Attached source r) (lineStart : Bool) (before : Text) :
    Attached source (r.readPassage lineStart before).2 := by
  refine ⟨(r.readPassage_rest_suffix lineStart before).trans attached.inside, ?_⟩
  intro x held
  obtain rfl := Option.some.inj held
  exact (Passage.stop_precedes lineStart r.rest).of_suffix attached.inside

theorem Attached.freeText (attached : Attached source r) : Attached source r.freeText.2 := by
  unfold Reader.freeText
  split
  · exact attached.readPassage _ _
  · exact attached
  · split
    · exact attached
    · split
      · exact attached.readPassage _ _
      · exact attached.readPassage _ _
  · -- A label that is held is left, any other word starts the prose.
    split
    · exact attached
    · exact attached.readPassage _ _

end Reader

/-- **No step takes a reader away from the lexeme that it holds.** -/
theorem Reading.alongSteps_attached (prose : Bool) (source : Text) :
    AlongSteps prose fun r s => r.Attached source → s.Attached source where
  refl _ attached := attached
  trans first second attached := second (first attached)
  next _ attached := attached.next
  peek _ attached := attached.peek
  freeText _ _ attached := attached.freeText

namespace Block

variable {r s : Reader}

/-! ## Labelled attributes -/

/-- What is read at a label has its word for a keyword, and a value that is trimmed. -/
theorem of_labelled?_eq_some {a : Attribute} (read : labelled? r = .ok (some a) s) :
    r.peek.1 = .identifier a.keyword ∧ ∃ t, a.value = Text.trim t := by
  rw [labelled?, look_bind] at read
  cases shown : r.peek.1 with
  | symbol sign => simp [shown] at read
  | endOfSource => simp [shown] at read
  | identifier keyword =>
    simp only [shown, discard_take_bind, look_bind] at read
    split at read
    · simp only [discard_take_bind, prose_bind, pure_apply, EStateM.Result.ok.injEq] at read
      obtain ⟨same, -⟩ := read
      obtain rfl := Option.some.inj same
      exact ⟨rfl, _, rfl⟩
    · simp at read

theorem isWord_of_peek {source word : Text} (attached : r.Attached source)
    (shown : r.peek.1 = .identifier word) : IsWord word := by
  obtain ⟨t, -, scanned⟩ := attached.peek.precedes r.peek.1 r.peek_held
  rw [shown] at scanned
  exact ⟨t, _, scanned⟩

/-- **The keyword of a labelled attribute is an identifier**, and its value is trimmed. -/
theorem of_mem_labelledAll {source : Text} {a : Attribute} (attached : r.Attached source)
    (inside : a ∈ (labelledAll r).1) : IsWord a.keyword ∧ ∃ t, a.value = Text.trim t := by
  -- The induction follows the labels; the reader in front of the next one is attached as well.
  fun_induction labelledAll r with
  | case1 r b r' read others ih =>
    rcases List.mem_cons.1 inside with rfl | later
    · obtain ⟨shown, value⟩ := of_labelled?_eq_some read
      exact ⟨isWord_of_peek attached shown, value⟩
    · have step := composed_labelled?.reached_of_steps (alongSteps_attached true source) r
      rw [read] at step
      exact ih (step attached) later
  | case2 r r' read => cases inside
  | case3 r fault r' read => cases inside

/-! ## The end of a block -/

/-- The block behind an opening is closed: its end is taken, and the reader is behind it then. -/
def ClosedAt (r s : Reader) : Prop :=
  ∃ said t fault, readHeader r = .ok said t ∧
    finish (labelledAll t.freeText.2).2 = (fault, true, s)

/-- Behind the prose of a block the reader stands right behind the lexeme that it holds. -/
theorem attached_freeText {said : Header × LinkMark} (unheld : r.held = none)
    (header : readHeader r = .ok said s) : s.freeText.2.Attached r.rest := by
  have along := composed_readHeader.reached_of_steps (alongSteps_attached false r.rest) r
  rw [header] at along
  exact (along (attached_of_unheld unheld List.suffix_rfl)).freeText

/-- **A closed block is read to the place right behind its end.** -/
theorem closingMark_append_suffix (unheld : r.held = none) (closed : ClosedAt r s) :
    s.held = none ∧ closingMark ++ s.rest <:+ r.rest := by
  obtain ⟨said, t, fault, header, finished⟩ := closed
  obtain ⟨u, labelled, done⟩ := exists_done_of_stopped (stopped_of_readHeader unheld header)
  have attached := reached_labelledAll (alongSteps_attached true r.rest) _
    (attached_freeText unheld header)
  rw [labelled] at finished attached
  cases done with
  | closing held =>
    -- The end that has been held is the one that has been scanned right in front of the reader.
    rw [finish_of_closing held] at finished
    obtain ⟨-, -, rfl⟩ := finished
    exact ⟨rfl, (attached.precedes .closing held).append_suffix⟩
  | ended held nothing =>
    rw [finish_of_ended held nothing] at finished
    cases finished

/-- **A block has a declaration exactly if it is closed**, and then it is read to its end. -/
theorem closedAt_iff {e : Entry} (isEntry : read r = (entry e, s)) (t : Reader) :
    ClosedAt r t ↔ e.declaration.isSome = true ∧ t = s := by
  cases header : readHeader r with
  | error fault u =>
    rw [read, header] at isEntry
    cases isEntry
  | ok said u =>
    obtain ⟨mark, link⟩ := said
    rw [read_of_readHeader_eq header] at isEntry
    obtain ⟨same, rfl⟩ := Prod.mk.inj isEntry
    rw [← Block.entry.inj same]
    have declared : (readBody r.line mark link u).1.declaration.isSome =
        (finish (labelledAll u.freeText.2).2).2.1 := by
      rw [readBody]
      cases (finish (labelledAll u.freeText.2).2).2.1 <;> rfl
    rw [declared]
    constructor
    · rintro ⟨said, v, fault, read, finished⟩
      rw [header] at read
      obtain ⟨-, rfl⟩ := EStateM.Result.ok.inj read
      rw [readBody, finished]
      exact ⟨rfl, rfl⟩
    · rintro ⟨found, rfl⟩
      refine ⟨_, u, (finish (labelledAll u.freeText.2).2).1, header, ?_⟩
      rw [← found]
      rfl

/-- **A block that has been read leaves no lexeme held.** -/
theorem held_read (unheld : r.held = none) : (read r).2.held = none := by
  rcases readHeader_cases unheld with
    ⟨header, link, i, m, succeeded, -, -⟩ | ⟨expected, m, failed, -⟩
  · obtain ⟨t, labelled, done⟩ := exists_done_of_stopped (stopped_of_readHeader unheld succeeded)
    cases done with
    | closing held =>
      rw [read_of_closing succeeded labelled held]
      exact t.next_held
    | ended held nothing =>
      rw [read_of_ended succeeded labelled held nothing]
      exact t.next_held
  · rw [read, failed]
    rfl

end Block

end Docblock
