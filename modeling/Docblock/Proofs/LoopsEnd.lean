import Docblock.Proofs.Rounds
import Docblock.Proofs.Walk

/-!
# Reading ends

A source is read by loops within loops: blocks are looked for, the labels of a block are read,
lexemes are taken up to the end of a block, and prose is read character by character. A lexeme may
be taken that has been held, and what stops prose is held again, so a round need not take a
character. But a block takes the three characters of its opening, a label takes its colon, and of
two lexemes one at most is held. So every loop ends, however malformed the source is.

## Main definitions

* `Reader.mostLexemes`: how many lexemes a reader can take at most
* `Block.labelRound`, `Block.skipRound`, `Document.blockRound`: one round of the loops for labels,
  for what stands in front of the end of a block, and for blocks
* `Walk.followedBy`: a walk that goes on

## Main results

* `mostLexemes_next_lt`: a lexeme is taken from what is held, or it takes a character
* `exists_endsAfter_labelledAll`, `exists_endsAfter_skipToEnd`: the loops within a block end
* `endsAfter_walk`: the loop for blocks ends after one round for each block, and one more
* `loops_end`: every loop ends
-/

namespace Docblock

open Reader Reading

namespace Reader

variable {r : Reader}

/-- How many lexemes a reader can take at most: one for each character, and the one it holds. -/
def mostLexemes (r : Reader) : Nat := r.rest.length + if r.held.isSome then 1 else 0

/-- **A lexeme is taken from what is held, or it takes a character.** -/
theorem next_cases (found : r.next.1 ≠ .endOfSource) :
    r.held.isSome = true ∧ r.next.2 = { r with held := none } ∨
      r.held = none ∧ r.next.2.rest.length < r.rest.length := by
  cases held : r.held with
  | none => exact Or.inr ⟨rfl, length_next_rest_lt held found⟩
  | some x => exact Or.inl ⟨rfl, by rw [next, held]⟩

theorem mostLexemes_next_lt (found : r.next.1 ≠ .endOfSource) :
    r.next.2.mostLexemes < r.mostLexemes := by
  rw [mostLexemes, mostLexemes, next_held]
  rcases next_cases found with ⟨held, taken⟩ | ⟨held, less⟩
  · rw [taken, held]
    exact Nat.lt_succ_self _
  · rw [held]
    exact less

end Reader

namespace Block

/-! ## The loops within a block -/

/-- One round of the loop that reads labels, with the attributes that have been read. -/
def labelRound (s : List Attribute × Reader) :
    (List Attribute × Reader) ⊕ (List Attribute × EStateM.Result Diagnostic Reader Unit) :=
  match labelled? s.2 with
  | .ok (some a) r => .inl (s.1 ++ [a], r)
  | .ok none r => .inr (s.1, .ok () r)
  | .error fault r => .inr (s.1, .error fault r)

/-- One round of the loop that goes behind the end of a block. -/
def skipRound (r : Reader) : Reader ⊕ (Bool × Reader) :=
  if r.next.1 = .endOfSource then .inr (false, r.next.2)
  else if r.next.1 = .closing then .inr (true, r.next.2)
  else .inl r.next.2

variable {r s : Reader}

/-- **A labelled attribute leaves the reader further on.** -/
theorem further_of_labelled? {a : Attribute} (read : labelled? r = .ok (some a) s) :
    Further r s ∧ s.rest.length < r.rest.length := by
  have along := composed_labelled?.reached_of_steps (alongSteps_further true) r
  rw [read] at along
  exact ⟨along, length_labelled_lt read⟩

/-- What reading a label gives tells what the loop reads. -/
theorem labelledAll_cases (r : Reader) :
    (∃ a s, labelled? r = .ok (some a) s ∧
      labelledAll r = (a :: (labelledAll s).1, (labelledAll s).2)) ∨
    (∃ s, labelled? r = .ok none s ∧ labelledAll r = ([], .ok () s)) ∨
    ∃ fault s, labelled? r = .error fault s ∧ labelledAll r = ([], .error fault s) := by
  fun_cases labelledAll r with
  | case1 a s read => exact Or.inl ⟨a, s, read, rfl⟩
  | case2 s read => exact Or.inr (Or.inl ⟨s, read, rfl⟩)
  | case3 fault s read => exact Or.inr (Or.inr ⟨fault, s, read, rfl⟩)

/-- **The loop for labels ends** with the attributes that are read. -/
theorem exists_endsAfter_labelledAll (before : List Attribute) (r : Reader) :
    ∃ n ≤ r.rest.length + 1,
      EndsAfter labelRound n (before, r) (before ++ (labelledAll r).1, (labelledAll r).2) := by
  refine exists_endsAfter (s := (before, r)) (fun _ => True) (fun s => s.2.rest.length)
    (fun s => (s.1 ++ (labelledAll s.2).1, (labelledAll s.2).2)) ?_ ?_ trivial
  · rintro ⟨before, r⟩ s' - goes
    rw [labelRound] at goes
    rcases labelledAll_cases r with
      ⟨a, s, read, same⟩ | ⟨s, read, same⟩ | ⟨fault, s, read, same⟩
    · simp only [read] at goes
      obtain rfl := Sum.inl.inj goes
      refine ⟨trivial, length_labelled_lt read, ?_⟩
      simp [same]
    · simp [read] at goes
    · simp [read] at goes
  · rintro ⟨before, r⟩ x - ends
    rw [labelRound] at ends
    rcases labelledAll_cases r with
      ⟨a, s, read, same⟩ | ⟨s, read, same⟩ | ⟨fault, s, read, same⟩
    · simp [read] at ends
    · simp only [read] at ends
      rw [← Sum.inr.inj ends, same, List.append_nil]
    · simp only [read] at ends
      rw [← Sum.inr.inj ends, same, List.append_nil]

/-- **The loop that goes behind the end of a block ends**, also where there is none. -/
theorem exists_endsAfter_skipToEnd (r : Reader) :
    ∃ n ≤ r.mostLexemes + 1, EndsAfter skipRound n r (skipToEnd r) := by
  refine exists_endsAfter (fun _ => True) mostLexemes skipToEnd ?_ ?_ trivial
  · intro r r' _ goes
    rw [skipRound] at goes
    split at goes
    · cases goes
    · rename_i found
      split at goes
      · cases goes
      · rename_i notClosing
        obtain rfl := Sum.inl.inj goes
        refine ⟨trivial, mostLexemes_next_lt found, ?_⟩
        conv_rhs => rw [skipToEnd, dif_neg found, if_neg notClosing]
  · intro r x _ ends
    rw [skipRound] at ends
    rw [skipToEnd]
    split at ends
    · rename_i ended
      rw [dif_pos ended, Sum.inr.inj ends]
    · rename_i found
      rw [dif_neg found]
      split at ends
      · rename_i isClosing
        rw [if_pos isClosing, Sum.inr.inj ends]
      · cases ends

end Block

/-! ## The loop for blocks -/

/-- A walk that goes on with another one. -/
def Walk.followedBy (w others : Walk) : Walk where
  document := others.document
  faults := w.faults ++ others.faults
  visits := w.visits ++ others.visits

namespace Document

/-- One round of the loop for blocks: a block is looked for, read and recorded. -/
def blockRound (s : Walk × Reader) : (Walk × Reader) ⊕ Walk :=
  let start := s.2.seekBlock.2
  let block := Block.read start
  let behind := s.1.document.visit block.1 block.2
  if s.2.seekBlock.1 = .endOfSource then .inr s.1
  else .inl (s.1.followedBy ⟨behind.1, block.1.faults, [⟨start, block.1.subject?⟩]⟩, behind.2)

variable {r : Reader} {w : Walk} {n : Nat}

/-- A block takes the three characters of its opening. -/
theorem length_visit_rest_lt (d : Document) (found : r.seekBlock.1 ≠ .endOfSource) :
    let block := Block.read r.seekBlock.2
    (d.visit block.1 block.2).2.rest.length + 3 ≤ r.rest.length := by
  intro block
  have taken := length_seekBlock_rest_lt found
  have behind := ((d.visit_rest_suffix block.1 block.2).trans
    (Block.read_rest_suffix r.seekBlock.2)).length_le
  omega

/-- **The loop for blocks ends** with the walk. -/
theorem exists_endsAfter_walkFrom (w : Walk) (r : Reader) :
    ∃ n ≤ r.rest.length / 3 + 1,
      EndsAfter blockRound n (w, r) (w.followedBy (w.document.walkFrom r)) := by
  refine exists_endsAfter (s := (w, r)) (fun _ => True) (fun s => s.2.rest.length / 3)
    (fun s => s.1.followedBy (s.1.document.walkFrom s.2)) ?_ ?_ trivial
  · rintro ⟨w, r⟩ s' - goes
    simp only [blockRound] at goes
    split at goes
    · cases goes
    · rename_i found
      obtain rfl := Sum.inl.inj goes
      have less := length_visit_rest_lt w.document found
      refine ⟨trivial, by simp only at less ⊢; omega, ?_⟩
      conv_rhs => rw [walkFrom, dif_neg found]
      simp [Walk.followedBy]
  · rintro ⟨w, r⟩ x - ends
    simp only [blockRound] at ends
    split at ends
    · rename_i ended
      rw [← Sum.inr.inj ends, walkFrom, dif_pos ended]
      simp [Walk.followedBy]
    · cases ends

/-- Each round but the last one meets a block. -/
theorem length_visits_of_endsAfter {s : Walk × Reader} (ends : EndsAfter blockRound n s w) :
    w.visits.length + 1 = s.1.visits.length + n := by
  induction ends with
  | @last s w given =>
    simp only [blockRound] at given
    split at given
    · rw [Sum.inr.inj given]
    · cases given
  | @next n s s' w goes _ ih =>
    simp only [blockRound] at goes
    split at goes
    · cases goes
    · obtain rfl := Sum.inl.inj goes
      rw [ih, Walk.followedBy, List.length_append, List.length_singleton]
      omega

/-- **A walk takes one round for each block that it meets**, and one more. There is at most one
block to three characters. -/
theorem endsAfter_walk (d : Document) (source : Text) :
    EndsAfter blockRound ((d.walk source).visits.length + 1) (⟨d, [], []⟩, .ofSource source)
        (d.walk source) ∧
      (d.walk source).visits.length ≤ source.length / 3 := by
  obtain ⟨n, few, ends⟩ := exists_endsAfter_walkFrom ⟨d, [], []⟩ (.ofSource source)
  have rounds := length_visits_of_endsAfter ends
  have whole : (⟨d, [], []⟩ : Walk).followedBy (d.walkFrom (.ofSource source)) = d.walk source :=
    rfl
  simp only [whole, List.length_nil, Nat.zero_add, ofSource_rest] at ends rounds few
  rw [rounds]
  exact ⟨ends, by omega⟩

end Document

/-! ## All loops -/

open Block Document

/-- **Every loop ends.** The walk through a source meets at most one block to three characters, and
takes one round for each. Wherever a reader stands, a labelled attribute leaves it further on, and a
lexeme that is not the end of the source is one that has been held, or it leaves the reader further
on. So the loop for labels and the one that goes behind the end of a block end. Prose is known at
once, or it is read by a loop in which each round takes a character or is the last one. -/
theorem loops_end (d : Document) (source : Text) :
    (EndsAfter blockRound ((d.walk source).visits.length + 1) (⟨d, [], []⟩, .ofSource source)
        (d.walk source) ∧
      (d.walk source).visits.length ≤ source.length / 3) ∧
    (∀ r : Reader,
      (∀ a s, labelled? r = .ok (some a) s → Further r s ∧ s.rest.length < r.rest.length) ∧
      (r.next.1 ≠ .endOfSource →
        r.held.isSome = true ∧ r.next.2 = { r with held := none } ∨
          Further r r.next.2 ∧ r.next.2.rest.length < r.rest.length) ∧
      (∃ n ≤ r.rest.length + 1, EndsAfter labelRound n ([], r) (labelledAll r)) ∧
      (∃ n ≤ r.mostLexemes + 1, EndsAfter skipRound n r (skipToEnd r)) ∧
      (∀ answer, r.proseStart = .inr answer → r.freeText = (answer, r)) ∧
      ∀ s, r.proseStart = .inl s →
        r.freeText = r.readUpTo s.passage ∧
          ∃ n ≤ r.rest.length + 1, EndsAfter ProseState.round n s s.passage) ∧
    ∀ s s' : ProseState, s.round = .inl s' →
      s'.rest <:+ s.rest ∧ s'.rest.length < s.rest.length := by
  refine ⟨endsAfter_walk d source,
    fun r => ⟨?label, ?lexeme, ?labels, ?skip, ?known, ?prose⟩, ?round⟩
  case label => exact fun a s read => further_of_labelled? read
  case lexeme =>
    intro found
    rcases next_cases found with held | ⟨-, less⟩
    · exact Or.inl held
    · exact Or.inr ⟨(alongSteps_further true).next r, less⟩
  case labels => exact exists_endsAfter_labelledAll [] r
  case skip => exact exists_endsAfter_skipToEnd r
  case known => exact fun answer answered => freeText_of_proseStart_inr answered
  case prose =>
    intro s started
    obtain ⟨fits, inside, same⟩ := freeText_of_proseStart_inl started
    obtain ⟨n, few, ends⟩ := s.exists_endsAfter_passage fits
    exact ⟨same, n, few.trans (Nat.succ_le_succ inside.length_le), ends⟩
  case round => exact fun s s' goes => ProseState.round_rest goes

end Docblock
