import Docblock.Document.Record
import Docblock.Proofs.Starts

/-!
# Where faults are noticed

A fault is noticed at a place: there stands the reader that has been left when the fault is
reported. The place lies on the way of the reader through the block, so the faults of a source are
noticed one behind the other.

## Main definitions

* `Notice`: a fault, and the reader that stands where it is noticed
* `Block.notices`, `Block.noticesFrom`: what is noticed in a block, and from a place on
* `Reader.Further`: a reader stands further on in the same source

## Main results

* `map_fault_noticesFrom`: the faults that are noticed in a source are its diagnostics
* `reached_place`: the place of a fault lies on the way of the reader
* `pairwise_noticesFrom`: the faults of a source are noticed one behind the other
-/

namespace Docblock

open Lexeme Reader Reading

/-- A fault, and the reader that stands where it is noticed. -/
structure Notice where
  fault : Diagnostic
  place : Reader

namespace Block

/-- What is noticed of a link. The reader behind the header has looked at what stands in its
place. -/
def noticesOfLink (r : Reader) : LinkMark → List Notice
  | .faulty fault => [⟨fault, r⟩]
  | _ => []

/-- What is noticed behind the labels, of which the last one may be at fault. -/
def noticesOfEnd : EStateM.Result Diagnostic Reader Unit → List Notice
  | .error fault r => [⟨fault, r⟩]
  | .ok _ r =>
    match readEnd r with
    | .error fault s => [⟨fault, s⟩]
    | .ok _ _ => []

/-- What is noticed in the block behind an opening. -/
def notices (r : Reader) : List Notice :=
  match readHeader r with
  | .error fault s => [⟨fault, s⟩]
  | .ok (_, link) s => noticesOfLink s link ++ noticesOfEnd (labelledAll s.freeText.2).2

/-- What is noticed in the blocks from here on. -/
def noticesFrom (r : Reader) : List Notice := (starts r).flatMap notices

/-! ## Notices and faults -/

theorem map_fault_noticesOfLink (r : Reader) (link : LinkMark) :
    (noticesOfLink r link).map (·.fault) =
      match link with
      | .faulty fault => [fault]
      | _ => [] := by
  cases link <;> rfl

theorem map_fault_noticesOfEnd (labelled : EStateM.Result Diagnostic Reader Unit) :
    (noticesOfEnd labelled).map (·.fault) = (finish labelled).1.toList := by
  cases labelled with
  | error fault r => rfl
  | ok _ r =>
    rw [noticesOfEnd, finish]
    cases readEnd r <;> rfl

/-- **What is noticed in a block** are its faults. -/
theorem map_fault_notices (r : Reader) : (notices r).map (·.fault) = (read r).1.faults := by
  unfold notices read
  cases readHeader r with
  | error fault s => rfl
  | ok said s =>
    obtain ⟨header, link⟩ := said
    rw [List.map_append, map_fault_noticesOfLink, map_fault_noticesOfEnd]
    rfl

/-- **What is noticed in a source** are its diagnostics. -/
theorem map_fault_noticesFrom (source : Text) :
    (noticesFrom (.ofSource source)).map (·.fault) = sourceFaults source := by
  rw [sourceFaults, ofSource, readAll_eq_map_starts, noticesFrom, List.map_flatMap,
    List.flatMap_map]
  simp only [map_fault_notices]

theorem noticesFrom_of_firstStart?_eq_some {r p : Reader} (first : r.firstStart? = some p) :
    noticesFrom r = notices p ++ noticesFrom (read p).2 := by
  rw [noticesFrom, starts_of_firstStart?_eq_some first, List.flatMap_cons]
  rfl

theorem noticesFrom_of_firstStart?_eq_none {r : Reader} (none : r.firstStart? = none) :
    noticesFrom r = [] := by
  rw [noticesFrom, starts_of_firstStart?_eq_none none, List.flatMap_nil]

/-! ## The places of faults -/

theorem place_of_mem_noticesOfLink {n : Notice} {r : Reader} {link : LinkMark}
    (inside : n ∈ noticesOfLink r link) : n.place = r := by
  cases link with
  | faulty fault => rw [List.mem_singleton.1 inside]
  | given link => cases inside
  | absent => cases inside

section AlongSteps

variable {R : Reader → Reader → Prop} (along : AlongSteps true R) {r : Reader} {n : Notice}

include along

theorem reached_place_noticesOfEnd {labelled : EStateM.Result Diagnostic Reader Unit}
    (inside : n ∈ noticesOfEnd labelled) :
    R (reached labelled) n.place ∧ R n.place (finish labelled).2.2 := by
  cases labelled with
  | error fault s =>
    obtain rfl := List.mem_singleton.1 inside
    exact ⟨along.refl s, reached_skipToEnd along s⟩
  | ok _ s =>
    have ended := composed_readEnd.reached_of_steps along s
    rw [noticesOfEnd] at inside
    rw [finish]
    cases same : readEnd s with
    | error fault t =>
      rw [same] at ended inside
      obtain rfl := List.mem_singleton.1 inside
      exact ⟨ended, reached_skipToEnd along t⟩
    | ok _ t =>
      rw [same] at inside
      cases inside

/-- **The place of a fault lies on the way of the reader** through the block. -/
theorem reached_place (inside : n ∈ notices r) : R r n.place ∧ R n.place (read r).2 := by
  have header := composed_readHeader.reached_of_steps along r
  unfold notices at inside
  unfold read
  cases same : readHeader r with
  | error fault s =>
    rw [same] at header inside
    obtain rfl := List.mem_singleton.1 inside
    exact ⟨header, along.refl s⟩
  | ok said s =>
    obtain ⟨mark, link⟩ := said
    rw [same] at header inside
    have labelled := along.trans (along.freeText rfl s) (reached_labelledAll along s.freeText.2)
    rcases List.mem_append.1 inside with ofLink | ofEnd
    · rw [place_of_mem_noticesOfLink ofLink]
      exact ⟨header, along.trans labelled (reached_finish along _)⟩
    · obtain ⟨before, behind⟩ := reached_place_noticesOfEnd along ofEnd
      exact ⟨along.trans header (along.trans labelled before), behind⟩

/-- The faults of a block are noticed one behind the other. -/
theorem pairwise_notices (r : Reader) : (notices r).Pairwise fun a b => R a.place b.place := by
  unfold notices
  cases readHeader r with
  | error fault s => exact List.pairwise_singleton _ _
  | ok said s =>
    obtain ⟨mark, link⟩ := said
    -- Of the link and of the end one fault at most is noticed.
    refine List.pairwise_append.2 ⟨?_, ?_, ?_⟩
    · cases link <;> simp [noticesOfLink]
    · cases (labelledAll s.freeText.2).2 with
      | error fault t => exact List.pairwise_singleton _ _
      | ok _ t =>
        rw [noticesOfEnd]
        cases readEnd t <;> simp
    · intro a ofLink b ofEnd
      have labelled := along.trans (along.freeText rfl s) (reached_labelledAll along s.freeText.2)
      rw [place_of_mem_noticesOfLink ofLink]
      exact along.trans labelled (reached_place_noticesOfEnd along ofEnd).1

end AlongSteps

end Block

namespace Reader

/-- A reader stands further on in the same source. -/
def Further (r s : Reader) : Prop := s.lastLine = r.lastLine ∧ s.rest <:+ r.rest

theorem Further.trans {r s t : Reader} (first : Further r s) (second : Further s t) :
    Further r t :=
  ⟨second.1.trans first.1, second.2.trans first.2⟩

/-- **Lines do not decrease** on the way of a reader. -/
theorem Further.line_le {r s : Reader} (further : Further r s) : r.line ≤ s.line := by
  have fewer : s.rest.count '\n' ≤ r.rest.count '\n' := further.2.sublist.count_le '\n'
  rw [line, line, further.1]
  omega

theorem further_of_firstStart?_eq_some {r p : Reader} (first : r.firstStart? = some p) :
    Further r p := by
  obtain ⟨lastLine, -, inside⟩ := firstStart?_spec first
  exact ⟨lastLine, (List.suffix_append opening p.rest).trans inside⟩

end Reader

/-- Each step leaves a reader further on. -/
theorem Reading.alongSteps_further (prose : Bool) : AlongSteps prose Further where
  refl _ := ⟨rfl, List.suffix_rfl⟩
  trans := Further.trans
  next r := ⟨r.lastLine_next, r.next_rest_suffix⟩
  peek r := ⟨r.lastLine_peek, r.peek_rest_suffix⟩
  freeText _ r := ⟨r.lastLine_freeText, r.freeText_rest_suffix⟩

namespace Block

/-- **The faults of a source are noticed one behind the other.** -/
theorem pairwise_noticesFrom (r : Reader) :
    ((noticesFrom r).Pairwise fun a b => Further a.place b.place) ∧
      ∀ n ∈ noticesFrom r, Further r n.place := by
  -- The induction takes one block after the other; a block is read to a place behind its faults.
  induction r using run_induction with
  | ended r none =>
    rw [noticesFrom_of_firstStart?_eq_none none]
    simp
  | started r p first ih =>
    obtain ⟨others, behind⟩ := ih
    have way {n : Notice} := reached_place (alongSteps_further true) (r := p) (n := n)
    have before := further_of_firstStart?_eq_some first
    rw [noticesFrom_of_firstStart?_eq_some first]
    constructor
    · refine List.pairwise_append.2 ⟨pairwise_notices (alongSteps_further true) p, others, ?_⟩
      intro a here b later
      exact (way here).2.trans (behind b later)
    · intro n inside
      rcases List.mem_append.1 inside with here | later
      · exact before.trans (way here).1
      · have read := reached_read (alongSteps_further true) p
        exact before.trans (read.trans (behind n later))

end Block

end Docblock
