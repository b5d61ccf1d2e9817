import Docblock.Header

/-!
# Blocks

A source is read as a list of blocks. A block has a header, a description, labelled attributes and
an end, and a declaration may follow it. A block whose header is broken says nothing, and the search
for the next one goes on where the fault was noticed. A block without an end still says what it
says.

## Main definitions

* `Entry`: what a block says about its item
* `Block`: a block with a broken header, or an entry
* `Block.read`: the block that a reader stands in
* `Block.ofSource`: the blocks of a source

## Main results

* `length_labelled_lt`: a labelled attribute takes a character, so there are finitely many
* `reached_read`: what every step does, reading a block does
* `read_rest_suffix`: reading a block never goes back
-/

namespace Docblock

/-- What a block says about its item, and in which line it starts. The fault is what was missing
behind the header, and the declaration is the text that follows a block with an end. -/
structure Entry where
  line : Nat
  header : Header
  link : LinkMark
  description : Text
  labelled : List Attribute
  fault : Option Diagnostic
  declaration : Option Text
  deriving DecidableEq

/-- A block of a source. -/
inductive Block where
  | broken (fault : Diagnostic)
  | entry (e : Entry)
  deriving DecidableEq

namespace Block

open Reading

/-- Reads one labelled attribute, if a label stands here. -/
def labelled? : Reading (Option Attribute) := do
  match ← look with
  | .identifier keyword =>
    discard take
    let next ← look
    if next = .colon then
      discard take
      return some ⟨keyword, ← prose⟩
    else lacking .colon next
  | _ => return none

/-- **A labelled attribute takes a character**: its colon. -/
theorem length_labelled_lt {r r' : Reader} {a : Attribute} (h : labelled? r = .ok (some a) r') :
    r'.rest.length < r.rest.length := by
  rw [labelled?, look_bind] at h
  cases shown : r.peek.1 with
  | symbol sign => simp [shown] at h
  | endOfSource => simp [shown] at h
  | identifier keyword =>
    simp only [shown, discard_take_bind, look_bind] at h
    split at h
    · rename_i colon
      simp only [discard_take_bind, prose_bind, pure_apply, EStateM.Result.ok.injEq] at h
      have behind := (Reader.freeText_rest_suffix r.peek.2.next.2.peek.2.next.2).length_le
      rw [h.2, Reader.next_peek] at behind
      have found : r.peek.2.next.2.next.1 ≠ .endOfSource := by
        rw [Reader.next_fst, colon]
        simp [Lexeme.colon]
      have taken := Reader.length_next_rest_lt (Reader.next_held _) found
      have shown := (Reader.next_rest_suffix r.peek.2).length_le
      have ahead := (Reader.peek_rest_suffix r).length_le
      omega
    · simp at h

/-- The labelled attributes that stand here, and whether what stopped them was a fault. -/
def labelledAll (r : Reader) : List Attribute × EStateM.Result Diagnostic Reader Unit :=
  match _ : labelled? r with
  | .ok (some a) r' =>
    let others := labelledAll r'
    (a :: others.1, others.2)
  | .ok none r' => ([], .ok () r')
  | .error fault r' => ([], .error fault r')
termination_by r.rest.length
decreasing_by exact length_labelled_lt ‹_›

/-- Takes the end of a block. -/
def readEnd : Reading Unit := do
  let found ← take
  if found = .closing then return () else lacking .endSymbol found

/-- What is left to be taken: two for each character, and one for a lexeme that is held. -/
def remaining (r : Reader) : Nat := 2 * r.rest.length + if r.held.isSome then 1 else 0

/-- Taking a lexeme leaves less to be taken. -/
theorem remaining_next_lt {r : Reader} (h : r.next.1 ≠ .endOfSource) :
    remaining r.next.2 < remaining r := by
  cases held : r.held with
  | none =>
    have := Reader.length_next_rest_lt held h
    simp [remaining, held]
    omega
  | some x => simp [remaining, Reader.next, held]

/-- Goes behind the next end of a block, and tells whether there is one. -/
def skipToEnd (r : Reader) : Bool × Reader :=
  if _ : r.next.1 = .endOfSource then (false, r.next.2)
  else if r.next.1 = .closing then (true, r.next.2)
  else skipToEnd r.next.2
termination_by remaining r
decreasing_by exact remaining_next_lt ‹_›

/-- Goes behind the end of the block, and to the next end where something is missing. Gives what
was missing, whether an end was found, and the reader behind it. -/
def finish : EStateM.Result Diagnostic Reader Unit → Option Diagnostic × Bool × Reader
  | .error fault r => (some fault, skipToEnd r)
  | .ok _ r =>
    match readEnd r with
    | .error fault r => (some fault, skipToEnd r)
    | .ok _ r => (none, true, r)

/-- The declaration that stands here, trimmed. -/
def declarationHere (r : Reader) : Text := (r.declaration.1.getD []).trim

/-- Reads what a header says: the item that it names, and the link. -/
def readHeader : Reading (Header × LinkMark) := do
  let header ← Header.read
  let link ← LinkMark.read
  return (header, link)

/-- Reads what stands behind a header. -/
def readBody (line : Nat) (header : Header) (link : LinkMark) (r : Reader) : Entry × Reader :=
  let description := r.freeText
  let labelled := labelledAll description.2
  let finished := finish labelled.2
  ({ line
     header
     link
     description := description.1.get.trim
     labelled := labelled.1
     fault := finished.1
     declaration :=
      if finished.2.1 then some (declarationHere finished.2.2) else none }, finished.2.2)

/-- Reads the block whose opening has just been passed. -/
def read (r : Reader) : Block × Reader :=
  match readHeader r with
  | .error fault r' => (broken fault, r')
  | .ok (header, link) r' =>
    let body := readBody r.line header link r'
    (entry body.1, body.2)

/-! ## Along the steps of a block -/

theorem composed_labelled? : Composed true labelled? := by
  refine .bind .look fun x => ?_
  split
  · refine .bind (composed_discard .take) fun _ => .bind .look fun y => ?_
    split
    · exact .bind (composed_discard .take) fun _ => .bind (.text rfl) fun _ => .pure _
    · exact composed_lacking _ _
  · exact .pure _

theorem composed_readEnd {prose : Bool} : Composed prose readEnd := by
  refine .bind .take fun x => ?_
  split
  · exact .pure _
  · exact composed_lacking _ _

theorem composed_readHeader {prose : Bool} : Composed prose readHeader :=
  .bind Header.composed_read fun _ => .bind LinkMark.composed_read fun _ => .pure _

section AlongSteps

variable {R : Reader → Reader → Prop} (along : AlongSteps true R)

include along

theorem reached_labelledAll (r : Reader) : R r (reached (labelledAll r).2) := by
  fun_induction labelledAll r with
  | case1 r a r' h others ih =>
    have first := composed_labelled?.reached_of_steps along r
    rw [h] at first
    exact along.trans first ih
  | case2 r r' h =>
    have first := composed_labelled?.reached_of_steps along r
    rwa [h] at first
  | case3 r fault r' h =>
    have first := composed_labelled?.reached_of_steps along r
    rwa [h] at first

theorem reached_skipToEnd (r : Reader) : R r (skipToEnd r).2 := by
  fun_induction skipToEnd r with
  | case1 r h => exact along.next r
  | case2 r h g => exact along.next r
  | case3 r h g ih => exact along.trans (along.next r) ih

theorem reached_finish (attributes : EStateM.Result Diagnostic Reader Unit) :
    R (reached attributes) (finish attributes).2.2 := by
  unfold finish
  split
  · exact reached_skipToEnd along _
  · rename_i r
    have ended := composed_readEnd.reached_of_steps along r
    split
    · rename_i fault r' h
      rw [h] at ended
      exact along.trans ended (reached_skipToEnd along r')
    · rename_i r' h
      rwa [h] at ended

/-- **What every step does, reading a block does.** -/
theorem reached_read (r : Reader) : R r (read r).2 := by
  have header := composed_readHeader.reached_of_steps along r
  unfold read
  split
  · rename_i fault r' h
    rwa [h] at header
  · rename_i mark link r' h
    rw [h] at header
    have description := along.freeText rfl r'
    have labelled := reached_labelledAll along r'.freeText.2
    exact along.trans header (along.trans description
      (along.trans labelled (reached_finish along _)))

end AlongSteps

/-- **Reading a block never goes back.** -/
theorem read_rest_suffix (r : Reader) : (read r).2.rest <:+ r.rest :=
  reached_read (alongSteps_suffix true) r

/-! ## The blocks of a source -/

/-- The blocks from here on. -/
def readAll (r : Reader) : List Block :=
  if _ : r.seekBlock.1 = .endOfSource then []
  else
    let block := read r.seekBlock.2
    block.1 :: readAll block.2
termination_by r.rest.length
decreasing_by
  have taken := Reader.length_seekBlock_rest_lt ‹_›
  have behind := (read_rest_suffix r.seekBlock.2).length_le
  omega

/-- The blocks of a source. -/
def ofSource (source : Text) : List Block := readAll (.ofSource source)

/-- The faults of a block, in the order in which they are noticed. -/
def faults : Block → List Diagnostic
  | broken fault => [fault]
  | entry e =>
    (match e.link with
      | .faulty fault => [fault]
      | _ => []) ++ e.fault.toList

end Block

end Docblock
