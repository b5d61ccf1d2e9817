import Docblock.Proofs.Starts
import Docblock.Proofs.Words

/-!
# The labels behind a description

Behind the prose of a description a reader holds what stopped it. If that is a label its attribute
is read, with the prose behind its colon; if it is the end of the block there are no more labels.

## Main results

* `labelled?_of_label`, `labelled?_of_closing`: what is read where a label or the end is held
* `labelledAll_of_label`, `labelledAll_of_closing`: the same for all labels
* `finish_of_closing`, `readBody_of_closing`: a block with an end is finished behind it
* `ofSource_of_closing`: what a source with a header alone says
-/

namespace Docblock.Block

open Lexeme Reading

variable {r : Reader}

theorem peek_of_held {x : Lexeme} (held : r.held = some x) : r.peek = (x, r) := by
  rw [Reader.peek, held]

theorem next_of_held {x : Lexeme} (held : r.held = some x) :
    r.next = (x, ⟨r.lastLine, r.rest, none⟩) := by
  rw [Reader.next, held]

theorem labelled?_of_closing (held : r.held = some .closing) : labelled? r = .ok none r := by
  rw [labelled?, look_bind, peek_of_held held]
  rfl

/-- **A label in front of a lone colon** is read with the prose behind that colon. -/
theorem labelled?_of_label {word v : Text} (held : r.held = some (.identifier word))
    (rest : r.rest = ':' :: v) (colon : startsWithLoneColon r.rest = true) :
    labelled? r = .ok (some ⟨word, (Passage.scan true v).text.trim⟩)
      ⟨r.lastLine, (Passage.scan true v).rest, some (Passage.scan true v).stop⟩ := by
  rw [rest] at colon
  -- The colon is looked at before it is taken.
  have shown : Reader.peek ⟨r.lastLine, r.rest, none⟩ = (.colon, ⟨r.lastLine, v, some .colon⟩) := by
    simp only [Reader.peek, rest, scan_of_startsWithLoneColon colon]
  rw [labelled?, look_bind, peek_of_held held]
  simp only [discard_take_bind, next_of_held held, look_bind, shown, if_pos]
  rfl

theorem labelledAll_of_closing (held : r.held = some .closing) :
    labelledAll r = ([], .ok () r) := by
  have stopped := labelled?_of_closing held
  rw [labelledAll]
  -- Of the three results of reading a label, the second one has been given.
  split
  · rename_i same
    rw [stopped] at same
    cases same
  · rename_i same
    rw [stopped] at same
    obtain ⟨-, rfl⟩ := EStateM.Result.ok.inj same
    rfl
  · rename_i same
    rw [stopped] at same
    cases same

/-- A label adds its attribute to those behind it. -/
theorem labelledAll_of_label {word v : Text} (held : r.held = some (.identifier word))
    (rest : r.rest = ':' :: v) (colon : startsWithLoneColon r.rest = true) :
    labelledAll r =
      let others := labelledAll
        ⟨r.lastLine, (Passage.scan true v).rest, some (Passage.scan true v).stop⟩
      (⟨word, (Passage.scan true v).text.trim⟩ :: others.1, others.2) := by
  have read := labelled?_of_label held rest colon
  rw [labelledAll]
  -- Of the three results of reading a label, the first one has been given.
  split
  · rename_i same
    rw [read] at same
    obtain ⟨first, rfl⟩ := EStateM.Result.ok.inj same
    obtain rfl := Option.some.inj first
    rfl
  · rename_i same
    rw [read] at same
    cases same
  · rename_i same
    rw [read] at same
    cases same

/-- **A block with an end is finished behind it**, without a fault. -/
theorem finish_of_closing (held : r.held = some .closing) :
    finish (.ok () r) = (none, true, ⟨r.lastLine, r.rest, none⟩) := by
  have ended : readEnd r = .ok () ⟨r.lastLine, r.rest, none⟩ := by
    rw [readEnd, take_bind, next_of_held held]
    rfl
  rw [finish, ended]

/-- What a block says where its header can be read. -/
theorem read_of_readHeader_eq {s : Reader} {header : Header} {link : LinkMark}
    (succeeded : readHeader r = .ok (header, link) s) :
    read r = (entry (readBody r.line header link s).1, (readBody r.line header link s).2) := by
  rw [read, succeeded]

/-- Where the end of the block follows its header there is no prose and no label. -/
theorem readBody_of_closing (held : r.held = some .closing) (line : Nat) (header : Header)
    (link : LinkMark) :
    readBody line header link r =
      let behind : Reader := ⟨r.lastLine, r.rest, none⟩
      ({ line
         header
         link
         description := []
         labelled := []
         fault := none
         declaration := some (declarationHere behind) }, behind) := by
  have missing : r.freeText = (.missing, r) := by
    rw [Reader.freeText, held]
    rfl
  simp only [readBody, missing, labelledAll_of_closing held, finish_of_closing held]
  rfl

/-- A source with one block, in which the end follows the header. -/
theorem ofSource_of_closing {source : Text} {s : Reader} {header : Header} {link : LinkMark}
    (first : (Reader.ofSource source).firstStart? = some r)
    (succeeded : readHeader r = .ok (header, link) s) (held : s.held = some .closing)
    (last : (⟨s.lastLine, s.rest, none⟩ : Reader).firstStart? = none) :
    ofSource source = [entry
      { line := r.line
        header
        link
        description := []
        labelled := []
        fault := none
        declaration := some (declarationHere ⟨s.lastLine, s.rest, none⟩) }] := by
  have read := read_of_readHeader_eq succeeded
  rw [readBody_of_closing held] at read
  exact ofSource_eq_singleton first read last

/-- Prose behind the header, labels behind the prose, and the end of the block behind these. -/
theorem readBody_of_labelledAll_eq {attributes : List Attribute} {u : Text} (held : r.held = none)
    (labelled : labelledAll
        ⟨r.lastLine, (Passage.scan true r.rest).rest, some (Passage.scan true r.rest).stop⟩ =
      (attributes, .ok () ⟨r.lastLine, u, some .closing⟩))
    (line : Nat) (header : Header) (link : LinkMark) :
    readBody line header link r =
      let behind : Reader := ⟨r.lastLine, u, none⟩
      ({ line
         header
         link
         description := (Passage.scan true r.rest).text.trim
         labelled := attributes
         fault := none
         declaration := some (declarationHere behind) }, behind) := by
  have prose : r.freeText = (.text (Passage.scan true r.rest).text,
      ⟨r.lastLine, (Passage.scan true r.rest).rest, some (Passage.scan true r.rest).stop⟩) := by
    rw [Reader.freeText, held]
    rfl
  simp only [readBody, prose, labelled, finish_of_closing, Prose.get]
  rfl

end Docblock.Block
