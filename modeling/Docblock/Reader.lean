import Docblock.Declaration
import Docblock.Passage

/-!
# Reading a source

A reader walks through a source. It can look one lexeme ahead, and holds that lexeme until it is
asked for. Where it stands is the text that is still to be read, and the line it stands in is told
by the line feeds of that text.

## Main definitions

* `Reader`: a place in a source, with the lexeme that is held
* `Reader.next`, `Reader.peek`: the next lexeme, taken or left
* `Reader.seekBlock`: the way to the next block
* `Reader.freeText`: the prose that stands here
* `Reader.declaration`: the declaration that stands here

## Main results

* `next_rest_suffix`, `peek_rest_suffix`, `seekBlock_rest_suffix`, `freeText_rest_suffix`: a reader
  never goes back
* `length_next_rest_lt`, `length_seekBlock_rest_lt`: a lexeme that is scanned and a block that is
  found take a character
-/

namespace Docblock

/-- A place in a source: the number of the last line, the text still to be read, and the lexeme
that has been read ahead. -/
structure Reader where
  lastLine : Nat
  rest : Text
  held : Option Lexeme := none

/-- What stands where prose is asked for. -/
inductive Prose where
  /-- Prose, which may be empty. -/
  | text (t : Text)
  /-- No prose: a label or the end of the block. -/
  | missing
  /-- No prose: the end of the source. -/
  | ended
  deriving DecidableEq

/-- The text of prose; no prose has the empty text. -/
def Prose.get : Prose → Text
  | text t => t
  | missing => []
  | ended => []

namespace Reader

/-- A reader at the start of a source. Lines are counted by line feeds, from one. -/
def ofSource (source : Text) : Reader := ⟨source.count '\n' + 1, source, none⟩

/-- The line of the place where the reader stands. -/
def line (r : Reader) : Nat := r.lastLine - r.rest.count '\n'

/-- The next lexeme: the one that is held, or the one that is scanned here. -/
def next (r : Reader) : Lexeme × Reader :=
  match r.held with
  | some x => (x, { r with held := none })
  | none => ((Lexeme.scan r.rest).1, { r with rest := (Lexeme.scan r.rest).2 })

/-- The next lexeme, held from now on. -/
def peek (r : Reader) : Lexeme × Reader :=
  match r.held with
  | some x => (x, r)
  | none =>
    let scanned := Lexeme.scan r.rest
    (scanned.1, { r with rest := scanned.2, held := some scanned.1 })

/-- Goes behind the next opening of a block, or to the end of the source. A lexeme that is held is
dropped. -/
def seekBlock (r : Reader) : Lexeme × Reader :=
  match afterOpening r.rest with
  | some rest => (.symbol opening, { r with rest := rest, held := none })
  | none => (.endOfSource, { r with rest := [], held := none })

/-- Reads a passage behind a text that already belongs to it. -/
def readPassage (r : Reader) (lineStart : Bool) (before : Text) : Prose × Reader :=
  let passage := Passage.scan lineStart r.rest
  (.text (before ++ passage.text), { r with rest := passage.rest, held := some passage.stop })

/-- The prose that stands here. A lexeme that is held belongs to it, unless it is a mark of the
margin; one that would have stopped a passage is left, and there is no prose. -/
def freeText (r : Reader) : Prose × Reader :=
  match r.held with
  | none => r.readPassage true []
  | some .endOfSource => (.ended, r)
  | some (.symbol sign) =>
    if Lexeme.symbol sign = .closing then (.missing, r)
    -- A mark of the margin has been scanned as a symbol within the line.
    else if sign = ['*'] ∨ sign = ['/'] then r.readPassage true []
    else r.readPassage false sign
  | some (.identifier word) =>
    if startsWithLoneColon r.rest then (.missing, r) else r.readPassage false word

/-- The declaration that stands here, if there is any text to it. A lexeme that is held is left
alone. -/
def declaration (r : Reader) : Option Text × Reader :=
  let parts := Docblock.declaration r.rest
  (if parts.1 = [] then none else some parts.1, { r with rest := parts.2 })

/-! ## Where a reader stands -/

@[simp] theorem ofSource_rest (source : Text) : (ofSource source).rest = source := rfl

@[simp] theorem ofSource_held (source : Text) : (ofSource source).held = none := rfl

@[simp] theorem ofSource_line (source : Text) : (ofSource source).line = 1 := by
  simp [ofSource, line]

/-- Taking a lexeme does not go back. -/
theorem next_rest_suffix (r : Reader) : r.next.2.rest <:+ r.rest := by
  unfold next
  split
  · exact List.suffix_rfl
  · exact Lexeme.scan_rest_suffix r.rest

@[simp] theorem next_held (r : Reader) : r.next.2.held = none := by
  unfold next
  split
  · rfl
  · assumption

/-- Looking ahead does not go back. -/
theorem peek_rest_suffix (r : Reader) : r.peek.2.rest <:+ r.rest := by
  unfold peek
  split
  · exact List.suffix_rfl
  · exact Lexeme.scan_rest_suffix r.rest

@[simp] theorem peek_held (r : Reader) : r.peek.2.held = some r.peek.1 := by
  unfold peek
  split
  · assumption
  · rfl

/-- What is taken is what looking ahead shows. -/
theorem next_fst (r : Reader) : r.next.1 = r.peek.1 := by
  obtain ⟨lastLine, rest, held⟩ := r
  cases held <;> rfl

/-- **Looking ahead is taking and putting back**: what is taken after it is what it showed. -/
@[simp] theorem next_peek (r : Reader) : r.peek.2.next = r.next := by
  obtain ⟨lastLine, rest, held⟩ := r
  cases held <;> rfl

/-- With no lexeme held, a lexeme that is taken takes a character. -/
theorem length_next_rest_lt {r : Reader} (held : r.held = none)
    (found : r.next.1 ≠ .endOfSource) : r.next.2.rest.length < r.rest.length := by
  unfold next at found ⊢
  rw [held] at found ⊢
  exact Lexeme.length_scan_rest_lt found

/-- Looking for a block does not go back. -/
theorem seekBlock_rest_suffix (r : Reader) : r.seekBlock.2.rest <:+ r.rest := by
  unfold seekBlock
  split
  · rename_i rest h
    exact (List.suffix_append opening rest).trans (afterOpening_suffix h)
  · exact List.nil_suffix

@[simp] theorem seekBlock_held (r : Reader) : r.seekBlock.2.held = none := by
  unfold seekBlock
  split <;> rfl

/-- A block that is found takes the three characters of its opening. -/
theorem length_seekBlock_rest_lt {r : Reader} (found : r.seekBlock.1 ≠ .endOfSource) :
    r.seekBlock.2.rest.length + 3 ≤ r.rest.length := by
  unfold seekBlock at found ⊢
  split at found
  · rename_i rest h
    have taken := (afterOpening_suffix h).length_le
    simp only [opening, List.length_append, List.length_cons, List.length_nil] at taken
    simp only
    omega
  · exact absurd rfl found

theorem readPassage_rest_suffix (r : Reader) (lineStart : Bool) (before : Text) :
    (r.readPassage lineStart before).2.rest <:+ r.rest :=
  Passage.scan_rest_suffix lineStart r.rest

/-- Reading prose does not go back. -/
theorem freeText_rest_suffix (r : Reader) : r.freeText.2.rest <:+ r.rest := by
  unfold freeText
  split
  · exact r.readPassage_rest_suffix _ _
  · exact List.suffix_rfl
  · split
    · exact List.suffix_rfl
    · split
      · exact r.readPassage_rest_suffix _ _
      · exact r.readPassage_rest_suffix _ _
  · split
    · exact List.suffix_rfl
    · exact r.readPassage_rest_suffix _ _

/-- Reading a declaration does not go back. -/
theorem declaration_rest_suffix (r : Reader) : r.declaration.2.rest <:+ r.rest :=
  ⟨_, declaration_append r.rest⟩

end Reader

end Docblock
