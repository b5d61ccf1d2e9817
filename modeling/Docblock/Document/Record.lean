import Docblock.Block
import Docblock.Document

/-!
# Recording blocks

A document records what blocks say, one block after the other. A block adds to what earlier blocks
said about the same item and takes nothing away, apart from the link, which the last block decides.

## Main definitions

* `Document.record`: a document with what one block says
* `Document.recordSource`: a document with what the blocks of a source say
* `sourceFaults`: the diagnostics of a source
-/

namespace Docblock

/-- The attributes that a block gives its item: the description, and those with labels. -/
def Entry.attributes (e : Entry) : List Attribute :=
  ⟨Attribute.descriptionKeyword, e.description⟩ :: e.labelled

namespace Document

/-- Mentions the item of a header, and gives the project the name that the header has for it. -/
def meet (d : Document) (header : Header) : Document :=
  match header with
  | .project name => d.nameProject name
  | header => d.mention header.subject

/-- Gives a subject the link of a header, or its own name where the header has none. -/
def recordLink (d : Document) (s : Subject) : LinkMark → Document
  | .given link => d.setLink s link
  | _ => d.resetLink s

/-- Adds attributes to a subject, in order. -/
def addAttributes (d : Document) (s : Subject) (attributes : List Attribute) : Document :=
  attributes.foldl (·.addAttribute s ·) d

/-- Whether a subject is to keep the declaration behind a block. -/
def awaitsDeclaration (d : Document) (s : Subject) : Bool :=
  (d.item? s).any (·.awaitsDeclaration)

/-- Adds the declaration behind a block, if there is one and the subject is to keep it. -/
def recordDeclaration (d : Document) (s : Subject) : Option Text → Document
  | some text =>
    if d.awaitsDeclaration s then d.addAttribute s ⟨Attribute.declarationKeyword, text⟩ else d
  | none => d

/-- A document with what an entry says. -/
def recordEntry (d : Document) (e : Entry) : Document :=
  let s := e.header.subject
  (((d.meet e.header).recordLink s e.link).addAttributes s e.attributes).recordDeclaration s
    e.declaration

/-- A document with what a block says. A block with a broken header says nothing. -/
def record (d : Document) : Block → Document
  | .broken _ => d
  | .entry e => d.recordEntry e

/-- A document with what the blocks of a source say. -/
def recordSource (d : Document) (source : Text) : Document :=
  (Block.ofSource source).foldl record d

end Document

/-- The diagnostics of a source, in the order of their places. -/
def sourceFaults (source : Text) : List Diagnostic := (Block.ofSource source).flatMap Block.faults

end Docblock
