import Docblock.Document.Record

/-!
# Operations on documents

A document changes by operations: the project is named, a subject is mentioned, what is known of a
subject is changed, a source is recorded.

## Main definitions

* `Change`: a change to what is known of a subject
* `Operation`: an operation on a document
* `Document.apply`, `Document.run`: a document after one operation, and after a run of them
-/

namespace Docblock

/-- A change to what is known of a subject: one more attribute, a link, or its own name for a link.
The description and the declaration of a block are attributes with keywords of their own. -/
inductive Change where
  | add (a : Attribute)
  | setLink (link : Text)
  | resetLink
  deriving DecidableEq

/-- An operation on a document. -/
inductive Operation where
  | nameProject (name : Text)
  | mention (s : Subject)
  | change (s : Subject) (c : Change)
  | recordSource (source : Text)
  deriving DecidableEq

namespace Document

/-- A document with a change to what is known of a subject. -/
def change (d : Document) (s : Subject) : Change → Document
  | .add a => d.addAttribute s a
  | .setLink link => d.setLink s link
  | .resetLink => d.resetLink s

/-- A document after an operation. -/
def apply (d : Document) : Operation → Document
  | .nameProject name => d.nameProject name
  | .mention s => d.mention s
  | .change s c => d.change s c
  | .recordSource source => d.recordSource source

/-- The document after a run of operations. -/
def run (operations : List Operation) : Document := operations.foldl apply empty

end Document

end Docblock
