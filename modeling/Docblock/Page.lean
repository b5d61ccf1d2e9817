import Docblock.Text

/-!
# Pages

What is made of a document is a list of pages, each with the name of the file that holds it.
-/

namespace Docblock

/-- A page: the name of its file, and what the file holds. -/
structure Page where
  fileName : Text
  contents : Text
  deriving DecidableEq

end Docblock
