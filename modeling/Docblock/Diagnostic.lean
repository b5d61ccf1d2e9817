import Docblock.Lexeme

/-!
# Diagnostics

A diagnostic tells what a block lacks: what was expected, what was found in its place, and where.

## Main definitions

* `Expected`: what a block may lack
* `Diagnostic`: what was expected, what was found, and in which line
* `Diagnostic.message`: a diagnostic in words
-/

namespace Docblock

/-- What a block may lack. -/
inductive Expected where
  | projectName
  | className
  | memberName
  | linkName
  | colon
  | endSymbol
  deriving DecidableEq

/-- The word for what a block lacks. -/
def Expected.word : Expected → Text
  | projectName => "ProjectName".toList
  | className => "ClassName".toList
  | memberName => "MemberName".toList
  | linkName => "LinkName".toList
  | colon => "Colon".toList
  | endSymbol => "EndSymbol".toList

/-- What was expected in a line, and the lexeme that was found there. -/
structure Diagnostic where
  line : Nat
  expected : Expected
  found : Lexeme
  deriving DecidableEq

namespace Diagnostic

/-- The characters that were found, or words for the end of the source. -/
def foundText (d : Diagnostic) : Text :=
  match d.found with
  | .endOfSource => "end of file".toList
  | x => x.text

/-- A diagnostic in words. What was found stands between quotation marks as it is. -/
def message (d : Diagnostic) : Text :=
  "line ".toList ++ Text.decimal d.line ++ ": expected ".toList ++ d.expected.word ++
    ", found \"".toList ++ d.foundText ++ "\"".toList

end Diagnostic

end Docblock
