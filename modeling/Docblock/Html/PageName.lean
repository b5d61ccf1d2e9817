import Std.Data.TreeSet
import Docblock.Anchor
import Docblock.Key

/-!
# Names for the pages of classes

Each class has a page of its own. The names of the files are pairwise different even where a file
system ignores the case of letters, and none of them is the name of the index. A class whose name
is taken gets the first number, from two on, with which its name is free.

## Main definitions

* `indexName`: the file name of the index
* `TakenNames`: the names that are taken
* `freeName`: the name that a class gets
* `assignNames`: the names of the pages of some classes
-/

namespace Docblock.Html

/-- The file name of the index. -/
def indexName : Text := "index.html".toList

/-- The file name of the page of a class with a number. -/
def numberedName (className : Text) (n : Nat) : Text :=
  anchor className ++ '_' :: Text.decimal n ++ ".html".toList

/-- The names that are taken, in lower case. -/
abbrev TakenNames := Std.TreeSet Text Key.order

/-- Whether a name is not taken, in any case of its letters. -/
def TakenNames.isFree (taken : TakenNames) (name : Text) : Bool := !taken.contains name.lowerAscii

/-- The first number, from two on, with which the name of a class is free. More numbers are tried
than there are taken names, and the names with them are all different, so one of them is free. -/
def freeNumber (taken : TakenNames) (className : Text) : Nat :=
  ((List.range (taken.size + 1)).find? fun k =>
    taken.isFree (numberedName className (k + 2))).getD 0 + 2

/-- The first name for the page of a class that is not taken. -/
def freeName (taken : TakenNames) (className : Text) : Text :=
  if taken.isFree (pageName className) then pageName className
  else numberedName className (freeNumber taken className)

/-- The names of the pages of some classes, one after the other. -/
def assignFrom (taken : TakenNames) : List Text → List Text
  | [] => []
  | className :: others =>
    let name := freeName taken className
    name :: assignFrom (taken.insert name.lowerAscii) others

/-- The names of the pages of some classes; the name of the index is taken. -/
def assignNames (classNames : List Text) : List Text :=
  assignFrom (Std.TreeSet.empty.insert indexName) classNames

end Docblock.Html
