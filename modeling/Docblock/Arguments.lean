import Docblock.Text

/-!
# The command line

The arguments of the command are options and files, in any order. An option has a short and a long
form, takes a value, and is given at most once; behind two dashes all arguments are files.

    [-f FORMAT] [-o DIRECTORY] [FILE ...]

## Main definitions

* `Arguments`: what the command line asks for
* `UsageFault`: what is wrong with a command line
* `Arguments.ofList`: reads a command line
-/

namespace Docblock

/-- An option of the command. -/
inductive Switch where
  | output
  | format
  | help
  deriving DecidableEq

/-- What the command line asks for. -/
structure Arguments where
  files : List Text := []
  output : Option Text := none
  format : Option Text := none
  deriving DecidableEq

/-- What is wrong with a command line, or the wish for help. -/
inductive UsageFault where
  | unknownOption (argument : Text)
  | missingValue (switch : Switch)
  | repeated (switch : Switch)
  | emptyOutput
  | help
  deriving DecidableEq

/-- How an argument is to be read. -/
inductive ArgumentForm where
  /-- Two dashes: all that follows are files. -/
  | separator
  | file
  /-- An option, perhaps with its value attached. -/
  | option (switch : Switch) (value : Option Text)
  | unknown
  deriving DecidableEq

namespace ArgumentForm

/-- The options by their long names. -/
def longNames : List (Text × Switch) :=
  [("output".toList, .output), ("format".toList, .format), ("help".toList, .help)]

/-- The form of an argument behind two dashes: a long name, perhaps with a value behind an equals
sign. -/
def ofLong (t : Text) : ArgumentForm :=
  match longNames.find? fun entry => entry.1 = t.takeWhile (· ≠ '=') with
  | none => unknown
  | some (_, switch) => option switch (t.dropWhile (· ≠ '=')).tail?

/-- The value attached to a short name, with or without an equals sign. -/
def attached : Text → Option Text
  | [] => none
  | '=' :: t => some t
  | t => some t

/-- The form of an argument behind one dash: a short name, perhaps with a value. -/
def ofShort : Char → Text → ArgumentForm
  | 'o', t => option .output (attached t)
  | 'f', t => option .format (attached t)
  | 'h', _ => option .help none
  | _, _ => unknown

/-- The form of an argument. A single dash is a file. -/
def ofText : Text → ArgumentForm
  | ['-', '-'] => separator
  | '-' :: '-' :: t => ofLong t
  | '-' :: c :: t => ofShort c t
  | _ => file

end ArgumentForm

/-- The long name of an option. -/
def Switch.name : Switch → Text
  | output => "--output".toList
  | format => "--format".toList
  | help => "--help".toList

/-- How the command is used, line by line. -/
def usageLines : List Text :=
  ["Usage: docgen [OPTIONS] [FILES]...".toList, [],
    "  [FILES]...             Input files, directories or patterns; standard input if none".toList,
    "  -o, --output <OUTPUT>  Output directory (required when files are given)".toList,
    "  -f, --format <FORMAT>  Output format: html (default), json".toList,
    "  -h, --help             Print help".toList]

/-- What is said of a command line, line by line. The wish for help is no fault, and nothing is said
of it. -/
def UsageFault.lines : UsageFault → List Text
  | unknownOption argument => ["error: unknown option ".toList ++ argument, []] ++ usageLines
  | missingValue switch => ["error: no value for ".toList ++ switch.name, []] ++ usageLines
  | repeated switch => ["error: more than one value for ".toList ++ switch.name, []] ++ usageLines
  | emptyOutput => ["error: the output directory has no name".toList, []] ++ usageLines
  | help => []

namespace Arguments

/-- The name of the format that is asked for. -/
def formatName (a : Arguments) : Text := a.format.getD "html".toList

/-- Gives an option its value. -/
def set (a : Arguments) (switch : Switch) (value : Text) : Except UsageFault Arguments :=
  match switch with
  | .output =>
    if value = [] then .error .emptyOutput
    else if a.output.isSome then .error (.repeated switch)
    else .ok { a with output := some value }
  | .format =>
    if a.format.isSome then .error (.repeated switch) else .ok { a with format := some value }
  | .help => .error .help

/-- Whether an argument cannot be the value of the option before it. -/
def looksLikeOption (t : Text) : Bool := t.head? == some '-' && t ≠ ['-']

/-- Reads arguments behind those that have been read. -/
def read (a : Arguments) : List Text → Except UsageFault Arguments
  | [] => .ok a
  | argument :: rest =>
    match ArgumentForm.ofText argument with
    | .separator => .ok { a with files := a.files ++ rest }
    | .file => read { a with files := a.files ++ [argument] } rest
    | .unknown => .error (.unknownOption argument)
    | .option .help none => .error .help
    | .option .help (some _) => .error (.unknownOption argument)
    | .option switch (some value) => do read (← a.set switch value) rest
    | .option switch none =>
      match rest with
      | [] => .error (.missingValue switch)
      | value :: rest =>
        if looksLikeOption value then .error (.missingValue switch)
        else do read (← a.set switch value) rest

/-- Reads a command line. -/
def ofList (arguments : List Text) : Except UsageFault Arguments := read {} arguments

end Arguments

end Docblock
