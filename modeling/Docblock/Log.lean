import Docblock.Block
import Docblock.FileTree.Access
import Docblock.Format
import Docblock.Glob
import Docblock.Text.Quoted

/-!
# The log of a run

While it works, a run reports events. Each event has a level, and a threshold says from which level
on events are shown. An event is shown as a line: its level, a message, and named fields.

## Main definitions

* `Level`, `Threshold`: how grave an event is, and which events are shown
* `Event`: what a run reports
* `Event.line`: an event as it is shown
* `Log.shown`: the lines of those events that a threshold lets through
-/

namespace Docblock

/-- How grave an event is, the gravest first. -/
inductive Level where
  | error
  | warn
  | info
  | debug
  | trace
  deriving DecidableEq

namespace Level

/-- The number of a level; graver events have smaller numbers. -/
def number : Level → Nat
  | error => 1
  | warn => 2
  | info => 3
  | debug => 4
  | trace => 5

/-- The word in front of an event. -/
def word : Level → Text
  | error => "ERROR".toList
  | warn => "WARN".toList
  | info => "INFO".toList
  | debug => "DEBUG".toList
  | trace => "TRACE".toList

/-- The level of a word in any case of its letters. -/
def ofWord? (t : Text) : Option Level :=
  [error, warn, info, debug, trace].find? fun level => level.word.sameIgnoringCase t

end Level

/-- The last level that is shown; nothing is shown without one. -/
abbrev Threshold := Option Level

namespace Threshold

/-- The threshold that a word stands for: a level, or nothing at all. -/
def ofWord? (t : Text) : Option Threshold :=
  if Text.sameIgnoringCase t "off".toList then some none else (Level.ofWord? t).map some

/-- What a threshold for this program starts with. -/
def ownTarget : Text := "docgen".toList

/-- The threshold that a setting asks for: a word, or a word for this program behind its name and an
equals sign. Without a setting, and with a word that is not known, warnings are shown; a setting for
another program shows nothing. -/
def ofSetting : Option Text → Threshold
  | none => some .warn
  | some setting =>
    match Threshold.ofWord? setting with
    | some threshold => threshold
    | none =>
      if setting = [] then some .error
      else if setting = ownTarget then some .trace
      else if (ownTarget ++ ['=']).isPrefixOf setting then
        (Threshold.ofWord? (setting.drop (ownTarget.length + 1))).getD (some .warn)
      else none

/-- Whether a threshold lets a level through. -/
def allows (t : Threshold) (level : Level) : Bool := t.any fun last => level.number ≤ last.number

end Threshold

/-- What a run reports. -/
inductive Event where
  /-- A diagnostic of a source, with the path of its file if it has one. -/
  | fault (file : Option Text) (d : Diagnostic)
  /-- A file cannot be read. -/
  | unreadable (file : Text) (cause : FileFault)
  /-- An argument is neither a path nor a pattern. -/
  | notPattern (argument : Text) (cause : Glob.Fault)
  /-- A file is going to be read. -/
  | reading (file : Text)
  /-- A diagnostic, when it is met. -/
  | faultMet (d : Diagnostic)
  /-- A block of an item, with the line in which it starts. -/
  | item (line : Nat) (s : Subject)
  /-- The page of a class gets another name than that of the class. -/
  | renamed (className file : Text)
  /-- The pages are made. -/
  | rendered (format : Format) (pages : Nat)
  /-- A page is written. -/
  | wrote (file : Text)

/-- What is said of a file that cannot be read. -/
def unreadableMessage (file : Text) (fault : FileFault) : Text :=
  "cannot read ".toList ++ file ++ ": ".toList ++ fault.message

/-- A subject as it is shown in the log. -/
def Subject.shown : Subject → Text
  | project => "Project".toList
  | classNamed name => "Class(".toList ++ name.quoted ++ ")".toList
  | member kind owner name =>
    (match kind with
      | .function => "Function".toList
      | .data => "Variable".toList) ++
      " \x7b class: ".toList ++ owner.quoted ++ ", name: ".toList ++ name.quoted ++ " \x7d".toList

namespace Event

/-- How grave an event is. -/
def level : Event → Level
  | fault _ _ => .warn
  | unreadable _ _ => .warn
  | notPattern _ _ => .debug
  | reading _ => .debug
  | faultMet _ => .debug
  | item _ _ => .trace
  | renamed _ _ => .debug
  | rendered _ _ => .debug
  | wrote _ => .debug

/-- One character of a message. Characters that control a terminal are escaped. -/
def messageChar (c : Char) : Text :=
  match c with
  | '\x1b' => "\\x1b".toList
  | '\x07' => "\\x07".toList
  | '\x08' => "\\x08".toList
  | '\x0c' => "\\x0c".toList
  | '\x7f' => "\\x7f".toList
  | c =>
    if 0x80 ≤ c.toNat && c.toNat ≤ 0x9F then
      "\\u\x7b".toList ++ Text.hexadecimal c.toNat ++ "\x7d".toList
    else [c]

/-- The message of an event. -/
def message : Event → Text
  | fault _ d => "syntax error at ".toList ++ d.message
  | unreadable file cause =>
    unreadableMessage file cause ++ "; continuing with next input file".toList
  | notPattern _ cause => "not a glob pattern: ".toList ++ cause.message
  | reading _ => "parsing".toList
  | faultMet _ => "syntax error".toList
  | item _ _ => "doc item".toList
  | renamed _ _ => "renamed clashing class page".toList
  | rendered _ _ => "rendered".toList
  | wrote _ => "wrote page".toList

/-- The named fields of an event. -/
def fields : Event → List (Text × Text)
  | fault none _ => []
  | fault (some file) _ => [("file".toList, file)]
  | unreadable _ _ => []
  | notPattern argument _ => [("pattern".toList, argument)]
  | reading file => [("file".toList, file)]
  | faultMet d => [("err".toList, d.message)]
  | item line s => [("line".toList, Text.decimal line), ("item".toList, s.shown)]
  | renamed className file => [("class".toList, className.quoted), ("file".toList, file)]
  | rendered format pages =>
    [("format".toList, format.name.quoted), ("pages".toList, Text.decimal pages)]
  | wrote file => [("file".toList, file)]

/-- A field as it is shown. -/
def fieldText (field : Text × Text) : Text := ' ' :: field.1 ++ '=' :: field.2

/-- An event as it is shown. -/
def line (e : Event) : Text :=
  e.level.word ++ ' ' :: e.message.flatMap messageChar ++ e.fields.flatMap fieldText

/-! ## The events of a source -/

/-- What is reported while a block is read: a link that is missing, the item, and what else is
missing. -/
def ofBlock : Block → List Event
  | .broken d => [faultMet d]
  | .entry e =>
    (match e.link with
      | .faulty d => [faultMet d]
      | _ => []) ++ [item e.line e.header.subject] ++ e.fault.toList.map faultMet

/-- What is reported of a source: what is met while it is read, and its diagnostics. -/
def ofSource (file : Option Text) (source : Text) : List Event :=
  let blocks := Block.ofSource source
  blocks.flatMap ofBlock ++ (blocks.flatMap Block.faults).map (fault file)

end Event

namespace Log

/-- The lines of those events that a threshold lets through. -/
def shown (threshold : Threshold) (events : List Event) : List Text :=
  (events.filter fun e => threshold.allows e.level).map Event.line

end Log

end Docblock
