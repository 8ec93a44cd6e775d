/-
# Arguments of the command line

A command line is read in two steps.  Every word is first told apart
(`Word.ofText?`): options are named in full or by the beginning of one name
only, a value may follow an equals sign, and all words behind `--` are plain.
Then the words are consumed from the left (`Reading.consume`): an option that
wants a value takes the plain word behind it, the first plain word that is left
names the file, and any other word is one too many.

A request for help counts when it is reached, before faults further right, but
an ambiguous option is found before anything is consumed.
-/

import Gamebook.Disk.Path
import Gamebook.Decimal.Numeral

namespace Gamebook
namespace Console

/-- The options of the command line. -/
inductive Flag where
  | help
  | adventure
  | directory
  | capacity
  | logLevel
  | dump
  deriving Repr, DecidableEq

namespace Flag

/-- All options. -/
def all : List Flag := [help, adventure, directory, capacity, logLevel, dump]

/-- The name of an option. -/
def name : Flag → String
  | help => "--help"
  | adventure => "--adventure"
  | directory => "--adventure-dir"
  | capacity => "--history-capacity"
  | logLevel => "--log-level"
  | dump => "--dump"

/-- The option with a name; `-h` is another name for help. -/
def ofName? (s : String) : Option Flag :=
  if s = "-h" then some help else all.find? fun f => f.name = s

/-- The options whose names begin with a text. -/
def beginningWith (cs : List Char) : List Flag := all.filter fun f => cs.isPrefixOf f.name.toList

/-- The levels of logging that can be asked for. -/
def logLevels : List String := ["DEBUG", "INFO", "WARNING", "ERROR"]

end Flag

/-- A word of a command line. -/
inductive Word where
  | plain (text : String)
  | flag (f : Flag) (value : Option String)
  /-- Two dashes: all that follows is plain. -/
  | separator
  | unknown
  deriving Repr, DecidableEq

namespace Word

/-- Whether a text is a negative number: a minus sign and digits, among which or
before which a point may stand.  A line feed may follow. -/
def isNegativeNumber (cs : List Char) : Bool :=
  match if cs.getLast? = some '\n' then cs.dropLast else cs with
  | '-' :: digits =>
    match Text.splitAtFirst (· == '.') digits with
    | (whole, none) => !whole.isEmpty && whole.all Text.isDigit
    | (whole, some places) => whole.all Text.isDigit && !places.isEmpty && places.all Text.isDigit
  | _ => false

/-- A text that begins with a dash and names no option. -/
def ofStranger (cs : List Char) : Word :=
  if isNegativeNumber cs || cs.contains ' ' then plain (String.ofList cs) else unknown

/-- Whether the characters behind `-h` leave a request for help standing.  Those up
to the first one other than `h` are looked at; a dash ends the word too early, and
so does an equals sign behind an `h`, since help has no value. -/
def isShortHelp : List Char → Bool
  | [] => true
  | '-' :: _ => false
  | 'h' :: '=' :: _ => false
  | 'h' :: rest => isShortHelp rest
  | _ => true

/-- What a word is; nothing if it may name one option or another. -/
def ofText? (s : String) : Option Word :=
  let (before, after) := Text.splitAtFirst (· == '=') s.toList
  let value := after.map String.ofList
  match s.toList, Flag.ofName? s, Flag.ofName? (String.ofList before) with
  | _, some f, _ => some (flag f none)
  | '-' :: _ :: _, none, some f => some (flag f value)
  | '-' :: '-' :: _, none, none =>
    match Flag.beginningWith before with
    | [] => some (ofStranger s.toList)
    | [f] => some (flag f value)
    | _ => none
  | '-' :: 'h' :: behind, none, none =>
    some (flag .help (if isShortHelp behind then none else some (String.ofList behind)))
  | '-' :: _ :: _, none, none => some (ofStranger s.toList)
  | _, none, _ => some (plain s)

/-- The words of a command line. -/
def ofTexts? : List String → Option (List Word)
  | [] => some []
  | s :: rest =>
    if s = "--" then some (separator :: rest.map plain)
    else do
      let w ← ofText? s
      let ws ← ofTexts? rest
      return w :: ws

end Word

/-- What a command line asks for. -/
structure Arguments where
  file : Option Path := none
  /-- The adventure to play; an empty name leaves the choice open. -/
  adventure : String := ""
  directory : Option Path := none
  capacity : Option Int := none
  dump : Bool := false
  deriving Repr, DecidableEq

namespace Arguments

/-- The arguments with the value of an option; nothing if it cannot have that value. -/
def assign? (a : Arguments) (value : String) : Flag → Option Arguments
  | .adventure => some { a with adventure := value }
  | .directory => some { a with directory := some (Path.ofText value) }
  | .capacity => (Decimal.readWhole value).map fun n => { a with capacity := some n }
  | .logLevel => if Flag.logLevels.contains value then some a else none
  | .help | .dump => none

end Arguments

/-- What comes of a command line. -/
inductive Reading where
  | arguments (a : Arguments)
  | help
  | refused
  deriving Repr, DecidableEq

namespace Reading

/-- Consume words.  `fileOpen` says that no plain word was taken for the file, and
`surplus` that a word was one too many. -/
def consume (fileOpen surplus : Bool) (a : Arguments) : List Word → Reading
  | [] => if surplus then refused else arguments a
  | .unknown :: ws => consume fileOpen true a ws
  | .flag f none :: ws =>
    match f with
    | .help => help
    | .dump => consume fileOpen surplus { a with dump := true } ws
    | _ =>
      match ws with
      | .plain value :: ws =>
        match a.assign? value f with
        | some a => consume fileOpen surplus a ws
        | none => refused
      | _ => refused
  | .flag f (some value) :: ws =>
    match a.assign? value f with
    | some a => consume fileOpen surplus a ws
    | none => refused
  | .separator :: .plain text :: ws =>
    if fileOpen then consume false surplus { a with file := some (Path.ofText text) } ws
    else consume fileOpen true a ws
  | .separator :: ws => consume false (surplus || !fileOpen) a ws
  | .plain text :: .separator :: ws =>
    if fileOpen then consume false surplus { a with file := some (Path.ofText text) } ws
    else consume fileOpen true a ws
  | .plain text :: ws =>
    if fileOpen then consume false surplus { a with file := some (Path.ofText text) } ws
    else consume fileOpen true a ws

/-- Read a command line. -/
def ofTexts (argv : List String) : Reading :=
  match Word.ofTexts? argv with
  | none => refused
  | some ws => consume true false {} ws

end Reading
end Console
end Gamebook
