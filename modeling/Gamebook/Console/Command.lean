/-
# The command

The program at the console loads an adventure, links it and plays it, or prints
what was loaded.  `Command.start` does everything up to the first line that the
player has to give, and `Command.conclude` says how the program ends once the
play is over; between the two the play goes on with `Stage.answer`.

The exit code is 2 if no play could begin, 1 if a play could not go on, and 0
otherwise.  Faults that the program has no words for are not caught.

What is logged is left out, and the level of logging is only checked.  So is the
usage that is shown with arguments that are refused.  All lines can be written: texts
here are made of characters, of which the console has each, and none holds half of a
surrogate pair.  The stack is looked at where documents are loaded (`Disk.deep`) and
nowhere else.
-/

import Gamebook.Console.Arguments
import Gamebook.Console.Help
import Gamebook.Json.Writer
import Gamebook.Play.Turn

namespace Gamebook
namespace Console

/-- How the program ends: the last lines it writes and its exit code. -/
structure Exit where
  lines : List String
  code : Nat
  deriving Repr, DecidableEq

/-- What comes of starting the program. -/
inductive Command where
  | exit (e : Exit)
  | play (stage : Stage) (passage : Passage)
  | uncaught (f : Fault)

namespace Command

/-- The settings that the environment gives, those on the command line in their place. -/
def settingsOf (a : Arguments) (environment : List (String × String)) (disk : Disk) :
    Except SettingsError Settings := do
  let s ← Settings.ofEnvironment environment (disk.homes.withEnvironment environment)
  Settings.check
    { s with
      adventureDirectory := a.directory.or s.adventureDirectory,
      historyCapacity := a.capacity.getD s.historyCapacity }

/-- Load and link what is to be played. -/
def prepare (a : Arguments) : Request Adventure := do
  let adventure ← match a.file with
    | some path => Request.loadFile path
    | none => Request.loadBundled "demo"
  Request.link
  return adventure

/-- The end of the program after settings that are not in order.  Only refusals are
caught, and a home that is not known is none. -/
def unsettled : SettingsError → Command
  | .home .unknown => .uncaught .noHome
  | e => .exit ⟨["Invalid configuration: " ++ e.message], 2⟩

/-- The end of the program after a failure before the play. -/
def refuse (a : Arguments) : Fault → Command
  | .document d => .exit ⟨[d.report], 2⟩
  | .evaluation e => .exit ⟨["Failed to initialise adventure variables: " ++ e.message], 2⟩
  | .disk .nulCharacter => .uncaught (.disk .nulCharacter)
  | .disk e =>
    let file := (a.file.map Path.text).getD "None"
    .exit ⟨["Failed to load adventure '" ++ file ++ "': " ++ e.message], 2⟩
  | f => .uncaught f

/-- The files that the program asks for once those on the disk are known to it:
the adventure's own and, in the directory of what is required, the files of all
that the known ones require. -/
def wanted (argv : List String) (environment : List (String × String)) (disk : Disk) : List Path :=
  match Reading.ofTexts argv with
  | .arguments a =>
    match a.file, settingsOf a environment disk with
    | some file, .ok s =>
      let directory := s.adventureDirectory.getD file.parent
      let names := disk.files.flatMap fun (_, text) => Library.requiredBy text
      file :: names.map (Library.fileOf directory)
    | _, _ => []
  | _ => []

/-- The loaded adventures as a document. -/
def dump (s : Session) : Json :=
  let loaded := s.story.adventures.filter fun a => a.name != Control.scope
  .array (loaded.map fun a => a.toJson s.story.registry)

/-- Start the program. -/
def start (argv : List String) (environment : List (String × String)) (disk : Disk) : Command :=
  match Reading.ofTexts argv with
  | .help => .exit ⟨helpLines, 0⟩
  | .refused => .exit ⟨[], 2⟩
  | .arguments a =>
    match settingsOf a environment disk with
    | .error e => unsettled e
    | .ok settings =>
      match (prepare a).run.run (Session.start settings none disk) with
      | (.error f, _) => refuse a f
      | (.ok adventure, s) =>
        if a.dump then .exit ⟨[(dump s).indented 0], 0⟩
        else
          let name := if a.adventure = "" then adventure.name else a.adventure
          match s.story.find? name with
          | none => .exit ⟨[Session.notLoaded name], 2⟩
          | some chosen => .play (s.stage chosen) (s.begin chosen)

/-- The end of the program after a play. -/
def conclude : Except Fault Outcome → Except Fault Exit
  | .ok .notFound => .ok ⟨[], 2⟩
  | .ok _ => .ok ⟨["Adventure ended"], 0⟩
  | .error .endOfInput => .ok ⟨["", "Adventure ended"], 0⟩
  | .error (.evaluation e) => .ok ⟨["The adventure cannot continue: " ++ e.message], 1⟩
  | .error (.impasse i) => .ok ⟨["The adventure cannot continue: " ++ i.message], 1⟩
  | .error f => .error f

/-- The whole program, for lines that the player gives. -/
def run (argv : List String) (environment : List (String × String)) (disk : Disk)
    (answers : List String) : Except Fault Exit :=
  match start argv environment disk with
  | .exit e => .ok e
  | .uncaught f => .error f
  | .play stage passage => do
    let t := stage.play answers passage
    let e ← conclude t.result
    return ⟨t.lines ++ e.lines, e.code⟩

end Command
end Console
end Gamebook
