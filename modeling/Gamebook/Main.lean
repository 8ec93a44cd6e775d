/-
# The program

Reads the table of users and the files that the command asks for, starts it, and
then hands the player's lines to the play and the play's lines to the player.
-/

import Gamebook.Console.Command

namespace Gamebook
namespace Console

/-- The variables of the environment that settings are read from. -/
def readEnvironment : IO (List (String × String)) :=
  (Homes.variableName :: Settings.variableNames).filterMapM fun name => do
    return (← IO.getEnv name).map fun value => (name, value)

/-- The homes of users, if there is a table of them.  One's own is known from the
environment only. -/
def readHomes : IO Homes := do
  try
    return Homes.ofTable (← IO.FS.readFile "/etc/passwd")
  catch _ => return []

/-- Put what stands at a path on a disk. -/
def fetchPath (disk : Disk) (p : Path) : IO Disk := do
  try
    let text ← IO.FS.readFile p.text
    return { disk with files := disk.files ++ [(p, text)] }
  catch e =>
    match e with
    | .inappropriateType .. =>
      return { disk with directories := disk.directories ++ [p] }
    | _ => return disk

/-- Fetch the files that the command asks for until it asks for no other ones. -/
partial def fetchWanted (argv : List String) (environment : List (String × String)) (disk : Disk)
    (known : List Path) : IO Disk := do
  let fresh := (Command.wanted argv environment disk).filter fun p => !known.contains p
  if fresh.isEmpty then return disk
  let disk ← fresh.eraseDups.foldlM fetchPath disk
  fetchWanted argv environment disk (known ++ fresh)

/-- Write lines. -/
def writeLines (lines : List String) : IO Unit := lines.forM IO.println

/-- End the program. -/
def finish : Except Fault Exit → IO UInt32
  | .ok e => do
    writeLines e.lines
    return e.code.toUInt32
  | .error f => do
    IO.eprintln f.message
    return 1

/-- Go on with a play, reading a line wherever it waits for one. -/
partial def converse (stage : Stage) (passage : Passage) : IO UInt32 := do
  writeLines passage.lines
  match passage.progress with
  | .ended o => finish (Command.conclude (.ok o))
  | .failed f => finish (Command.conclude (.error f))
  | .waiting p =>
    (← IO.getStdout).flush
    let line ← (← IO.getStdin).getLine
    if line.isEmpty then finish (Command.conclude (.error .endOfInput))
    else
      let answer := String.ofList (line.toList.filter fun c => c ≠ '\n')
      converse stage (stage.answer p passage.store answer)

end Console
end Gamebook

open Gamebook Console in
/-- The command line. -/
def main (argv : List String) : IO UInt32 := do
  let environment ← readEnvironment
  let disk ← fetchWanted argv environment { homes := ← readHomes } []
  match Command.start argv environment disk with
  | .exit e => finish (.ok e)
  | .uncaught f => finish (.error f)
  | .play stage passage => converse stage passage
