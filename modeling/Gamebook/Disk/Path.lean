/-
# Paths

A path is a root and a list of parts.  Empty parts and the part `.` say nothing
and are dropped when a path is read; `..` is kept, since what it names depends
on the disk.  A path without root and parts is the working directory, written
`.`.  Two slashes in front, but not three, are a root of their own.
-/

import Gamebook.Text.Split

namespace Gamebook

/-- A path: its root, which is empty for a relative path, and its parts. -/
structure Path where
  root : String := ""
  parts : List String := []
  deriving Repr, DecidableEq

namespace Path

/-- The root that a written path starts with. -/
def rootOf : List Char → String
  | '/' :: '/' :: '/' :: _ => "/"
  | '/' :: '/' :: _ => "//"
  | '/' :: _ => "/"
  | _ => ""

/-- The path that a text writes. -/
def ofText (s : String) : Path :=
  let pieces := (s.toList.splitOnP (· == '/')).map String.ofList
  ⟨rootOf s.toList, pieces.filter fun p => p != "" && p != "."⟩

/-- A path as text. -/
def text (p : Path) : String :=
  let s := p.root ++ "/".intercalate p.parts
  if s = "" then "." else s

/-- The path around a path. -/
def parent (p : Path) : Path := { p with parts := p.parts.dropLast }

/-- A path inside a directory; a path with a root stands for itself. -/
def join (directory p : Path) : Path :=
  if p.root = "" then { directory with parts := directory.parts ++ p.parts } else p

end Path
end Gamebook
