/-
# Disks

A disk is what a program can read: files with their texts, and directories.  A
directory is also there when a file lies in it, and the working directory and
the root are always there.  `Disk.read` gives the text of a file with all line
ends made line feeds, or says why there is no such text.

Two things come with a disk that are not computed here.  The homes of users are
those that the system knows.  And how much a program can nest what it reads is up
to the machine that runs it, so the documents that are too deep for that are listed.
-/

import Gamebook.Disk.Home
import Gamebook.Text.Quoted

namespace Gamebook

/-- Why a file is not read. -/
inductive DiskError where
  | notFound (path : Path)
  | notDirectory (path : Path)
  | isDirectory (path : Path)
  | nameTooLong (path : Path)
  /-- The path has a character that no file name has. -/
  | nulCharacter
  deriving Repr, DecidableEq

namespace DiskError

/-- The wording of an error. -/
def message : DiskError → String
  | notFound p => "[Errno 2] No such file or directory: " ++ Text.quote p.text
  | notDirectory p => "[Errno 20] Not a directory: " ++ Text.quote p.text
  | isDirectory p => "[Errno 21] Is a directory: " ++ Text.quote p.text
  | nameTooLong p => "[Errno 36] File name too long: " ++ Text.quote p.text
  | nulCharacter => "embedded null byte"

end DiskError

/-- The files and directories that can be read. -/
structure Disk where
  files : List (Path × String) := []
  directories : List Path := []
  /-- The files that hold documents on which the stack of the program runs out: their
  values, formulas or templates are nested too deeply, or the row of requirements that
  leads to them is too long. -/
  deep : List Path := []
  homes : Homes := []
  deriving Inhabited

namespace Disk

/-- What stands at a place. -/
inductive Node where
  | absent
  | directory
  | file (text : String)
  deriving Repr, DecidableEq

/-- The disk with files at written paths. -/
def ofTexts (files : List (String × String)) : Disk :=
  { files := files.map fun (path, text) => (Path.ofText path, text) }

/-- Whether one path leads into another, or to it. -/
def leadsInto (outer inner : Path) : Bool :=
  outer.root == inner.root && outer.parts.isPrefixOf inner.parts

/-- What stands at a path without `..`. -/
def node (d : Disk) (p : Path) : Node :=
  match d.files.lookup p with
  | some text => .file text
  | none =>
    let within := d.directories ++ d.files.map (·.1)
    if p.parts.isEmpty || within.any (leadsInto p) then .directory else .absent

/-- Walk from a directory along the parts of `p` that are left, `..` leading back;
what lies outside the working directory is absent. -/
def walk (d : Disk) (p : Path) : Path → List String → Except DiskError Path
  | here, [] => .ok here
  | here, part :: rest =>
    match d.node here with
    | .absent => .error (.notFound p)
    | .file _ => .error (.notDirectory p)
    | .directory =>
      if part = ".." then
        if here.parts.isEmpty && here.root == "" then .error (.notFound p)
        else walk d p here.parent rest
      else if part.utf8ByteSize > 255 then .error (.nameTooLong p)
      else walk d p { here with parts := here.parts ++ [part] } rest

/-- Line ends of any kind as line feeds. -/
def lineFeeds : List Char → List Char
  | '\r' :: '\n' :: rest => '\n' :: lineFeeds rest
  | '\r' :: rest => '\n' :: lineFeeds rest
  | c :: rest => c :: lineFeeds rest
  | [] => []

/-- The text that stands at a path. -/
def contents (d : Disk) (p : Path) : Except DiskError String :=
  match d.files.lookup p with
  | some text => .ok text
  | none =>
    if p.parts.any fun part => part.toList.contains '\x00' then .error .nulCharacter
    else do
      let place ← d.walk p { p with parts := [] } p.parts
      match d.node place with
      | .absent => .error (.notFound p)
      | .directory => .error (.isDirectory p)
      | .file text => return text

/-- The text of a file, line by line. -/
def read (d : Disk) (p : Path) : Except DiskError String :=
  (d.contents p).map fun text => String.ofList (lineFeeds text.toList)

end Disk
end Gamebook
