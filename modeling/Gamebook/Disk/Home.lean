/-
# Home directories

A path may start at a home: `~` is that of who runs the program, and `~name` that of a user.
Homes are known from a table of users, and the variable `HOME` of the environment says where
one's own is (`Homes.withEnvironment`).  `Path.expand` puts the home in the place of the part
that stands for it, and fails where no home is known.
-/

import Gamebook.Disk.Path

namespace Gamebook

/-- The homes of users by their names; who runs the program has the empty name. -/
abbrev Homes := List (String × String)

/-- Why no home is found. -/
inductive HomeError where
  /-- The home of the user is not known, or what is known of it starts at a home again. -/
  | unknown
  /-- The name of the user has a character that no name has. -/
  | nulCharacter
  deriving Repr, DecidableEq

/-- The wording of an error. -/
def HomeError.message : HomeError → String
  | unknown => "Could not determine home directory."
  | nulCharacter => "embedded null byte"

namespace Homes

/-- The variable that holds one's own home. -/
def variableName : String := "HOME"

/-- The homes, one's own being where the environment says, if it says so. -/
def withEnvironment (environment : List (String × String)) (homes : Homes) : Homes :=
  match environment.lookup variableName with
  | some home => ("", home) :: homes
  | none => homes

/-- The directory that the text of a home names; slashes alone name the root, and so does a
text without any character. -/
def directory (home : String) : Path :=
  if home.toList.all (· == '/') then { root := "/" } else Path.ofText home

/-- The home of a user. -/
def find (homes : Homes) (user : String) : Except HomeError Path :=
  -- such a name is refused before the table is looked at
  if user.toList.contains '\x00' then .error .nulCharacter
  else
    match homes.lookup user with
    | some home => if home.toList.head? = some '~' then .error .unknown else .ok (directory home)
    | none => .error .unknown

/-- The homes in a table of users.  A line has seven fields that colons part, the name first
and the home last but one. -/
def ofTable (table : String) : Homes :=
  (table.toList.splitOnP (· == '\n')).filterMap fun line =>
    match line.splitOnP (· == ':') with
    | [name, _, _, _, _, home, _] => some (String.ofList name, String.ofList home)
    | _ => none

end Homes

namespace Path

/-- The user at whose home a path starts. -/
def user? (p : Path) : Option String :=
  match p.root, p.parts with
  | "", part :: _ =>
    match part.toList with
    | '~' :: name => some (String.ofList name)
    | _ => none
  | _, _ => none

/-- The path with the home where it starts written out. -/
def expand (homes : Homes) (p : Path) : Except HomeError Path :=
  match p.user? with
  | none => .ok p
  | some user => do
    let home ← homes.find user
    return { home with parts := home.parts ++ p.parts.tail }

end Path
end Gamebook
