/-
# Writing JSON

Two forms of a value.  `Json.line` is one line in which every printable
character stands for itself; `Json.indented` puts every item and every member
on a line of its own, indented by two spaces a level, and writes characters
outside printable ASCII as escapes of their 16-bit units.  In both the quote, the
backslash and the control characters are escaped.
-/

import Gamebook.Json.Basic

namespace Gamebook
namespace Json

/-- The escape `\u` of a 16-bit unit. -/
def unitEscape (n : Nat) : List Char := '\\' :: 'u' :: Text.hexadecimal 4 n

/-- A character inside a JSON text, `ascii` asking for escapes outside printable ASCII. -/
def writeChar (ascii : Bool) (c : Char) : List Char :=
  if c = '"' then ['\\', '"']
  else if c = '\\' then ['\\', '\\']
  else if c = '\n' then ['\\', 'n']
  else if c = '\r' then ['\\', 'r']
  else if c = '\t' then ['\\', 't']
  else if c = '\x08' then ['\\', 'b']
  else if c = '\x0c' then ['\\', 'f']
  else if c.toNat < 0x20 then unitEscape c.toNat
  else if !ascii || c.toNat < 0x7F then [c]
  else if c.toNat < 0x10000 then unitEscape c.toNat
  else
    let n := c.toNat - 0x10000
    unitEscape (0xD800 + n / 0x400) ++ unitEscape (0xDC00 + n % 0x400)

/-- A JSON text with its quotes. -/
def writeText (ascii : Bool) (s : String) : String :=
  String.ofList ('"' :: s.toList.flatMap (writeChar ascii) ++ ['"'])

/-- A value that is no container. -/
def writeScalar (ascii : Bool) : Json → String
  | bool true => "true"
  | bool false => "false"
  | int n => Decimal.wholeText n
  | float x => Decimal.text x
  | string s => writeText ascii s
  | _ => "null"

mutual

/-- A value in one line. -/
def line : Json → String
  | array items => "[" ++ ", ".intercalate (lineItems items) ++ "]"
  | object members => "\x7b" ++ ", ".intercalate (lineMembers members) ++ "\x7d"
  | v => v.writeScalar false

/-- The items of an array in one line. -/
def lineItems : List Json → List String
  | [] => []
  | v :: rest => v.line :: lineItems rest

/-- The members of an object in one line. -/
def lineMembers : List (String × Json) → List String
  | [] => []
  | (k, v) :: rest => (writeText false k ++ ": " ++ v.line) :: lineMembers rest

end

/-- The end of a line and the indentation of the next one. -/
def newLine (level : Nat) : String := "\n" ++ String.ofList (List.replicate (2 * level) ' ')

/-- Parts on lines of their own between two brackets. -/
def block (level : Nat) (opening closing : String) (parts : List String) : String :=
  if parts.isEmpty then opening ++ closing
  else
    opening ++ newLine (level + 1) ++ ("," ++ newLine (level + 1)).intercalate parts ++
      newLine level ++ closing

mutual

/-- A value on lines of its own, at a level of indentation. -/
def indented (level : Nat) : Json → String
  | array items => block level "[" "]" (indentedItems (level + 1) items)
  | object members => block level "\x7b" "\x7d" (indentedMembers (level + 1) members)
  | v => v.writeScalar true

/-- The items of an array, at the level of an item. -/
def indentedItems (level : Nat) : List Json → List String
  | [] => []
  | v :: rest => v.indented level :: indentedItems level rest

/-- The members of an object, at the level of a member. -/
def indentedMembers (level : Nat) : List (String × Json) → List String
  | [] => []
  | (k, v) :: rest => (writeText true k ++ ": " ++ v.indented level) :: indentedMembers level rest

end

end Json
end Gamebook
