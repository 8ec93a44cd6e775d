/-
# Values of documents

A document is a JSON value.  Whole numbers and numbers with a fraction or an
exponent stay apart, since a document's version has to be whole, and the
members of an object keep the order in which they were written, each key once.

`Json.inspect` is how a value appears inside a message, and `Json.tag` how it
appears where a text is expected: a text without its quotes.
-/

import Gamebook.Decimal.Numeral
import Gamebook.Text.Quoted

namespace Gamebook

/-- A JSON value. -/
inductive Json where
  | null
  | bool (b : Bool)
  | int (n : Int)
  | float (x : Float)
  | string (s : String)
  | array (items : List Json)
  | object (members : List (String × Json))
  deriving Inhabited

namespace Json

/-- The member of an object under a key; nothing for other values. -/
def get? (key : String) : Json → Option Json
  | object members => members.lookup key
  | _ => none

/-- The text that a value is. -/
def string? : Json → Option String
  | string s => some s
  | _ => none

/-- The members of an object. -/
def members? : Json → Option (List (String × Json))
  | object members => some members
  | _ => none

/-- The items of an array. -/
def items? : Json → Option (List Json)
  | array items => some items
  | _ => none

/-- The name of a value's kind. -/
def kind : Json → String
  | null => "NoneType"
  | bool _ => "bool"
  | int _ => "int"
  | float _ => "float"
  | string _ => "str"
  | array _ => "list"
  | object _ => "dict"

/-- Whether a value says anything: all do but `null`, `false`, zero and what is
empty. -/
def isTelling : Json → Bool
  | null => false
  | bool b => b
  | int n => n != 0
  | float x => !(x == 0)
  | string s => s != ""
  | array items => !items.isEmpty
  | object members => !members.isEmpty

mutual

/-- A value inside a message. -/
def inspect : Json → String
  | null => "None"
  | bool true => "True"
  | bool false => "False"
  | int n => Decimal.wholeText n
  | float x => Decimal.text x
  | string s => Text.quote s
  | array items => "[" ++ ", ".intercalate (inspectItems items) ++ "]"
  | object members => "\x7b" ++ ", ".intercalate (inspectMembers members) ++ "\x7d"

/-- The items of an array inside a message. -/
def inspectItems : List Json → List String
  | [] => []
  | v :: rest => v.inspect :: inspectItems rest

/-- The members of an object inside a message. -/
def inspectMembers : List (String × Json) → List String
  | [] => []
  | (k, v) :: rest => (Text.quote k ++ ": " ++ v.inspect) :: inspectMembers rest

end

/-- A value where a text is expected. -/
def tag : Json → String
  | string s => s
  | v => v.inspect

end Json
end Gamebook
