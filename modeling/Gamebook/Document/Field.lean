/-
# Fields of a document

Checks of single values, and how they are put together.  A check gives a value
of the field's type or a `Violation`: what is wrong, and the path of field names
and indices that leads to it from the value checked.  The checks of a record
stop at the first violation, so it is the first one in the order in which the
fields are declared, depth first.

A field is looked up under its names in turn, and the path names the one that
was found.
-/

import Gamebook.Diagnostic
import Gamebook.Text.Split

namespace Gamebook

/-- A step from a value to a part of it. -/
inductive Step where
  | member (name : String)
  | item (index : Nat)
  deriving Repr, DecidableEq

/-- What is wrong with a part of a value, and the way to it. -/
structure Violation where
  path : List Step := []
  problem : FieldProblem
  deriving Repr, DecidableEq

/-- A check of a value. -/
abbrev Check (α : Type) := Json → Except Violation α

/-- Refuse a value. -/
def refuse {α : Type} (problem : FieldProblem) : Except Violation α := .error { problem }

/-- A check of a part, with the step to the part before its path. -/
def within {α : Type} (step : Step) (result : Except Violation α) : Except Violation α :=
  result.mapError fun v => { v with path := step :: v.path }

namespace Check

variable {α : Type}

/-- A text. -/
def text : Check String
  | .string s => .ok s
  | _ => refuse .notText

/-- A text or nothing. -/
def textOrNull : Check (Option String)
  | .null => .ok none
  | v => (text v).map some

/-- A truth value. -/
def truth : Check Bool
  | .bool b => .ok b
  | _ => refuse .notTruth

/-- A whole number. -/
def whole : Check Int
  | .int n => .ok n
  | _ => refuse .notWhole

/-- Check the items of a list in order, the first one having an index. -/
def itemsFrom (check : Check α) : Nat → List Json → Except Violation (List α)
  | _, [] => .ok []
  | i, v :: rest => do
    let x ← within (.item i) (check v)
    let xs ← itemsFrom check (i + 1) rest
    return x :: xs

/-- A list with items of one kind. -/
def listOf (check : Check α) : Check (List α)
  | .array items => itemsFrom check 0 items
  | _ => refuse .notList

/-- The first of some names under which an object has a member, and the member. -/
def find? (members : List (String × Json)) (names : List String) : Option (String × Json) :=
  names.findSome? fun name => (members.lookup name).map fun v => (name, v)

/-- A field that has to be present. -/
def required (members : List (String × Json)) (name : String) (check : Check α) :
    Except Violation α :=
  within (.member name) <|
    match members.lookup name with
    | some v => check v
    | none => refuse .missing

/-- A field that may be missing, under any of its names. -/
def optional (members : List (String × Json)) (names : List String) (default : α)
    (check : Check α) : Except Violation α :=
  match find? members names with
  | some (name, v) => within (.member name) (check v)
  | none => .ok default

/-- A text that is not blank. -/
def filledText (field : String) : Check String := fun v => do
  let s ← text v
  if Text.isBlankText s then refuse (.blank field) else return s

/-- A text that, without the blanks around it, is a name. -/
def name : Check String := fun v => do
  let s ← text v
  let trimmed := Text.trim s
  if trimmed = "" then refuse (.blank "name")
  else if ':' ∈ trimmed.toList then refuse .colonInName
  else if trimmed.toList.all (fun c => c.isAlphanum || c == '_') then return trimmed
  else refuse .nameAlphabet

/-- The texts of a list that holds nothing else. -/
def texts? : List Json → Option (List String)
  | [] => some []
  | .string s :: rest => (texts? rest).map (s :: ·)
  | _ :: _ => none

/-- Statements: nothing, one text or a list of texts, without the blank ones. -/
def statements : Check (List String)
  | .null => .ok []
  | .string s => .ok (if Text.isBlankText s then [] else [s])
  | .array items =>
    match texts? items with
    | some ss => .ok (ss.filter fun s => !Text.isBlankText s)
    | none => refuse .notStatements
  | _ => refuse .notStatements

/-- Names without the blanks around them and without the blank ones. -/
def tidy (ss : List String) : List String :=
  (ss.filter fun s => !Text.isBlankText s).map Text.trim

/-- Names: nothing, one text that commas and semicolons divide, or a list of
texts. -/
def names : Check (List String)
  | .null => .ok []
  | .string s =>
    .ok (tidy ((s.toList.splitOnP fun c => c == ',' || c == ';').map String.ofList))
  | .array items =>
    match texts? items with
    | some ss => .ok (tidy ss)
    | none => refuse .notStatements
  | _ => refuse .notStatements

/-- The texts of a list come back from the array that holds them. -/
@[simp] theorem texts?_map_string (ss : List String) : texts? (ss.map Json.string) = some ss := by
  induction ss with
  | nil => rfl
  | cons s rest ih => simp [texts?, ih]

end Check
end Gamebook
