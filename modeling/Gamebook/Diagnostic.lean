/-
# Diagnostics

A diagnostic says what is wrong with a document (`Cause`), at which level of
the document (`Place`), and where the compiler stood when it noticed
(`Context`).  The levels, from the inside out, are an identifier, an option, a
scene and an adventure.

The wording of every cause is in `Cause.message`.  `Diagnostic.describe` is the
message with the known part of the context behind it, `Diagnostic.report` the
lines shown to an author, which walk outwards from the failing level.
-/

import Gamebook.Json.Basic

namespace Gamebook

/-- The levels of a document, from the innermost to the outermost. -/
inductive Place where
  | identifier
  | option
  | scene
  | adventure
  deriving Repr, DecidableEq

namespace Place

/-- All levels, from the innermost to the outermost. -/
def all : List Place := [identifier, option, scene, adventure]

/-- The name of a level. -/
def name : Place → String
  | identifier => "identifier"
  | option => "option"
  | scene => "scene"
  | adventure => "adventure"

/-- The name of a level at the start of a line. -/
def title : Place → String
  | identifier => "Identifier"
  | option => "Option"
  | scene => "Scene"
  | adventure => "Adventure"

/-- The level with a name. -/
def ofName? (s : String) : Option Place := all.find? fun p => p.name = s

/-- A level and the levels around it. -/
def outwards : Place → List Place
  | identifier => [identifier, option, scene, adventure]
  | option => [option, scene, adventure]
  | scene => [scene, adventure]
  | adventure => [adventure]

end Place

/-- Where in a document the compiler stands; an empty tag means that it is not
inside such a level.  The identifier is the one read last, as it was written. -/
structure Context where
  adventure : String := ""
  scene : String := ""
  option : String := ""
  identifier : Json := .string ""
  deriving Inhabited

namespace Context

/-- The tag of a level. -/
def tag (c : Context) : Place → Json
  | .identifier => c.identifier
  | .option => .string c.option
  | .scene => .string c.scene
  | .adventure => .string c.adventure

/-- The innermost record that the compiler is in. -/
def innermost (c : Context) : Place :=
  if c.option != "" then .option
  else if c.scene != "" then .scene
  else .adventure

/-- The context after an identifier was read. -/
def visit (c : Context) (raw : Json) : Context := { c with identifier := raw }

end Context

/-- What can be wrong with one field of a document. -/
inductive FieldProblem where
  | missing
  | notText
  | notWhole
  | notTruth
  | notList
  | noItem
  | notScene
  | notOption
  | blank (field : String)
  | colonInName
  | nameAlphabet
  | notStatements
  | version (n : Int)
  deriving Repr, DecidableEq

/-- The wording of a field's problem. -/
def FieldProblem.message : FieldProblem → String
  | missing => "Field required"
  | notText => "Input should be a valid string"
  | notWhole => "Input should be a valid integer"
  | notTruth => "Input should be a valid boolean"
  | notList => "Input should be a valid list"
  | noItem => "List should have at least 1 item after validation, not 0"
  | notScene => "Input should be a valid dictionary or instance of SceneDocument"
  | notOption => "Input should be a valid dictionary or instance of OptionDocument"
  | blank field => field ++ " is a required field."
  | colonInName => "name cannot contain a colon."
  | nameAlphabet => "name may only contain letters, digits and underscores."
  | notStatements => "must be a string or a list of strings."
  | version n => "invalid version number: " ++ Decimal.wholeText n

/-- The families of causes. -/
inductive Family where
  | general
  | identifier
  | expression
  | document
  | link
  deriving Repr, DecidableEq

/-- What is wrong with a document. -/
inductive Cause where
  /-- A part of an identifier is no segment. -/
  | malformedPart (part : String) (value : Json)
  /-- A canonical identifier has no colon. -/
  | malformedCanonical (value : Json)
  | identifierNotText (kind : String)
  | malformedIdentifier (raw : String)
  | unexpectedCharacter (c : Char) (source : String)
  | mismatchedParentheses (source : String)
  | unexpectedOperator (symbol source : String)
  | missingOperand (symbol source : String)
  | emptyExpression (source : String)
  | strayOperands (source : String)
  | blankExpression (text : String)
  | malformedAction (text : String)
  | unboundedRange (name condition : String)
  | looseRange (condition : String)
  | truthCompared (symbol source : String)
  | malformedCondition (value : Json)
  | unterminatedMarker (source : String)
  | missingBranch (body : String)
  | templateNotText (kind : String)
  | field (name : String) (problem : FieldProblem)
  | notAnObject
  | repeatedScene (identifier : String)
  | alreadyLoaded (name : String)
  | noSource (name : String)
  | misnamed (name : String) (declared : Json)
  | unavailable (name : String)
  | notFoundAt (name path : String)
  | fileNotJson (path problem : String)
  | fileNotObject (path : String)
  | unknownScene (identifier : String)
  | unlinkedScene (identifier : String)
  /-- A failure that a host reports in words of its own. -/
  | reported (family : Family) (text : String)

namespace Cause

/-- The family of a cause. -/
def family : Cause → Family
  | malformedPart .. | malformedCanonical _ | identifierNotText _ | malformedIdentifier _ =>
    .identifier
  | unexpectedCharacter .. | mismatchedParentheses _ | unexpectedOperator .. | missingOperand ..
  | emptyExpression _ | strayOperands _ | blankExpression _ | malformedAction _
  | unboundedRange .. | looseRange _ | truthCompared .. | malformedCondition _
  | unterminatedMarker _ | missingBranch _ | templateNotText _ => .expression
  | field .. | notAnObject | repeatedScene _ | alreadyLoaded _ | noSource _ | misnamed ..
  | unavailable _ | notFoundAt .. | fileNotJson .. | fileNotObject _ => .document
  | unknownScene _ | unlinkedScene _ => .link
  | reported family _ => family

/-- The wording of a cause. -/
def message : Cause → String
  | malformedPart part value => "Malformed identifier " ++ part ++ ": " ++ value.inspect
  | malformedCanonical value => "Malformed identifier: " ++ value.tag
  | identifierNotText kind => "Identifier must be a string, got " ++ kind ++ "."
  | malformedIdentifier raw => "Malformed identifier " ++ raw ++ "."
  | unexpectedCharacter c source =>
    "Unexpected character " ++ Text.quote (String.singleton c) ++ " in expression: " ++ source
  | mismatchedParentheses source => "Mismatched parentheses: " ++ source
  | unexpectedOperator symbol source =>
    "Unexpected operator " ++ Text.quote symbol ++ " in expression: " ++ source
  | missingOperand symbol source =>
    "Operator " ++ Text.quote symbol ++ " is missing an operand: " ++ source
  | emptyExpression source => "Empty expression: " ++ source
  | strayOperands source => "Expression has operands without an operator: " ++ source
  | blankExpression text => "Invalid expression: " ++ Text.quote text
  | malformedAction text => "Malformed action: " ++ text
  | unboundedRange name condition =>
    "Range for " ++ name ++ " needs at least one bound: " ++ condition
  | looseRange condition => "Invalid range syntax: " ++ condition
  | truthCompared symbol source =>
    "Invalid operands for comparison " ++ Text.quote symbol ++ ": " ++ source
  | malformedCondition value => "Malformed conditional: " ++ value.inspect
  | unterminatedMarker source => "Unterminated text marker in: " ++ source
  | missingBranch body => "Inline conditional is missing '?': " ++ body
  | templateNotText kind => "Text must be a string, got " ++ kind ++ "."
  | field name problem => name ++ ": " ++ problem.message
  | notAnObject => "Adventure documents must contain an object at the top level."
  | repeatedScene identifier => "Scene identifiers must be unique and " ++ identifier ++ " is not."
  | alreadyLoaded name => "An adventure with the name " ++ name ++ " is already loaded."
  | noSource name =>
    "Cannot load required adventure " ++ name ++ ": no adventure source is configured."
  | misnamed name declared =>
    "Required adventure " ++ name ++ " declares the name " ++ declared.inspect ++ "."
  | unavailable name => "No adventure document named " ++ name ++ " is available."
  | notFoundAt name path => "Required adventure " ++ name ++ " was not found at '" ++ path ++ "'."
  | fileNotJson path problem => "Adventure file '" ++ path ++ "' is not valid JSON: " ++ problem
  | fileNotObject path => "Adventure file '" ++ path ++ "' must contain an object at the top level."
  | unknownScene identifier => "Unknown scene " ++ identifier ++ "."
  | unlinkedScene identifier => "Scene reference " ++ identifier ++ " has not been linked."
  | reported _ text => text

end Cause

/-- A cause at a level of a document, with the context in which it was noticed. -/
structure Diagnostic where
  place : Place
  cause : Cause
  context : Context := {}

namespace Diagnostic

/-- The message with the tags of the context that are not empty, from the
outermost to the innermost. -/
def describe (d : Diagnostic) : String :=
  let tags := Place.all.reverse.filterMap fun p =>
    let t := d.context.tag p
    if t.isTelling then some (p.name ++ "=" ++ t.tag) else none
  d.cause.message ++ (if tags.isEmpty then "" else " (" ++ ", ".intercalate tags ++ ")")

/-- The lines shown to an author. -/
def report (d : Diagnostic) : String :=
  let line (p : Place) : String :=
    let t := d.context.tag p
    p.title ++ ": " ++ (if t.isTelling then t.tag else "unknown")
  "\n".intercalate
    (("ParserError in " ++ d.place.name ++ ": " ++ d.cause.message) :: d.place.outwards.map line)

end Diagnostic

/-- A computation that compiles a part of a document: it reads and moves the
context, and stops at the first diagnostic. -/
abbrev Compile := StateT Context (Except Diagnostic)

/-- Stop with a cause at a level, in the context of the moment. -/
def Compile.fail {α : Type} (place : Place) (cause : Cause) : Compile α := fun c =>
  .error ⟨place, cause, c⟩

/-- Stop with a cause at the innermost record of the context. -/
def Compile.failHere {α : Type} (cause : Cause) : Compile α := fun c =>
  .error ⟨c.innermost, cause, c⟩

namespace Compile

variable {α β : Type} {x : Compile α} {f : α → Compile β} {c c' : Context}

/-- A computation goes on with the result of its first part. -/
theorem run_bind_of_ok {a : α} (h : x.run c = .ok (a, c')) : (x >>= f).run c = (f a).run c' := by
  rw [StateT.run_bind, h]
  rfl

/-- A computation whose first part stops has stopped. -/
theorem run_bind_of_error {d : Diagnostic} (h : x.run c = .error d) :
    (x >>= f).run c = .error d := by
  rw [StateT.run_bind, h]
  rfl

end Compile
end Gamebook
