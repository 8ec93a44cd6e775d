/-
# Identifiers

Variables and scenes are named by a pair of segments, written `scope:name`.  A
segment is a run of ASCII letters, digits and underscores; one line feed may
stand behind the run.  Identifiers are ordered by their written form, in which
the colon sorts between the digits and the letters.

Three readers accept a written identifier.  `ofCanonical` wants both segments,
`resolve` supplies a scope for a bare name and leaves the text it read in the
context, and `isCanonical` only answers whether the text has the canonical
form, in which the scope has no line feed behind it.
-/

import Gamebook.Diagnostic

namespace Gamebook

/-- A character of a segment. -/
def isWordChar (c : Char) : Bool := c.isAlphanum || c == '_'

/-- A run of one or more segment characters. -/
def isWord (cs : List Char) : Bool := !cs.isEmpty && cs.all isWordChar

/-- A run of segment characters that may have a line feed behind it. -/
def isSegmentChars (cs : List Char) : Bool :=
  isWord (if cs.getLast? = some '\n' then cs.dropLast else cs)

/-- Whether a text is a segment. -/
def isSegment (s : String) : Bool := isSegmentChars s.toList

/-- A pair of segments. -/
structure Identifier where
  scope : String
  name : String
  scope_isSegment : isSegment scope = true
  name_isSegment : isSegment name = true
  deriving DecidableEq

namespace Identifier

/-- The written form. -/
def canonical (i : Identifier) : String := i.scope ++ ":" ++ i.name

instance : LT Identifier := ⟨fun i j => i.canonical < j.canonical⟩

instance (i j : Identifier) : Decidable (i < j) :=
  inferInstanceAs (Decidable (i.canonical < j.canonical))

/-- The identifier of two texts that are segments. -/
def ofSegments? (scope name : String) : Option Identifier :=
  if h : isSegment scope = true ∧ isSegment name = true then some ⟨scope, name, h.1, h.2⟩ else none

/-- The diagnostic for a value that is no segment. -/
def malformedPart (part : String) (value : Json) : Diagnostic :=
  ⟨.identifier, .malformedPart part value, { identifier := .string value.tag }⟩

/-- The text that a value is, if it is a segment. -/
def segment? (value : Json) : Option { s : String // isSegment s = true } :=
  match value with
  | .string s => if h : isSegment s = true then some ⟨s, h⟩ else none
  | _ => none

/-- The identifier of two values, the scope being looked at first. -/
def ofParts (scope name : Json) : Except Diagnostic Identifier :=
  match segment? scope, segment? name with
  | some s, some n => .ok ⟨s, n, s.2, n.2⟩
  | none, _ => .error (malformedPart "namespace" scope)
  | some _, none => .error (malformedPart "name" name)

/-- The identifier with a written form, which is cut at its first colon. -/
def ofCanonical (value : Json) : Except Diagnostic Identifier :=
  let malformed :=
    .error ⟨.identifier, .malformedCanonical value, { identifier := .string value.tag }⟩
  match value with
  | .string s =>
    match Text.splitAtFirst (· == ':') s.toList with
    | (scope, some name) => ofParts (.string (String.ofList scope)) (.string (String.ofList name))
    | (_, none) => malformed
  | _ => malformed

/-- Whether a text is the canonical form of an identifier whose scope is a
plain run of segment characters. -/
def isCanonical (s : String) : Bool :=
  match Text.splitAtFirst (· == ':') s.toList with
  | (scope, some name) => isWord scope && isSegmentChars name
  | (_, none) => false

/-- The identifier that a text names inside a scope: `name` is completed by the
scope, `scope:name` stands as it is, and more than one colon is refused. -/
def ofText? (scope raw : String) : Option Identifier :=
  match raw.toList.splitOnP (· == ':') with
  | [name] => ofSegments? scope (String.ofList name)
  | [own, name] => ofSegments? (String.ofList own) (String.ofList name)
  | _ => none

/-- Read an identifier inside a scope.  What was read becomes the context's
identifier, whether it is well formed or not. -/
def resolve (scope : String) (raw : Json) : Compile Identifier := do
  modify (·.visit raw)
  match raw with
  | .string s =>
    match ofText? scope s with
    | some i => pure i
    | none => Compile.fail .identifier (.malformedIdentifier s)
  | v => Compile.fail .identifier (.identifierNotText v.kind)

/-- Reading a well-formed text gives its identifier and leaves the text in the
context. -/
theorem resolve_eq_ok {scope s : String} {i : Identifier} (h : ofText? scope s = some i)
    (c : Context) : (resolve scope (.string s)).run c = .ok (i, c.visit (.string s)) := by
  unfold resolve
  simp only [StateT.run_bind, StateT.run_modify]
  simp [h]
  rfl

/-- Reading any other text fails at the identifier. -/
theorem resolve_eq_error {scope s : String} (h : ofText? scope s = none) (c : Context) :
    (resolve scope (.string s)).run c =
      .error ⟨.identifier, .malformedIdentifier s, c.visit (.string s)⟩ := by
  unfold resolve
  simp only [StateT.run_bind, StateT.run_modify]
  simp [h]
  rfl

end Identifier
end Gamebook
