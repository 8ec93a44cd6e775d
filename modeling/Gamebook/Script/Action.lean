/-
# Actions

An action assigns the value of an arithmetic expression to a variable, as in
`gold += 3 * level`.  Blanks do not matter.  The text is cut at its first
assignment sign: what stands before it names the target, what stands behind it
is the expression.  A compound sign combines the target's old number with the
expression's value.

A list of actions is written with commas or semicolons between its statements,
in one text or in several.
-/

import Gamebook.Formula.Program

namespace Gamebook

namespace Arithmetic

/-- Tokens of arithmetic: unsigned numbers and five operators. -/
def alphabet : Alphabet := ⟨Lexeme.unsigned, ["-", "+", "*", "/", "%"]⟩

/-- Signs bind tighter than products and remainders, and these tighter than
sums. -/
def grammar : Grammar UnaryOp InfixOp where
  unary := [("-", ⟨.neg, 3, true⟩), ("+", ⟨.pos, 3, true⟩)]
  binary :=
    [("+", ⟨.apply .add, 1, false⟩), ("-", ⟨.apply .sub, 1, false⟩), ("*", ⟨.apply .mul, 2, false⟩),
     ("/", ⟨.apply .div, 2, false⟩), ("%", ⟨.apply .mod, 2, false⟩)]

/-- Compile an expression inside a scope. -/
def compile (scope text : String) : Compile Program := do
  let place := (← get).innermost
  let source := Text.compact text
  if source = "" then
    Compile.fail place (.blankExpression text)
  else
    let ts ← alphabet.tokenize place source
    let es ← grammar.order place source ts
    let e ← Expr.ofPostfix scope place source es
    return Program.ofExpr source e

end Arithmetic

/-- The assignment signs. -/
inductive Assignment where
  | set
  | add
  | sub
  | mul
  | div
  deriving Repr, DecidableEq

namespace Assignment

/-- How a sign is written. -/
def symbol : Assignment → String
  | set => "="
  | add => "+="
  | sub => "-="
  | mul => "*="
  | div => "/="

/-- The operator that a compound sign applies to the old number and the value. -/
def operator? : Assignment → Option BinaryOp
  | set => none
  | add => some .add
  | sub => some .sub
  | mul => some .mul
  | div => some .div

/-- The sign that a text starts with, and what follows it. -/
def take? : List Char → Option (Assignment × List Char)
  | '+' :: '=' :: rest => some (add, rest)
  | '-' :: '=' :: rest => some (sub, rest)
  | '*' :: '=' :: rest => some (mul, rest)
  | '/' :: '=' :: rest => some (div, rest)
  | '=' :: rest => some (set, rest)
  | _ => none

/-- The text before the first sign, the sign, and the text behind it. -/
def split? : List Char → Option (List Char × Assignment × List Char)
  | [] => none
  | c :: cs =>
    match take? (c :: cs) with
    | some (sign, rest) => some ([], sign, rest)
    | none => (split? cs).map fun (before, sign, after) => (c :: before, sign, after)

end Assignment

/-- A compiled assignment. -/
structure Action where
  source : String
  target : Identifier
  sign : Assignment
  program : Program

namespace Action

/-- Compile an action inside a scope. -/
def compile (scope text : String) : Compile Action := do
  let source := Text.compact text
  match Assignment.split? source.toList with
  | some (c :: before, sign, d :: after) => do
    let target ← Identifier.resolve scope (.string (String.ofList (c :: before)))
    let program ← Arithmetic.compile scope (String.ofList (d :: after))
    return ⟨source, target, sign, program⟩
  | _ => Compile.failHere (.malformedAction text)

/-- The number that an action assigns.  The expression is evaluated before the
target is read. -/
def value (a : Action) (s : Store) : Except EvalError Float := do
  let x ← (← a.program.run s).toNumber
  match a.sign.operator? with
  | none => return x
  | some op =>
    match s.get? a.target with
    | none => .error (.undefined a.target)
    | some old => (← op.onNumbers old x).toNumber

/-- Evaluate an action: its number and the store with the number assigned. -/
def evaluate (a : Action) (s : Store) : Except EvalError (Float × Store) := do
  let x ← a.value s
  return (x, s.insert a.target x)

/-- The store that actions leave, one after the other, and the error that
stopped them, if one did. -/
def runAll : List Action → Store → Option EvalError × Store
  | [], s => (none, s)
  | a :: rest, s =>
    match a.evaluate s with
    | .ok (_, s) => runAll rest s
    | .error e => (some e, s)

/-- An action that has a number leaves its store to those behind it. -/
theorem runAll_cons_of_ok {a : Action} {s t : Store} {x : Float} (h : a.evaluate s = .ok (x, t))
    (rest : List Action) : runAll (a :: rest) s = runAll rest t := by
  rw [runAll, h]

/-- An action that has none stops those behind it. -/
theorem runAll_cons_of_error {a : Action} {s : Store} {e : EvalError}
    (h : a.evaluate s = .error e) (rest : List Action) : runAll (a :: rest) s = (some e, s) := by
  rw [runAll, h]

/-- Whether a character stands between statements. -/
def isSeparator (c : Char) : Bool := c == ',' || c == ';'

/-- The statements of one text, without blanks and without the empty ones. -/
def splitChars (cs : List Char) : List (List Char) :=
  ((cs.splitOnP isSeparator).map Text.compactChars).filter fun piece => !piece.isEmpty

/-- The statements of texts, in order. -/
def statements (texts : List String) : List String :=
  texts.flatMap fun text => (splitChars text.toList).map String.ofList

/-- Compile the statements of texts, in order. -/
def compileAll (scope : String) (texts : List String) : Compile (List Action) :=
  (statements texts).mapM (compile scope)

/-- Statements as they may be given: not at all, in one text or in several. -/
inductive Script where
  | nothing
  | text (s : String)
  | texts (ss : List String)

namespace Script

/-- Whether nothing is given, be it an empty text or no texts. -/
def isEmpty : Script → Bool
  | nothing => true
  | text s => s == ""
  | texts ss => ss.isEmpty

/-- The texts in which statements are given. -/
def chunks : Script → List String
  | nothing => []
  | text s => [s]
  | texts ss => ss

/-- The statements that are given, in order.  Where nothing is given, nothing is split. -/
def statements (s : Script) : List String :=
  if s.isEmpty then [] else Action.statements s.chunks

/-- Compile the statements that are given, in order. -/
def compile (scope : String) (s : Script) : Compile (List Action) :=
  s.statements.mapM (Action.compile scope)

/-- Nothing is lost where nothing is split. -/
theorem statements_eq (s : Script) : s.statements = Action.statements s.chunks := by
  rw [statements]
  split
  · rename_i hempty
    cases s with
    | nothing => rfl
    | text s =>
      obtain rfl := eq_of_beq hempty
      rfl
    | texts ss =>
      obtain rfl := List.isEmpty_iff.1 hempty
      rfl
  · rfl

/-- Texts are compiled statement by statement. -/
theorem compile_eq (scope : String) (s : Script) : s.compile scope = compileAll scope s.chunks := by
  rw [compile, statements_eq, compileAll]

end Script
end Action
end Gamebook
