/-
# Conditions

A condition is a formula of comparisons, negations and connectives, as in
`gold>=10 && !met`.  Blanks do not matter, and ranges are replaced first.
Comparisons bind tighter than `&&`, and this tighter than `||`; `!` binds
tightest.  A comparison compares numbers: an operand that is itself a truth
value is refused.
-/

import Gamebook.Formula.Program
import Gamebook.Script.Range

namespace Gamebook

/-- A compiled condition with the text it comes from. -/
structure Condition where
  source : String
  program : Program
  deriving Inhabited

namespace Condition

/-- Tokens of conditions: signed numbers, comparisons, connectives and `!`. -/
def alphabet : Alphabet :=
  ⟨Lexeme.signed, [">=", "<=", "==", "!=", "&&", "||", "=", "<", ">", "!"]⟩

/-- The operators of conditions. -/
def grammar : Grammar UnaryOp InfixOp where
  unary := [("!", ⟨.not, 4, true⟩)]
  binary :=
    [("||", ⟨.connect .or, 1, false⟩), ("&&", ⟨.connect .and, 2, false⟩),
     ("==", ⟨.apply .equal, 3, false⟩), ("=", ⟨.apply .same, 3, false⟩),
     ("!=", ⟨.apply .differ, 3, false⟩), ("<", ⟨.apply .less, 3, false⟩),
     ("<=", ⟨.apply .atMost, 3, false⟩), (">", ⟨.apply .greater, 3, false⟩),
     (">=", ⟨.apply .atLeast, 3, false⟩)]

/-- Whether the value of a tree is a number and not a truth value. -/
def isNumber : Expr → Bool
  | .number _ | .variable _ => true
  | _ => false

/-- The first comparison of a tree, operands before operators, that has an
operand which is no number. -/
def firstMisfit? : Expr → Option BinaryOp
  | .number _ | .variable _ => none
  | .unary _ e => firstMisfit? e
  | .logical _ l r => (firstMisfit? l).or (firstMisfit? r)
  | .binary op l r =>
    ((firstMisfit? l).or (firstMisfit? r)).or
      (if op.isComparison && !(isNumber l && isNumber r) then some op else none)

/-- Compile a condition inside a scope. -/
def compileText (scope text : String) : Compile Condition := do
  let place := (← get).innermost
  let source ← expandCondition (Text.compact text)
  if source = "" then
    Compile.fail place (.malformedCondition (.string text))
  else
    let ts ← alphabet.tokenize place source
    let es ← grammar.order place text ts
    let e ← Expr.ofPostfix scope place text es
    match firstMisfit? e with
    | some op => Compile.failHere (.truthCompared op.symbol text)
    | none => return ⟨text, Program.ofExpr text e⟩

/-- Compile a condition, which has to be a text. -/
def compile (scope : String) : Json → Compile Condition
  | .string text => compileText scope text
  | v => Compile.failHere (.malformedCondition v)

/-- Whether a condition holds in a store. -/
def holds (c : Condition) (s : Store) : Except EvalError Bool := do
  let v ← c.program.run s
  return v.isTrue

end Condition
end Gamebook
