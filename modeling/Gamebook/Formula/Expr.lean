/-
# Expressions

The tree of a formula.  `Expr.eval` is its meaning: operands are evaluated from
the left to the right, the right operand of a connective only if the left one
does not settle it, and the first error ends the evaluation.

`Expr.ofPostfix` builds the tree from a formula in postfix order by keeping a
stack of trees.
-/

import Gamebook.Formula.Postfix
import Gamebook.Formula.Value

namespace Gamebook

/-- The tree of a formula. -/
inductive Expr where
  | number (x : Float)
  | «variable» (i : Identifier)
  | unary (op : UnaryOp) (e : Expr)
  | binary (op : BinaryOp) (l r : Expr)
  | logical (op : Connective) (l r : Expr)
  deriving Inhabited

namespace Expr

/-- The value of a tree in a store. -/
def eval (s : Store) : Expr → Except EvalError Value
  | number x => .ok (.number x)
  | «variable» i =>
    match s.get? i with
    | some x => .ok (.number x)
    | none => .error (.undefined i)
  | unary op e => do
    let v ← eval s e
    return op.apply v
  | binary op l r => do
    let a ← eval s l
    let b ← eval s r
    op.apply a b
  | logical op l r => do
    let a ← eval s l
    if a.isTrue = op.settledBy then return .truth a.isTrue
    else
      let b ← eval s r
      return .truth b.isTrue

/-- The tree of a binary symbol. -/
def combine : InfixOp → Expr → Expr → Expr
  | .apply op, l, r => binary op l r
  | .connect op, l, r => logical op l r

/-- The number that a numeral writes: an optional minus sign, digits, and an
optional fraction. -/
def numeralValue (text : String) : Float :=
  let unsigned (cs : List Char) : Float :=
    match Text.splitAtFirst (· == '.') cs with
    | (whole, fraction) =>
      let places := fraction.getD []
      Decimal.ofScaled ⟨Text.digitsValue (whole ++ places), -(places.length : Int)⟩
  match text.toList with
  | '-' :: cs => -(unsigned cs)
  | cs => unsigned cs

/-- The leaf of an operand; a word is an identifier inside the scope. -/
def leaf (scope : String) : Operand → Compile Expr
  | .number text => pure (number (numeralValue text))
  | .word text => do
    let i ← Identifier.resolve scope (.string text)
    return «variable» i

/-- The stack of trees after some entries, the last tree on top. -/
def stack (scope : String) (place : Place) (source : String) :
    List (Entry UnaryOp InfixOp) → List Expr → Compile (List Expr)
  | [], built => pure built
  | .operand o :: es, built => do
    let e ← leaf scope o
    stack scope place source es (e :: built)
  | .unary op :: es, e :: built => stack scope place source es (unary op e :: built)
  | .unary op :: _, [] => Compile.fail place (.missingOperand op.symbol source)
  | .binary op :: es, r :: l :: built => stack scope place source es (combine op l r :: built)
  | .binary op :: _, _ => Compile.fail place (.missingOperand op.symbol source)

/-- The tree of a formula in postfix order. -/
def ofPostfix (scope : String) (place : Place) (source : String)
    (es : List (Entry UnaryOp InfixOp)) : Compile Expr := do
  match ← stack scope place source es [] with
  | [] => Compile.fail place (.emptyExpression source)
  | [e] => pure e
  | _ => Compile.fail place (.strayOperands source)

end Expr
end Gamebook
