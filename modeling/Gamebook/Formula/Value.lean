/-
# Values and operators

A formula computes numbers and truth values.  The truth of a number is that it
differs from zero, the undefined value being true.  Sums and products of truth
values count them, so there is a third kind of value, a whole number, that no
compiled formula produces.

Division and remainder by zero are errors; the remainder takes the sign of the
divisor.  All other arithmetic is that of binary64 and has no errors.
-/

import Gamebook.Store

namespace Gamebook

/-- A value of a formula. -/
inductive Value where
  | number (x : Float)
  | truth (b : Bool)
  | count (n : Int)
  deriving Inhabited

/-- Why a formula has no value. -/
inductive EvalError where
  | undefined (i : Identifier)
  | divisionByZero
  | moduloByZero
  /-- Code ended with another number of values than one. -/
  | leftover (count : Nat) (source : String)
  /-- Code took a value from an empty stack. -/
  | nothingToTake
  /-- Code looked at the top of an empty stack. -/
  | nothingOnTop
  /-- A count is too large for a number. -/
  | tooLarge
  /-- Code jumped back again and again. -/
  | endless
  deriving DecidableEq

/-- The wording of an error. -/
def EvalError.message : EvalError → String
  | undefined i => (StoreError.undefined i).message
  | divisionByZero => "Division by zero."
  | moduloByZero => "Modulo by zero."
  | leftover n source =>
    "Expression left " ++ toString n ++ " values on the stack: " ++ source
  | nothingToTake => "pop from empty list"
  | nothingOnTop => "list index out of range"
  | tooLarge => StoreError.tooLarge.message
  | endless => "Expression does not end."

namespace Value

/-- Whether a value counts as true. -/
def isTrue : Value → Bool
  | number x => !(x == 0)
  | truth b => b
  | count n => n != 0

/-- The whole number that a value other than a number is. -/
def count? : Value → Option Int
  | number _ => none
  | truth b => some (if b then 1 else 0)
  | count n => some n

/-- A value as a number. -/
def toNumber : Value → Except EvalError Float
  | number x => .ok x
  | truth b => .ok (if b then 1 else 0)
  | count n =>
    match Decimal.ofWhole? n with
    | some x => .ok x
    | none => .error .tooLarge

end Value

/-- The unary operators. -/
inductive UnaryOp where
  | neg
  | pos
  | not
  deriving Repr, DecidableEq

/-- The binary operators that need both operands; `same` is equality written
with a single sign. -/
inductive BinaryOp where
  | add
  | sub
  | mul
  | div
  | mod
  | equal
  | same
  | differ
  | less
  | atMost
  | greater
  | atLeast
  deriving Repr, DecidableEq

/-- The binary operators that may settle without their right operand. -/
inductive Connective where
  | and
  | or
  deriving Repr, DecidableEq

namespace UnaryOp

/-- The symbol of an operator. -/
def symbol : UnaryOp → String
  | neg => "-"
  | pos => "+"
  | not => "!"

/-- The result of an operator. -/
def apply : UnaryOp → Value → Value
  | neg, .number x => .number (-x)
  | neg, .truth b => .count (if b then -1 else 0)
  | neg, .count n => .count (-n)
  | pos, .truth b => .count (if b then 1 else 0)
  | pos, v => v
  | not, v => .truth (!v.isTrue)

end UnaryOp

namespace BinaryOp

/-- All binary operators. -/
def all : List BinaryOp :=
  [add, sub, mul, div, mod, equal, same, differ, less, atMost, greater, atLeast]

/-- The symbol of an operator. -/
def symbol : BinaryOp → String
  | add => "+"
  | sub => "-"
  | mul => "*"
  | div => "/"
  | mod => "%"
  | equal => "=="
  | same => "="
  | differ => "!="
  | less => "<"
  | atMost => "<="
  | greater => ">"
  | atLeast => ">="

/-- Whether an operator compares, and so has a truth value as its result. -/
def isComparison : BinaryOp → Bool
  | add | sub | mul | div | mod => false
  | _ => true

/-- The result on two numbers. -/
def onNumbers : BinaryOp → Float → Float → Except EvalError Value
  | add, x, y => .ok (.number (x + y))
  | sub, x, y => .ok (.number (x - y))
  | mul, x, y => .ok (.number (x * y))
  | div, x, y => if y == 0 then .error .divisionByZero else .ok (.number (x / y))
  | mod, x, y => if y == 0 then .error .moduloByZero else .ok (.number (Decimal.modulo x y))
  | equal, x, y => .ok (.truth (x == y))
  | same, x, y => .ok (.truth (x == y))
  | differ, x, y => .ok (.truth (x != y))
  | less, x, y => .ok (.truth (x < y))
  | atMost, x, y => .ok (.truth (x ≤ y))
  | greater, x, y => .ok (.truth (y < x))
  | atLeast, x, y => .ok (.truth (y ≤ x))

/-- The result on two counts. -/
def onCounts : BinaryOp → Int → Int → Except EvalError Value
  | add, m, n => .ok (.count (m + n))
  | sub, m, n => .ok (.count (m - n))
  | mul, m, n => .ok (.count (m * n))
  | div, m, n =>
    if n = 0 then .error .divisionByZero
    else .ok (.number (Decimal.ofWhole m / Decimal.ofWhole n))
  | mod, m, n => if n = 0 then .error .moduloByZero else .ok (.count (m.fmod n))
  | equal, m, n => .ok (.truth (m == n))
  | same, m, n => .ok (.truth (m == n))
  | differ, m, n => .ok (.truth (m != n))
  | less, m, n => .ok (.truth (m < n))
  | atMost, m, n => .ok (.truth (m ≤ n))
  | greater, m, n => .ok (.truth (n < m))
  | atLeast, m, n => .ok (.truth (n ≤ m))

/-- The result of an operator: counts stay counts, and a number makes both
operands numbers. -/
def apply (op : BinaryOp) (a b : Value) : Except EvalError Value :=
  match a.count?, b.count? with
  | some m, some n => op.onCounts m n
  | _, _ => do
    let x ← a.toNumber
    let y ← b.toNumber
    op.onNumbers x y

/-- On numbers an operator does what `onNumbers` says. -/
@[simp] theorem apply_number (op : BinaryOp) (x y : Float) :
    op.apply (.number x) (.number y) = op.onNumbers x y := rfl

end BinaryOp

namespace Connective

/-- The symbol of a connective. -/
def symbol : Connective → String
  | and => "&&"
  | or => "||"

/-- The truth of the left operand that settles a connective. -/
def settledBy : Connective → Bool
  | and => false
  | or => true

end Connective

/-- What a binary symbol can mean in a formula. -/
inductive InfixOp where
  | apply (op : BinaryOp)
  | connect (op : Connective)
  deriving Repr, DecidableEq

/-- The symbol of an operator. -/
def InfixOp.symbol : InfixOp → String
  | apply op => op.symbol
  | connect op => op.symbol

end Gamebook
