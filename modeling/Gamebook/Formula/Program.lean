/-
# Programs

A program is code for a machine with a stack of values.  `Expr.code` flattens a
tree into code: operands first, then the operator.  A connective makes its left
operand a truth value and jumps over its right operand if that truth settles
it, leaving the truth on the stack; otherwise the truth is dropped and the
right operand's truth takes its place.

Jumps name the index of an instruction in the whole program, so code is laid
out for the index at which it starts.  They go forwards, and a program made
from a tree takes at most one step an instruction.  Programs from elsewhere
may jump back; a run that takes `patience` steps more is given up.
-/

import Gamebook.Formula.Expr

namespace Gamebook

/-- An instruction of the machine. -/
inductive Instr where
  /-- Push a number. -/
  | push (x : Float)
  /-- Push the number of a variable. -/
  | load (i : Identifier)
  /-- Replace the top value by an operator's result. -/
  | unary (op : UnaryOp)
  /-- Replace the two top values by an operator's result. -/
  | binary (op : BinaryOp)
  /-- Replace the top value by its truth. -/
  | truth
  /-- Jump to an index if the top value's truth settles the connective, and drop
  the value otherwise. -/
  | jump (op : Connective) (target : Nat)
  deriving Inhabited

/-- The code of a tree, for the index at which it starts. -/
def Expr.code : Expr → Nat → List Instr
  | .number x, _ => [.push x]
  | .variable i, _ => [.load i]
  | .unary op e, start => e.code start ++ [.unary op]
  | .binary op l r, start =>
    let left := l.code start
    left ++ r.code (start + left.length) ++ [.binary op]
  | .logical op l r, start =>
    let left := l.code start
    let right := r.code (start + left.length + 2)
    left ++ [.truth, .jump op (start + left.length + 2 + right.length + 1)] ++ right ++ [.truth]

/-- Code with the text it comes from. -/
structure Program where
  source : String
  code : List Instr
  deriving Inhabited

namespace Program

/-- The program of a tree. -/
def ofExpr (source : String) (e : Expr) : Program := ⟨source, e.code 0⟩

/-- What an instruction at an index does: the next index and the next stack. -/
def step (s : Store) (index : Nat) : Instr → List Value → Except EvalError (Nat × List Value)
  | .push x, stack => .ok (index + 1, .number x :: stack)
  | .load i, stack =>
    match s.get? i with
    | some x => .ok (index + 1, .number x :: stack)
    | none => .error (.undefined i)
  | .unary op, v :: stack => .ok (index + 1, op.apply v :: stack)
  | .binary op, b :: a :: stack => do
    let v ← op.apply a b
    return (index + 1, v :: stack)
  | .truth, v :: stack => .ok (index + 1, .truth v.isTrue :: stack)
  | .jump op target, v :: stack =>
    if v.isTrue = op.settledBy then .ok (target, v :: stack) else .ok (index + 1, stack)
  | .jump .., [] => .error .nothingOnTop
  | _, _ => .error .nothingToTake

/-- The stack after running code from an index, in a number of steps; the run
ends at any index outside the code. -/
def runFrom (s : Store) (code : List Instr) : Nat → Nat → List Value → Except EvalError (List Value)
  | steps, index, stack =>
    match code[index]? with
    | none => .ok stack
    | some instr =>
      match steps with
      | 0 => .error .endless
      | steps + 1 => do
        let (next, stack) ← step s index instr stack
        runFrom s code steps next stack

/-- How many steps more than instructions a run may take. -/
def patience : Nat := 100000

/-- The value that a program leaves. -/
def run (p : Program) (s : Store) : Except EvalError Value := do
  match ← runFrom s p.code (p.code.length + patience) 0 [] with
  | [v] => return v
  | stack => .error (.leftover stack.length p.source)

end Program
end Gamebook
