/-
# Formulas as trees

A formula is a tree whose leaves are operands and whose nodes are operators.
`Tree.postorder` names every operator after its operands, and
`Expr.ofPostfix` undoes it: on the postorder of a tree it reads the leaves from
the left to the right and ends with the tree of their meanings
(`Expr.ofPostfix_postorder`).
-/

import Gamebook.Formula.Expr

namespace Gamebook

/-- A formula: leaves joined by unary and binary operators. -/
inductive Tree (ω α β : Type) where
  | leaf (o : ω)
  | unary (op : α) (t : Tree ω α β)
  | binary (op : β) (l r : Tree ω α β)

namespace Tree

variable {ω α β : Type}

/-- A tree in postfix order, its leaves being spelt as operands. -/
def postorder (spell : ω → Operand) : Tree ω α β → List (Entry α β)
  | leaf o => [.operand (spell o)]
  | unary op t => t.postorder spell ++ [.unary op]
  | binary op l r => l.postorder spell ++ r.postorder spell ++ [.binary op]

/-- The tree with the meanings of its leaves. -/
def toExpr (meaning : ω → Expr) : Tree ω UnaryOp InfixOp → Expr
  | leaf o => meaning o
  | unary op t => .unary op (t.toExpr meaning)
  | binary op l r => Expr.combine op (l.toExpr meaning) (r.toExpr meaning)

/-- Read the leaves of a tree from the left to the right. -/
def read (scope : String) (spell : ω → Operand) : Tree ω UnaryOp InfixOp → Compile Expr
  | leaf o => Expr.leaf scope (spell o)
  | unary op t => do
    let e ← t.read scope spell
    return .unary op e
  | binary op l r => do
    let a ← l.read scope spell
    let b ← r.read scope spell
    return Expr.combine op a b

end Tree

namespace Expr

variable {ω : Type} {scope : String} {place : Place} {source : String} {spell : ω → Operand}

/-- Entries that name a tree put the tree on the stack. -/
theorem stack_postorder (t : Tree ω UnaryOp InfixOp) (es : List (Entry UnaryOp InfixOp))
    (built : List Expr) :
    stack scope place source (t.postorder spell ++ es) built =
      t.read scope spell >>= fun e => stack scope place source es (e :: built) := by
  induction t generalizing es built with
  | leaf o => rfl
  | unary op t ih =>
    simp only [Tree.postorder, Tree.read, List.append_assoc, ih, bind_assoc, pure_bind]
    rfl
  | binary op l r ihl ihr =>
    simp only [Tree.postorder, Tree.read, List.append_assoc, ihl, ihr, bind_assoc, pure_bind]
    rfl

/-- **The tree of a postorder is that tree.**  Building fails only where a leaf
cannot be read. -/
theorem ofPostfix_postorder (t : Tree ω UnaryOp InfixOp) :
    ofPostfix scope place source (t.postorder spell) = t.read scope spell := by
  have h : stack scope place source (t.postorder spell ++ []) [] = _ := stack_postorder t [] []
  rw [List.append_nil] at h
  rw [ofPostfix, h]
  simp only [stack, bind_assoc, pure_bind, bind_pure]

end Expr

/-- Where every leaf can be read, the tree can. -/
theorem Tree.run_read {ω : Type} {scope : String} {spell : ω → Operand} {meaning : ω → Expr}
    (h : ∀ o c, ∃ raw, (Expr.leaf scope (spell o)).run c = .ok (meaning o, c.visit raw))
    (t : Tree ω UnaryOp InfixOp) (c : Context) :
    ∃ raw, (t.read scope spell).run c = .ok (t.toExpr meaning, c.visit raw) := by
  induction t generalizing c with
  | leaf o => exact h o c
  | unary op t ih =>
    obtain ⟨raw, hr⟩ := ih c
    exact ⟨raw, Compile.run_bind_of_ok hr⟩
  | binary op l r ihl ihr =>
    obtain ⟨a, ha⟩ := ihl c
    obtain ⟨b, hb⟩ := ihr (c.visit a)
    exact ⟨b, (Compile.run_bind_of_ok ha).trans (Compile.run_bind_of_ok hb)⟩

end Gamebook
