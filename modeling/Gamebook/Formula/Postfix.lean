/-
# Postfix order

A formula in postfix order names every operator after its operands, so it needs
neither parentheses nor precedence.  `Grammar.ofTokens` brings tokens into this
order with a stack of the operators and parentheses that still wait:

* an operand goes through at once;
* where an operand is expected, a symbol of the unary table is unary and waits;
* a binary operator first releases the waiting operators, from the top, that
  bind tighter, or as tight if it is left associative, and then waits;
* a closing parenthesis releases the operators down to its opening one.

The tables hold any meanings of operators, so the order depends on symbols,
precedence and associativity alone.
-/

import Gamebook.Formula.Token

namespace Gamebook

/-- An operator of a table: what it means and how tight it binds. -/
structure Operator (α : Type) where
  meaning : α
  precedence : Int
  rightAssociative : Bool := false
  deriving Repr, DecidableEq

/-- The operators of a language by their symbols. -/
structure Grammar (α β : Type) where
  unary : List (String × Operator α)
  binary : List (String × Operator β)

/-- An entry of a formula in postfix order. -/
inductive Entry (α β : Type) where
  | operand (o : Operand)
  | unary (op : α)
  | binary (op : β)
  deriving Repr, DecidableEq

/-- What waits on the stack. -/
inductive Pending (α β : Type) where
  | opening
  | unary (op : Operator α)
  | binary (op : Operator β)
  deriving Repr, DecidableEq

/-- Why tokens have no postfix order. -/
inductive Disorder where
  | mismatched
  | unexpected (symbol : String)
  deriving Repr, DecidableEq

namespace Pending

variable {α β : Type}

/-- Whether an operator waits, and not a parenthesis. -/
def isOperator : Pending α β → Bool
  | opening => false
  | _ => true

/-- The entry of a waiting operator. -/
def entry? : Pending α β → Option (Entry α β)
  | opening => none
  | unary op => some (.unary op.meaning)
  | binary op => some (.binary op.meaning)

/-- Whether a waiting operator comes before an incoming binary one. -/
def precedes (incoming : Operator β) : Pending α β → Bool
  | opening => false
  | unary op => outbids op.precedence
  | binary op => outbids op.precedence
where
  /-- Tighter, or as tight if the incoming operator is left associative. -/
  outbids (waiting : Int) : Bool :=
    waiting > incoming.precedence || waiting == incoming.precedence && !incoming.rightAssociative

end Pending

namespace Grammar

variable {α β : Type}

/-- The entries left on the stack at the end, if no parenthesis is among them. -/
def release : List (Pending α β) → Except Disorder (List (Entry α β))
  | [] => .ok []
  | p :: rest =>
    match p.entry? with
    | none => .error .mismatched
    | some e => do
      let es ← release rest
      return e :: es

/-- The entries that tokens still give, with a stack and whether an operand is
expected next. -/
def arrange (g : Grammar α β) :
    List Token → List (Pending α β) → Bool → Except Disorder (List (Entry α β))
  | [], stack, _ => release stack
  | .operand o :: ts, stack, _ => do
    let es ← arrange g ts stack false
    return .operand o :: es
  | .opening :: ts, stack, _ => arrange g ts (.opening :: stack) true
  | .closing :: ts, stack, _ =>
    match stack.dropWhile Pending.isOperator with
    | [] => .error .mismatched
    | _ :: below => do
      let es ← arrange g ts below false
      return (stack.takeWhile Pending.isOperator).filterMap Pending.entry? ++ es
  | .operator s :: ts, stack, expecting =>
    match if expecting then g.unary.lookup s else none with
    | some op => arrange g ts (.unary op :: stack) true
    | none =>
      match g.binary.lookup s with
      | none => .error (.unexpected s)
      | some op => do
        let es ← arrange g ts (.binary op :: stack.dropWhile (Pending.precedes op)) true
        return (stack.takeWhile (Pending.precedes op)).filterMap Pending.entry? ++ es

/-- Tokens in postfix order. -/
def ofTokens (g : Grammar α β) (ts : List Token) : Except Disorder (List (Entry α β)) :=
  g.arrange ts [] true

/-- Bring the tokens of a source into postfix order. -/
def order (g : Grammar α β) (place : Place) (source : String) (ts : List Token) :
    Compile (List (Entry α β)) :=
  match g.ofTokens ts with
  | .ok es => pure es
  | .error .mismatched => Compile.fail place (.mismatchedParentheses source)
  | .error (.unexpected s) => Compile.fail place (.unexpectedOperator s source)

end Grammar
end Gamebook
