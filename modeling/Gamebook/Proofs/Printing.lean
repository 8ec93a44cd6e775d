/-
# Formulas are printed with the parentheses that they need

A draft is a tree to be printed: each operator has the symbol that it is written with, and
any part may be put in parentheses of its own.  `Draft.print` adds the parentheses that are
needed.  A binary operator gets them where the place does not admit it (`Demand.Admits`):

| it stands | it needs parentheses |
| --- | --- |
| behind a unary operator | always |
| on the side to which the operator around it associates | if it binds less tight |
| on the other side | if it does not bind tighter |
| at the outside, or inside parentheses | never |

What is printed is written (`Draft.writes_print`), so the stack of `Grammar.arrange` keeps
its parts apart: for every table in which unary operators bind tightest and operators of one
precedence associate to one side, printed tokens are brought into the postorder of the tree
(`Grammar.order_print`).
-/

import Gamebook.Proofs.Writing

namespace Gamebook

instance (d : Demand) (p : Int) : Decidable (d.Admits p) :=
  match d with
  | .anything => .isTrue trivial
  | .atLeast q => inferInstanceAs (Decidable (q ≤ p))
  | .operand => .isFalse id

/-- A tree to be printed, with the symbols of its operators and with parentheses that no
place demands. -/
inductive Draft (ω α β : Type) where
  | leaf (o : ω)
  | group (p : Draft ω α β)
  | unary (symbol : String) (op : Operator α) (p : Draft ω α β)
  | binary (symbol : String) (op : Operator β) (l r : Draft ω α β)

namespace Draft

variable {ω α β : Type}

/-- The tree that is printed. -/
def tree : Draft ω α β → Tree ω α β
  | leaf o => .leaf o
  | group p => p.tree
  | unary _ op p => .unary op.meaning p.tree
  | binary _ op l r => .binary op.meaning l.tree r.tree

/-- Whether a draft has only the parentheses that it needs. -/
def IsPlain : Draft ω α β → Prop
  | leaf _ => True
  | group _ => False
  | unary _ _ p => p.IsPlain
  | binary _ _ l r => l.IsPlain ∧ r.IsPlain

/-- Whether the operators of a draft stand in the tables of a grammar under their symbols. -/
def Over (g : Grammar α β) : Draft ω α β → Prop
  | leaf _ => True
  | group p => p.Over g
  | unary s op p => g.unary.lookup s = some op ∧ p.Over g
  | binary s op l r => g.binary.lookup s = some op ∧ l.Over g ∧ r.Over g

/-- Tokens in parentheses. -/
def enclose (ts : List Token) : List Token := .opening :: (ts ++ [.closing])

/-- The tokens of a draft in a place of a formula. -/
def print (spell : ω → Operand) : Draft ω α β → Demand → List Token
  | leaf o, _ => [.operand (spell o)]
  | group p, _ => enclose (p.print spell .anything)
  | unary s _ p, _ => .operator s :: p.print spell .operand
  | binary s op l r, d =>
    let bare := l.print spell op.leftDemand ++ .operator s :: r.print spell op.rightDemand
    if d.Admits op.precedence then bare else enclose bare

variable {g : Grammar α β} {spell : ω → Operand}

/-- **What is printed is written**, in every place. -/
theorem writes_print {p : Draft ω α β} (h : p.Over g) (d : Demand) :
    g.Writes spell d p.tree (p.print spell d) := by
  induction p generalizing d with
  | leaf o => exact .leaf d o
  | group p ih => exact .group d (ih h .anything)
  | unary s op p ih => exact .unary d h.1 (ih h.2 .operand)
  | binary s op l r ihl ihr =>
    obtain ⟨hop, hl, hr⟩ := h
    have hleft := ihl hl op.leftDemand
    have hright := ihr hr op.rightDemand
    rw [print]
    split
    · rename_i hadmits
      exact .binary hop hadmits hleft hright
    · exact .group d (.binary hop (Demand.admits_anything _) hleft hright)

/-- Every tree over the tables can be printed with the parentheses that it needs and no
others. -/
theorem exists_isPlain {t : Tree ω α β} (h : t.Over g) :
    ∃ p : Draft ω α β, p.Over g ∧ p.IsPlain ∧ p.tree = t := by
  induction t with
  | leaf o => exact ⟨.leaf o, trivial, trivial, rfl⟩
  | unary op t ih =>
    obtain ⟨⟨s, o, hs, rfl⟩, ht⟩ := h
    obtain ⟨p, hp, hplain, rfl⟩ := ih ht
    exact ⟨.unary s o p, ⟨hs, hp⟩, hplain, rfl⟩
  | binary op l r ihl ihr =>
    obtain ⟨⟨s, o, hs, rfl⟩, hl, hr⟩ := h
    obtain ⟨p, hp, hplain, rfl⟩ := ihl hl
    obtain ⟨q, hq, hplain', rfl⟩ := ihr hr
    exact ⟨.binary s o p q, ⟨hs, hp, hq⟩, ⟨hplain, hplain'⟩, rfl⟩

end Draft

namespace Grammar

variable {α β ω : Type} {g : Grammar α β}

/-- **Printed formulas are brought into postorder.**  Let unary operators bind tighter than
binary ones, and let binary operators of one precedence associate to one side; a symbol may
stand in both tables.  Then every tree over the tables can be printed with no parentheses
but those that it needs, and however many more it is printed with, its tokens are brought
into its postorder, without a diagnostic and without a change of the context. -/
theorem order_print (hg : g.Ranked) (spell : ω → Operand) {t : Tree ω α β} (ht : t.Over g) :
    (∃ p : Draft ω α β, p.Over g ∧ p.IsPlain ∧ p.tree = t) ∧
      ∀ p : Draft ω α β, p.Over g → p.tree = t → ∀ place source c,
        (g.order place source (p.print spell .anything)).run c = .ok (t.postorder spell, c) := by
  refine ⟨Draft.exists_isPlain ht, ?_⟩
  rintro p hp rfl place source c
  rw [order_eq (ofTokens_of_writes hg (Draft.writes_print hp .anything))]
  rfl

/-- With `^` associating to the right and `-` both a sign and a difference, the tokens
`(a ^ b) ^ c - -a` have the parentheses that they need, for the first power is not on the
side to which powers associate. -/
theorem order_print_power :
    let minus : Operator String := ⟨"negation", 3, false⟩
    let difference : Operator String := ⟨"difference", 1, false⟩
    let power : Operator String := ⟨"power", 2, true⟩
    let g : Grammar String String := ⟨[("-", minus)], [("-", difference), ("^", power)]⟩
    let leaf (s : String) : Draft String String String := .leaf s
    let p : Draft String String String := .binary "-" difference
      (.binary "^" power (.binary "^" power (leaf "a") (leaf "b")) (leaf "c"))
      (.unary "-" minus (leaf "a"))
    g.Ranked ∧ p.tree.Over g ∧
      (p.print Operand.word .anything).map Token.text =
        ["(", "a", "^", "b", ")", "^", "c", "-", "-", "a"] ∧
      ∀ place source c, (g.order place source (p.print Operand.word .anything)).run c =
        .ok ([.operand (.word "a"), .operand (.word "b"), .binary "power",
          .operand (.word "c"), .binary "power", .operand (.word "a"), .unary "negation",
          .binary "difference"], c) := by
  intro minus difference power g leaf p
  have hg : g.Ranked := ⟨by decide, by decide⟩
  have hp : p.Over g := ⟨rfl, ⟨rfl, ⟨rfl, trivial, trivial⟩, trivial⟩, rfl, trivial⟩
  have ht : p.tree.Over g :=
    ⟨⟨"-", _, rfl, rfl⟩, ⟨⟨"^", _, rfl, rfl⟩, ⟨⟨"^", _, rfl, rfl⟩, trivial, trivial⟩, trivial⟩,
      ⟨"-", _, rfl, rfl⟩, trivial⟩
  exact ⟨hg, ht, rfl, (order_print hg Operand.word ht).2 p hp rfl⟩

end Grammar
end Gamebook
