/-
# Conditions as they are meant

A guard is the tree of a condition: operands, comparisons of two operands, ranges,
`!` and connectives.  `Guard.holds` says when it holds in a store; it looks at the
operands from the left to the right, and at no more of them than it has to.

`Guard.Written` says how a guard is written.  `!` binds tightest, then come
comparisons, `&&` and `||`; a range and an operand need no parentheses anywhere.
A chain of one connective needs none either, however its guards are grouped:
its tokens are those of the tree that associates to the left, and this tree
holds where the guard holds, since connectives are associative
(`Guard.Written.exists_tree`).
-/

import Gamebook.Proofs.Lexing

namespace Gamebook

/-- The comparisons of numbers; `same` is equality written with a single sign. -/
inductive Comparison where
  | equal
  | same
  | differ
  | less
  | atMost
  | greater
  | atLeast
  deriving Repr, DecidableEq

namespace Comparison

/-- The operator of a comparison. -/
def op : Comparison → BinaryOp
  | equal => .equal
  | same => .same
  | differ => .differ
  | less => .less
  | atMost => .atMost
  | greater => .greater
  | atLeast => .atLeast

/-- Whether a comparison holds between two numbers. -/
def holds : Comparison → Float → Float → Bool
  | equal, x, y => x == y
  | same, x, y => x == y
  | differ, x, y => x != y
  | less, x, y => x < y
  | atMost, x, y => x ≤ y
  | greater, x, y => y < x
  | atLeast, x, y => y ≤ x

/-- How a comparison is written. -/
def symbol (o : Comparison) : String := o.op.symbol

/-- The operator of a comparison compares two numbers as the comparison does. -/
theorem onNumbers_op (o : Comparison) (x y : Float) :
    o.op.onNumbers x y = .ok (.truth (o.holds x y)) := by
  cases o <;> rfl

/-- Comparisons stand in the table, all with one precedence. -/
theorem lookup_symbol (o : Comparison) :
    Condition.grammar.binary.lookup o.symbol = some ⟨.apply o.op, 3, false⟩ := by
  cases o <;> rfl

end Comparison

namespace Connective

/-- How tight a connective binds. -/
def precedence : Connective → Int
  | or => 1
  | and => 2

/-- The operator of a connective. -/
def operator (o : Connective) : Operator InfixOp := ⟨.connect o, o.precedence, false⟩

/-- The symbol of a connective stands for it in conditions. -/
theorem lookup_symbol (o : Connective) :
    Condition.grammar.binary.lookup o.symbol = some o.operator := by
  cases o <;> rfl

/-- What binds as tight as a connective is that connective. -/
theorem eq_operator {s : String} {o : Operator InfixOp} (c : Connective)
    (h : Condition.grammar.binary.lookup s = some o) (hp : o.precedence = c.precedence) :
    o = c.operator := by
  have hall : ∀ b ∈ Condition.grammar.binary, b.2.precedence = c.precedence →
      b.2 = c.operator := by
    cases c <;> decide
  exact hall _ (Grammar.mem_of_lookup h) hp

end Connective

/-- What a range demands of a variable; both bounds are included. -/
inductive Bounds where
  | atLeast (low : SignedNumeral)
  | atMost (high : SignedNumeral)
  | between (low high : SignedNumeral)

/-- Whether a number lies within bounds. -/
def Bounds.contain : Bounds → Float → Bool
  | atLeast low, x => low.value ≤ x
  | atMost high, x => x ≤ high.value
  | between low high, x => low.value ≤ x && x ≤ high.value

/-- An operand of a condition. -/
abbrev Term := Atom SignedNumeral

/-- The number of a variable, if it is set. -/
def Variable.read (scope : String) (h : isSegment scope = true) (s : Store) (v : Variable) :
    Except EvalError Float :=
  match s.get? (v.name.identifier scope h) with
  | some x => .ok x
  | none => .error (.undefined (v.name.identifier scope h))

/-- The number of an operand. -/
def Term.read (scope : String) (h : isSegment scope = true) (s : Store) :
    Term → Except EvalError Float
  | .number n => .ok n.value
  | .variable v => v.read scope h s

/-- The tree of a condition. -/
inductive Guard where
  | operand (a : Term)
  | compare (o : Comparison) (l r : Term)
  | range (v : Variable) (b : Bounds)
  | not (g : Guard)
  | connect (o : Connective) (l r : Guard)

namespace Guard

/-- Whether a guard holds in a store, or the first variable that it needs and
that is not set.  An operand holds if it is not zero, and a range if the number
of its variable lies within its bounds. -/
def holds (scope : String) (h : isSegment scope = true) (s : Store) :
    Guard → Except EvalError Bool
  | operand a => do
    let x ← a.read scope h s
    return !(x == 0)
  | compare o l r => do
    let x ← l.read scope h s
    let y ← r.read scope h s
    return o.holds x y
  | range v b => do
    let x ← v.read scope h s
    return b.contain x
  | not g => do
    let b ← g.holds scope h s
    return !b
  | connect .and l r => do
    let b ← l.holds scope h s
    if b then r.holds scope h s else return false
  | connect .or l r => do
    let b ← l.holds scope h s
    if b then return true else r.holds scope h s

end Guard

/-- A piece of a condition: a token or a whole range. -/
inductive Item where
  | token (t : Token)
  | range (v : Variable) (b : Bounds)

/-- The token of an operand. -/
def Term.token (a : Term) : Token := .operand (a.spell SignedNumeral.chars)

namespace Bounds

/-- The texts that bounds are written with. -/
def pieces : Bounds → List (List Char)
  | atLeast low => [low.chars, ['.', '.']]
  | atMost high => [['.', '.'], high.chars]
  | between low high => [low.chars, ['.', '.'], high.chars]

/-- The comparisons that bounds mean for a variable. -/
def tokens (v : Variable) : Bounds → List Token
  | atLeast low => [Term.token (.variable v), .operator ">=", Term.token (.number low)]
  | atMost high => [Term.token (.variable v), .operator "<=", Term.token (.number high)]
  | between low high =>
    [Term.token (.variable v), .operator ">=", Term.token (.number low), .operator "&&",
      Term.token (.variable v), .operator "<=", Term.token (.number high)]

end Bounds

namespace Item

/-- The texts that a piece is written with. -/
def pieces : Item → List (List Char)
  | token t => [t.chars]
  | range v b => v.chars :: ['='] :: b.pieces

/-- The tokens that a piece stands for. -/
def tokens : Item → List Token
  | token t => [t]
  | range v b => .opening :: (b.tokens v ++ [.closing])

end Item

/-- Pieces that write a guard in a place of a condition. -/
inductive Guard.Written : Guard → Demand → List Item → Prop
  | operand (d : Demand) (a : Term) : Written (.operand a) d [.token a.token]
  | compare {d : Demand} (hd : d.Admits 3) (o : Comparison) (l r : Term) :
      Written (.compare o l r) d [.token l.token, .token (.operator o.symbol), .token r.token]
  | range (d : Demand) (v : Variable) (b : Bounds) : Written (.range v b) d [.range v b]
  | group (d : Demand) {g : Guard} {is : List Item} (h : Written g .anything is) :
      Written g d (.token .opening :: (is ++ [.token .closing]))
  | not (d : Demand) {g : Guard} {is : List Item} (h : Written g .operand is) :
      Written (.not g) d (.token (.operator "!") :: is)
  | connect {d : Demand} {o : Connective} (hd : d.Admits o.precedence) {l r : Guard}
      {il ir : List Item} (hl : Written l (.atLeast o.precedence) il)
      (hr : Written r (.atLeast o.precedence) ir) :
      Written (.connect o l r) d (il ++ .token (.operator o.symbol) :: ir)

/-- **Every guard can be written** in every place of a condition. -/
theorem Guard.exists_written (g : Guard) (d : Demand) : ∃ is, Written g d is := by
  induction g generalizing d with
  | operand a => exact ⟨_, .operand d a⟩
  | compare o l r => exact ⟨_, .group d (.compare (Demand.admits_anything 3) o l r)⟩
  | range v b => exact ⟨_, .range d v b⟩
  | not g ih =>
    obtain ⟨is, h⟩ := ih .operand
    exact ⟨_, .not d h⟩
  | connect o l r ihl ihr =>
    obtain ⟨il, hl⟩ := ihl (.atLeast o.precedence)
    obtain ⟨ir, hr⟩ := ihr (.atLeast o.precedence)
    exact ⟨_, .group d (.connect (Demand.admits_anything _) hl hr)⟩

namespace Expr

variable {s : Store} {o : Connective} {l m r : Expr}

/-- An error on the left of a connective is the error of the whole, and the right is not looked
at. -/
theorem eval_logical_of_error {err : EvalError} (h : l.eval s = .error err) :
    (logical o l r).eval s = .error err := by
  rw [eval, h]
  rfl

/-- The left operand may settle a connective. -/
theorem eval_logical_of_settled {a : Value} (h : l.eval s = .ok a) (ha : a.isTrue = o.settledBy) :
    (logical o l r).eval s = .ok (.truth a.isTrue) := by
  rw [eval, h]
  exact if_pos ha

/-- Otherwise the right operand settles it. -/
theorem eval_logical_of_not_settled {a : Value} (h : l.eval s = .ok a)
    (ha : ¬a.isTrue = o.settledBy) :
    (logical o l r).eval s = (fun b => Value.truth b.isTrue) <$> r.eval s := by
  rw [eval, h]
  refine (if_neg ha).trans ?_
  rw [bind_pure_comp]

/-- The truth of a connective. -/
theorem isTrue_eval_logical (s : Store) (o : Connective) (l r : Expr) :
    Value.isTrue <$> (logical o l r).eval s = (Value.isTrue <$> l.eval s >>= fun a =>
      if a = o.settledBy then return a else Value.isTrue <$> r.eval s) := by
  cases hl : l.eval s with
  | error err => rw [eval_logical_of_error hl]; rfl
  | ok a =>
    by_cases ha : a.isTrue = o.settledBy
    · rw [eval_logical_of_settled hl ha]
      exact (if_pos ha).symm
    · rw [eval_logical_of_not_settled hl ha, Functor.map_map]
      exact (if_neg ha).symm

/-- Connectives are associative. -/
theorem eval_logical_assoc :
    (logical o (logical o l m) r).eval s = (logical o l (logical o m r)).eval s := by
  cases hl : l.eval s with
  | error err => rw [eval_logical_of_error hl, eval_logical_of_error (eval_logical_of_error hl)]
  | ok a =>
    by_cases ha : a.isTrue = o.settledBy
    · have hlm : (logical o l m).eval s = .ok (.truth a.isTrue) := eval_logical_of_settled hl ha
      rw [eval_logical_of_settled hl ha, eval_logical_of_settled hlm ha]
      rfl
    · have hlm : (logical o l m).eval s = _ := eval_logical_of_not_settled hl ha
      rw [eval_logical_of_not_settled hl ha]
      cases hm : m.eval s with
      | error err =>
        rw [hm] at hlm
        rw [eval_logical_of_error hlm, eval_logical_of_error hm]
        rfl
      | ok b =>
        rw [hm] at hlm
        by_cases hb : b.isTrue = o.settledBy
        · rw [eval_logical_of_settled hlm hb, eval_logical_of_settled hm hb]
          rfl
        · rw [eval_logical_of_not_settled hlm hb, eval_logical_of_not_settled hm hb,
            Functor.map_map]
          rfl

end Expr

section Agreement

variable {scope : String} (h : isSegment scope = true)

/-- The tree of a term is worth its number. -/
theorem Term.eval_meaning (s : Store) (a : Term) :
    (a.meaning SignedNumeral.value scope h).eval s = Value.number <$> a.read scope h s := by
  cases a with
  | number n => rfl
  | «variable» v =>
    simp only [Atom.meaning, Expr.eval, Term.read, Variable.read]
    cases s.get? (v.name.identifier scope h) <;> rfl

/-- A tree that may be compiled and holds where a guard holds. -/
structure Agrees (t : Tree Term UnaryOp InfixOp) (g : Guard) : Prop where
  fits : Condition.firstMisfit? (t.toExpr (Atom.meaning SignedNumeral.value scope h)) = none
  holds : ∀ s, Value.isTrue <$> (t.toExpr (Atom.meaning SignedNumeral.value scope h)).eval s =
    g.holds scope h s

/-- The tree of the comparisons that bounds mean for a variable. -/
def Bounds.tree (v : Variable) : Bounds → Tree Term UnaryOp InfixOp
  | atLeast low => .binary (.apply .atLeast) (.leaf (.variable v)) (.leaf (.number low))
  | atMost high => .binary (.apply .atMost) (.leaf (.variable v)) (.leaf (.number high))
  | between low high =>
    .binary (.connect .and)
      (.binary (.apply .atLeast) (.leaf (.variable v)) (.leaf (.number low)))
      (.binary (.apply .atMost) (.leaf (.variable v)) (.leaf (.number high)))

namespace Agrees

variable {h} {t u : Tree Term UnaryOp InfixOp} {g k : Guard}

/-- An operand is compiled to what holds if it is not zero. -/
theorem operand (a : Term) : Agrees h (.leaf a) (.operand a) where
  fits := by cases a <;> rfl
  holds s := by
    rw [Tree.toExpr, a.eval_meaning, Guard.holds]
    cases a.read scope h s <;> rfl

/-- A comparison of two operands is compiled to what it compares. -/
theorem compare (o : Comparison) (l r : Term) :
    Agrees h (.binary (.apply o.op) (.leaf l) (.leaf r)) (.compare o l r) where
  fits := by
    cases l <;> cases r <;>
      simp [Tree.toExpr, Atom.meaning, Expr.combine, Condition.firstMisfit?, Condition.isNumber]
  holds s := by
    simp only [Tree.toExpr, Expr.combine, Expr.eval, l.eval_meaning, r.eval_meaning, Guard.holds]
    cases l.read scope h s with
    | error err => rfl
    | ok x =>
      cases r.read scope h s with
      | error err => rfl
      | ok y => exact congrArg (Value.isTrue <$> ·) (o.onNumbers_op x y)

/-- A negation is compiled to what holds where the guard in it does not. -/
theorem not (ht : Agrees h t g) : Agrees h (.unary .not t) (.not g) where
  fits := ht.fits
  holds s := by
    have hs := ht.holds s
    rw [Tree.toExpr, Expr.eval, Guard.holds, ← hs]
    cases (t.toExpr _).eval s <;> rfl

/-- A connective is compiled to what joins its two guards, the right one being looked at only if
the left one does not decide. -/
theorem connect (o : Connective) (ht : Agrees h t g) (hu : Agrees h u k) :
    Agrees h (.binary (.connect o) t u) (.connect o g k) where
  fits := by
    simp only [Tree.toExpr, Expr.combine, Condition.firstMisfit?, ht.fits, hu.fits, Option.or_none]
  holds s := by
    rw [Tree.toExpr, Expr.combine, Expr.isTrue_eval_logical, ht.holds s, hu.holds s]
    cases o with
    | and =>
      rw [Guard.holds]
      cases g.holds scope h s with
      | error err => rfl
      | ok b => cases b <;> rfl
    | or =>
      rw [Guard.holds]
      cases g.holds scope h s with
      | error err => rfl
      | ok b => cases b <;> rfl

/-- A range holds where the comparisons hold that it means. -/
theorem range (v : Variable) (b : Bounds) : Agrees h (b.tree v) (.range v b) := by
  have hcompare (o : Comparison) (n : SignedNumeral) (s : Store) :
      Guard.holds scope h s (.compare o (.variable v) (.number n)) =
        (fun x => o.holds x n.value) <$> v.read scope h s := by
    have hread : Term.read scope h s (.variable v) = v.read scope h s := rfl
    rw [Guard.holds, hread]
    cases v.read scope h s <;> rfl
  cases b with
  | atLeast low =>
    have hlow := compare (h := h) .atLeast (.variable v) (.number low)
    refine ⟨hlow.fits, fun s => (hlow.holds s).trans ?_⟩
    rw [hcompare, Guard.holds]
    cases v.read scope h s <;> rfl
  | atMost high =>
    have hhigh := compare (h := h) .atMost (.variable v) (.number high)
    refine ⟨hhigh.fits, fun s => (hhigh.holds s).trans ?_⟩
    rw [hcompare, Guard.holds]
    cases v.read scope h s <;> rfl
  | between low high =>
    have hlow := compare (h := h) .atLeast (.variable v) (.number low)
    have hhigh := compare (h := h) .atMost (.variable v) (.number high)
    have hboth := connect .and hlow hhigh
    refine ⟨hboth.fits, fun s => (hboth.holds s).trans ?_⟩
    rw [Guard.holds, Guard.holds, hcompare, hcompare]
    cases v.read scope h s with
    | error err => rfl
    | ok x =>
      have hcontain : (Bounds.between low high).contain x =
          (Comparison.holds .atLeast x low.value && Comparison.holds .atMost x high.value) := rfl
      simp only [bind, Except.bind, Functor.map, Except.map, hcontain]
      cases Comparison.holds .atLeast x low.value <;> rfl

end Agrees
end Agreement

section Regrouping

/-- The words of conditions. -/
abbrev Condition.Writes (d : Demand) (t : Tree Term UnaryOp InfixOp) (ts : List Token) : Prop :=
  Condition.grammar.Writes (Atom.spell SignedNumeral.chars) d t ts

/-- What is written in a place may stand in every place that admits it. -/
theorem Grammar.Writes.of_admits {α β ω : Type} {g : Grammar α β} {spell : ω → Operand}
    {p : Int} {d : Demand} {t : Tree ω α β} {ts : List Token}
    (h : g.Writes spell (.atLeast p) t ts) (hd : d.Admits p) : g.Writes spell d t ts := by
  cases h with
  | leaf _ o => exact .leaf d o
  | group _ h => exact .group d h
  | unary _ hop h => exact .unary d hop h
  | binary hop hp hl hr => exact .binary hop (hd.mono hp) hl hr

/-- Trees with one value in every store, of which one may be compiled if the
other may. -/
structure Tree.Equal (m : Term → Expr) (t u : Tree Term UnaryOp InfixOp) : Prop where
  fits : Condition.firstMisfit? (t.toExpr m) = Condition.firstMisfit? (u.toExpr m)
  eval : ∀ s, (t.toExpr m).eval s = (u.toExpr m).eval s

/-- Grouping a chain of one connective to the left does not matter. -/
theorem Tree.Equal.regroup {m : Term → Expr} {c : Connective}
    {t l l' r : Tree Term UnaryOp InfixOp} (h : Equal m t (.binary (.connect c) l l')) :
    Equal m (.binary (.connect c) t r) (.binary (.connect c) l (.binary (.connect c) l' r)) where
  fits := by
    have ht := h.fits
    simp only [toExpr, Expr.combine, Condition.firstMisfit?] at ht ⊢
    rw [ht, Option.or_assoc]
  eval s := by
    have ht := h.eval s
    simp only [toExpr, Expr.combine] at ht ⊢
    rw [← Expr.eval_logical_assoc, Expr.eval, ht]
    rfl

/-- A chain of one connective is written as the tree that associates to the
left writes it. -/
theorem Condition.exists_writes_connect (m : Term → Expr) {c : Connective}
    {l r : Tree Term UnaryOp InfixOp} {tl tr : List Token}
    (hl : Condition.Writes (.atLeast c.precedence) l tl)
    (hr : Condition.Writes (.atLeast c.precedence) r tr) :
    ∃ t, Condition.Writes (.atLeast c.precedence) t (tl ++ .operator c.symbol :: tr) ∧
      t.Equal m (.binary (.connect c) l r) := by
  -- where nothing on the right is as loose as the connective, nothing is regrouped
  have direct {r : Tree Term UnaryOp InfixOp} {tr : List Token}
      (hr : Condition.Writes c.operator.rightDemand r tr) :
      ∃ t, Condition.Writes (.atLeast c.precedence) t (tl ++ .operator c.symbol :: tr) ∧
        t.Equal m (.binary (.connect c) l r) :=
    ⟨_, .binary c.lookup_symbol (Int.le_refl _) hl hr, rfl, fun _ => rfl⟩
  generalize hd : Demand.atLeast c.precedence = d at hr
  induction hr with
  | leaf _ o =>
    subst hd
    exact direct (.leaf _ o)
  | group _ h =>
    subst hd
    exact direct (.group _ h)
  | unary _ hop h =>
    subst hd
    exact direct (.unary _ hop h)
  | @binary d s op l' r' tl' tr' hop hp hl' hr' ihl _ =>
    subst hd
    rcases Int.lt_or_eq_of_le hp with hlt | heq
    · exact direct (.binary hop hlt hl' hr')
    · obtain rfl := c.eq_operator hop heq.symm
      obtain ⟨t, ht, hequal⟩ := ihl rfl
      refine ⟨.binary (.connect c) t r', ?_, hequal.regroup⟩
      have hwhole := Grammar.Writes.binary hop hp ht hr'
      rwa [List.append_assoc] at hwhole

end Regrouping

/-- A tree agrees with a guard if an equal one does. -/
theorem Agrees.of_equal {scope : String} {h : isSegment scope = true}
    {t u : Tree Term UnaryOp InfixOp} {g : Guard} (hu : Agrees h u g)
    (he : t.Equal (Atom.meaning SignedNumeral.value scope h) u) : Agrees h t g where
  fits := he.fits.trans hu.fits
  holds s := by
    rw [he.eval s]
    exact hu.holds s

/-- The comparisons of a range write its tree, in parentheses. -/
theorem Variable.writes_range (v : Variable) (b : Bounds) (d : Demand) :
    Condition.Writes d (b.tree v) (Item.range v b).tokens := by
  have bound (o : Comparison) (n : SignedNumeral) {d : Demand} (hd : d.Admits 3) :
      Condition.Writes d (.binary (.apply o.op) (.leaf (.variable v)) (.leaf (.number n)))
        [Term.token (.variable v), .operator o.symbol, Term.token (.number n)] :=
    .binary o.lookup_symbol hd (.leaf _ _) (.leaf _ _)
  cases b with
  | atLeast low => exact .group d (bound .atLeast low (Demand.admits_anything 3))
  | atMost high => exact .group d (bound .atMost high (Demand.admits_anything 3))
  | between low high =>
    have hl : Connective.and.operator.leftDemand.Admits 3 := by
      show (2 : Int) ≤ 3
      decide
    have hr : Connective.and.operator.rightDemand.Admits 3 := Int.le_refl 3
    have hlow := bound .atLeast low hl
    have hhigh := bound .atMost high hr
    exact .group d
      (.binary Connective.and.lookup_symbol (Demand.admits_anything _) hlow hhigh)

/-- **A written guard has a tree.**  Its tokens, with every range replaced by its
comparisons, write a tree that may be compiled and holds where the guard holds. -/
theorem Guard.Written.exists_tree {scope : String} (h : isSegment scope = true) {d : Demand}
    {g : Guard} {is : List Item} (hw : g.Written d is) :
    ∃ t, Condition.Writes d t (is.flatMap Item.tokens) ∧ Agrees h t g := by
  induction hw with
  | operand d a => exact ⟨_, .leaf d a, .operand a⟩
  | compare hd o l r =>
    exact ⟨_, .binary o.lookup_symbol hd (.leaf _ l) (.leaf _ r), .compare o l r⟩
  | range d v b =>
    refine ⟨b.tree v, ?_, .range v b⟩
    rw [List.flatMap_singleton]
    exact v.writes_range b d
  | group d h ih =>
    obtain ⟨t, ht, hg⟩ := ih
    refine ⟨t, ?_, hg⟩
    rw [List.flatMap_cons, List.flatMap_append]
    exact .group d ht
  | not d h ih =>
    obtain ⟨t, ht, hg⟩ := ih
    have hop : Condition.grammar.unary.lookup "!" = some ⟨.not, 4, true⟩ := rfl
    exact ⟨_, .unary d hop ht, hg.not⟩
  | @connect d o hd l r il ir hl hr ihl ihr =>
    obtain ⟨tl, htl, hgl⟩ := ihl
    obtain ⟨tr, htr, hgr⟩ := ihr
    obtain ⟨t, ht, hequal⟩ := Condition.exists_writes_connect
      (Atom.meaning SignedNumeral.value scope h) htl htr
    refine ⟨t, ?_, (hgl.connect o hgr).of_equal hequal⟩
    rw [List.flatMap_append, List.flatMap_cons]
    exact ht.of_admits hd

end Gamebook
