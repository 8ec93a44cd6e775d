/-
# Values and errors of compiled trees

A compiler makes two kinds of trees.  Arithmetic joins numbers and variables by
signs and by the five operators of sums and products (`Expr.isArithmetic`).  A
condition joins them by `!`, comparisons and connectives, and compares nothing
but numbers and variables (`Expr.isCondition` with `Condition.firstMisfit?`).

Arithmetic is worth a number, and has no errors but an unset variable and a
division or remainder by zero (`Expr.ensures_eval_of_isArithmetic`).  A condition
is worth a number or a truth value, and has no errors but an unset variable
(`Expr.ensures_eval_of_isCondition`).
-/

import Gamebook.Script.Condition

namespace Gamebook

/-- A computation gives a result that satisfies `P` or an error that satisfies `E`. -/
def Ensures {ε α : Type} (P : α → Prop) (E : ε → Prop) : Except ε α → Prop
  | .ok a => P a
  | .error err => E err

namespace Ensures

variable {ε α β : Type} {P P' : α → Prop} {Q : β → Prop} {E E' : ε → Prop} {x : Except ε α}

/-- Computations one after the other ensure what the last one ensures, and stop with what each may
stop with. -/
theorem bind {f : α → Except ε β} (h : Ensures P E x) (hE : ∀ err, E err → E' err)
    (hf : ∀ a, P a → Ensures Q E' (f a)) : Ensures Q E' (x >>= f) := by
  cases x with
  | error err => exact hE err h
  | ok a => exact hf a h

/-- What is ensured may be weakened. -/
theorem mono (h : Ensures P E x) (hP : ∀ a, P a → P' a) (hE : ∀ err, E err → E' err) :
    Ensures P' E' x := by
  cases x with
  | error err => exact hE err h
  | ok a => exact hP a h

/-- A choice between two computations ensures what each ensures in its case. -/
theorem ite {p : Prop} [Decidable p] {y : Except ε α} (hx : p → Ensures P E x)
    (hy : ¬p → Ensures P E y) : Ensures P E (if p then x else y) := by
  split
  · exact hx ‹p›
  · exact hy ‹¬p›

end Ensures

namespace Value

/-- Whether a value is a number. -/
def IsNumber (v : Value) : Prop := ∃ x, v = .number x

/-- Whether a value is a truth value. -/
def IsTruth (v : Value) : Prop := ∃ b, v = .truth b

end Value

/-- The errors of code that takes values which are not there, leaves more than
one, or runs on and on. -/
def EvalError.isFault : EvalError → Bool
  | .leftover .. | .nothingToTake | .nothingOnTop | .endless => true
  | .undefined _ | .divisionByZero | .moduloByZero | .tooLarge => false

namespace Value

/-- Reading a value as a number does not disturb the machine. -/
theorem ensures_toNumber (v : Value) :
    Ensures (fun _ => True) (fun err => err.isFault = false) v.toNumber := by
  cases v with
  | number x => trivial
  | truth b => trivial
  | count n =>
    simp only [toNumber]
    split
    · trivial
    · rfl

end Value

namespace BinaryOp

/-- A comparison of numbers has a truth value. -/
theorem ensures_onNumbers_of_isComparison {op : BinaryOp} (h : op.isComparison = true)
    (x y : Float) : Ensures Value.IsTruth (fun _ => False) (op.onNumbers x y) := by
  cases op <;> first | exact absurd h Bool.false_ne_true | exact ⟨_, rfl⟩

/-- The other operators have a number, or divide by zero. -/
theorem ensures_onNumbers_of_not_isComparison {op : BinaryOp} (h : op.isComparison = false)
    (x y : Float) : Ensures Value.IsNumber
      (fun err => err = .divisionByZero ∨ err = .moduloByZero) (op.onNumbers x y) := by
  cases op with
  | add | sub | mul => exact ⟨_, rfl⟩
  | div => exact .ite (fun _ => .inl rfl) fun _ => ⟨_, rfl⟩
  | mod => exact .ite (fun _ => .inr rfl) fun _ => ⟨_, rfl⟩
  | _ => exact absurd h.symm Bool.false_ne_true

/-- No operator disturbs the machine, whatever the operands are. -/
theorem ensures_apply (op : BinaryOp) (a b : Value) :
    Ensures (fun _ => True) (fun err => err.isFault = false) (op.apply a b) := by
  have ofNumbers (x y : Float) :
      Ensures (fun _ => True) (fun err => err.isFault = false) (op.onNumbers x y) := by
    cases hc : op.isComparison with
    | true => exact (ensures_onNumbers_of_isComparison hc x y).mono (fun _ _ => trivial) (by simp)
    | false =>
      refine (ensures_onNumbers_of_not_isComparison hc x y).mono (fun _ _ => trivial) ?_
      rintro err (rfl | rfl) <;> rfl
  have ofCounts (m n : Int) :
      Ensures (fun _ => True) (fun err => err.isFault = false) (op.onCounts m n) := by
    cases op with
    | div | mod => exact .ite (fun _ => rfl) fun _ => trivial
    | _ => trivial
  unfold apply
  split
  · exact ofCounts _ _
  · exact a.ensures_toNumber.bind (fun _ => id) fun x _ =>
      b.ensures_toNumber.bind (fun _ => id) fun y _ => ofNumbers x y

end BinaryOp

namespace Expr

variable {s : Store} {e : Expr}

/-- The variables of a tree, from the left to the right. -/
def reads : Expr → List Identifier
  | number _ => []
  | «variable» i => [i]
  | unary _ e => e.reads
  | binary _ l r => l.reads ++ r.reads
  | logical _ l r => l.reads ++ r.reads

/-- Numbers and variables joined by signs, sums, products and remainders. -/
def isArithmetic : Expr → Bool
  | number _ | «variable» _ => true
  | unary op e => op != .not && e.isArithmetic
  | binary op l r => !op.isComparison && (l.isArithmetic && r.isArithmetic)
  | logical .. => false

/-- Numbers and variables joined by `!`, comparisons and connectives. -/
def isCondition : Expr → Bool
  | number _ | «variable» _ => true
  | unary op e => op == .not && e.isCondition
  | binary op l r => op.isComparison && (l.isCondition && r.isCondition)
  | logical _ l r => l.isCondition && r.isCondition

/-- The error of a variable of the tree that is not set. -/
def Unset (s : Store) (e : Expr) (err : EvalError) : Prop :=
  ∃ i ∈ e.reads, s.get? i = none ∧ err = .undefined i

/-- The errors of arithmetic. -/
def Undone (s : Store) (e : Expr) (err : EvalError) : Prop :=
  Unset s e err ∨ err = .divisionByZero ∨ err = .moduloByZero

/-- An expression that reads more has the same variables to be stopped by. -/
theorem Unset.mono {f : Expr} (h : ∀ i ∈ e.reads, i ∈ f.reads) {err : EvalError}
    (he : Unset s e err) : Unset s f err := by
  obtain ⟨i, hi, hs⟩ := he
  exact ⟨i, h i hi, hs⟩

/-- An expression that reads more has the same reasons to be stopped by. -/
theorem Undone.mono {f : Expr} (h : ∀ i ∈ e.reads, i ∈ f.reads) {err : EvalError}
    (he : Undone s e err) : Undone s f err :=
  he.imp (Unset.mono h) id

/-- A variable is worth its number, if it is set. -/
theorem ensures_eval_variable (s : Store) (i : Identifier) :
    Ensures Value.IsNumber (Unset s («variable» i)) ((«variable» i).eval s) := by
  rw [eval]
  cases hi : s.get? i with
  | none => exact ⟨i, List.mem_singleton_self i, hi, rfl⟩
  | some x => exact ⟨x, rfl⟩

/-- A leaf of a tree is worth a number. -/
theorem ensures_eval_of_isNumber (s : Store) (h : Condition.isNumber e = true) :
    Ensures Value.IsNumber (Unset s e) (e.eval s) := by
  cases e with
  | number x => exact ⟨x, rfl⟩
  | «variable» i => exact ensures_eval_variable s i
  | _ => exact absurd h Bool.false_ne_true

/-- No tree disturbs the machine. -/
theorem ensures_eval (s : Store) (e : Expr) :
    Ensures (fun _ => True) (fun err => err.isFault = false) (e.eval s) := by
  induction e with
  | number x => trivial
  | «variable» i =>
    refine (ensures_eval_variable s i).mono (fun _ _ => trivial) ?_
    rintro _ ⟨j, -, -, rfl⟩
    rfl
  | unary op e ih => exact ih.bind (fun _ => id) fun v _ => trivial
  | binary op l r ihl ihr =>
    exact ihl.bind (fun _ => id) fun a _ => ihr.bind (fun _ => id) fun b _ => op.ensures_apply a b
  | logical op l r ihl ihr =>
    refine ihl.bind (fun _ => id) fun a _ => .ite (fun _ => trivial) fun _ => ?_
    exact ihr.bind (fun _ => id) fun b _ => trivial

/-- A connective is worth a truth value. -/
theorem ensures_eval_logical (s : Store) (op : Connective) (l r : Expr) :
    Ensures Value.IsTruth (fun _ => True) ((logical op l r).eval s) := by
  refine (ensures_eval s l).bind (fun _ _ => trivial) fun a _ => .ite (fun _ => ⟨_, rfl⟩) fun _ => ?_
  exact (ensures_eval s r).bind (fun _ _ => trivial) fun b _ => ⟨_, rfl⟩

/-- **Arithmetic is worth a number**, unless a variable is not set or a divisor
is zero. -/
theorem ensures_eval_of_isArithmetic (s : Store) (h : e.isArithmetic = true) :
    Ensures Value.IsNumber (Undone s e) (e.eval s) := by
  induction e with
  | number x => exact ⟨x, rfl⟩
  | «variable» i => exact (ensures_eval_variable s i).mono (fun _ => id) fun _ => .inl
  | unary op e ih =>
    simp only [isArithmetic, Bool.and_eq_true, bne_iff_ne] at h
    refine (ih h.2).bind (fun _ => id) ?_
    rintro _ ⟨x, rfl⟩
    cases op with
    | neg => exact ⟨-x, rfl⟩
    | pos => exact ⟨x, rfl⟩
    | not => exact absurd rfl h.1
  | binary op l r ihl ihr =>
    simp only [isArithmetic, Bool.and_eq_true, Bool.not_eq_true'] at h
    refine (ihl h.2.1).bind (fun _ => Undone.mono fun _ => List.mem_append_left _) ?_
    rintro _ ⟨x, rfl⟩
    refine (ihr h.2.2).bind (fun _ => Undone.mono fun _ => List.mem_append_right _) ?_
    rintro _ ⟨y, rfl⟩
    rw [BinaryOp.apply_number]
    exact (BinaryOp.ensures_onNumbers_of_not_isComparison h.1 x y).mono (fun _ => id) fun _ => .inr
  | logical op l r => exact absurd h Bool.false_ne_true

/-- **A condition is worth a number or a truth value**, unless a variable is not
set. -/
theorem ensures_eval_of_isCondition (s : Store) (h : e.isCondition = true)
    (hm : Condition.firstMisfit? e = none) :
    Ensures (fun v => v.IsNumber ∨ v.IsTruth) (Unset s e) (e.eval s) := by
  induction e with
  | number x => exact .inl ⟨x, rfl⟩
  | «variable» i => exact (ensures_eval_variable s i).mono (fun _ => .inl) fun _ => id
  | unary op e ih =>
    simp only [isCondition, Bool.and_eq_true, beq_iff_eq] at h
    obtain rfl := h.1
    exact (ih h.2 hm).bind (fun _ => id) fun v _ => .inr ⟨_, rfl⟩
  | binary op l r ihl ihr =>
    simp only [isCondition, Bool.and_eq_true] at h
    simp only [Condition.firstMisfit?, h.1, Bool.true_and, Option.or_eq_none_iff,
      ite_eq_right_iff, reduceCtorEq, imp_false, Bool.not_eq_true, Bool.not_eq_false',
      Bool.and_eq_true] at hm
    -- the operands are leaves, so the comparison compares two numbers
    refine (ensures_eval_of_isNumber s hm.2.1).bind
      (fun _ => Unset.mono fun _ => List.mem_append_left _) ?_
    rintro _ ⟨x, rfl⟩
    refine (ensures_eval_of_isNumber s hm.2.2).bind
      (fun _ => Unset.mono fun _ => List.mem_append_right _) ?_
    rintro _ ⟨y, rfl⟩
    rw [BinaryOp.apply_number]
    exact (BinaryOp.ensures_onNumbers_of_isComparison h.1 x y).mono (fun _ => .inr) fun _ => False.elim
  | logical op l r ihl ihr =>
    simp only [isCondition, Bool.and_eq_true] at h
    simp only [Condition.firstMisfit?, Option.or_eq_none_iff] at hm
    refine (ihl h.1 hm.1).bind (fun _ => Unset.mono fun _ => List.mem_append_left _) fun a _ => ?_
    refine .ite (fun _ => .inr ⟨_, rfl⟩) fun _ => ?_
    exact (ihr h.2 hm.2).bind (fun _ => Unset.mono fun _ => List.mem_append_right _) fun b _ =>
      .inr ⟨_, rfl⟩

end Expr
end Gamebook
