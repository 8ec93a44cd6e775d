/-
# A compound assignment abbreviates a plain one

`x += e` stands for `x = x + (e)`, and so do the other compound signs with their operators.
The two are not carried out alike: a compound action evaluates `e`, then reads its target and
applies the operator outside of the compiled program, and its expansion reads the target
first and applies the operator inside.  They are compiled where `e` is, however oddly it is
written (`Action.exists_abbreviates`), and where the target is set they have the same number
or the same error (`Action.Abbreviates.value_eq`).  Where it is not, both fail; the expansion
then names the target, and the other what its expression is stopped by, if it is
(`Action.Abbreviates.value_of_unset`).
-/

import Gamebook.Proofs.Effects
import Gamebook.Proofs.Enclosing
import Gamebook.Proofs.Targets

namespace Gamebook

/-- The operator of a compound sign is one of arithmetic. -/
theorem Assignment.exists_lookup {sign : Assignment} {op : BinaryOp}
    (h : sign.operator? = some op) :
    ∃ o, Arithmetic.grammar.binary.lookup op.symbol = some o ∧ o.meaning = .apply op := by
  cases sign <;> simp [operator?] at h <;> subst h <;> exact ⟨_, rfl, rfl⟩

namespace Action

/-- A compound action, and an action that sets the same target to the operator applied to
the target and the expression. -/
structure Abbreviates (a b : Action) (op : BinaryOp) (e : Expr) : Prop where
  compound : a.sign.operator? = some op
  program : ∃ source, a.program = Program.ofExpr source e
  plain : b.sign.operator? = none
  target : b.target = a.target
  expanded : ∃ source, b.program = Program.ofExpr source (.binary op (.variable a.target) e)
  isArithmetic : e.isArithmetic = true

namespace Abbreviates

variable {a b : Action} {op : BinaryOp} {e : Expr} {s : Store}

/-- **Where the target is set**, both have the same number or the same error. -/
theorem value_eq (h : a.Abbreviates b op e) {old : Float} (hold : s.get? a.target = some old) :
    a.value s = b.value s := by
  obtain ⟨source, hprogram⟩ := h.program
  obtain ⟨source', hexpanded⟩ := h.expanded
  have hnumber := Expr.ensures_eval_of_isArithmetic s h.isArithmetic
  rw [value, value, hprogram, hexpanded, Expr.run_ofExpr, Expr.run_ofExpr, h.compound, h.plain,
    hold, Expr.eval, Expr.eval, hold]
  cases he : e.eval s with
  | error err => rfl
  | ok v =>
    rw [he] at hnumber
    obtain ⟨x, rfl⟩ := hnumber
    -- the operator is applied to the same numbers, and its result is read as a number once more
    show (op.onNumbers old x >>= Value.toNumber) =
      op.onNumbers old x >>= fun v => v.toNumber >>= pure
    simp only [bind_pure]

/-- **Where the target is not set**, both fail, and the expansion reads the target first. -/
theorem value_of_unset (h : a.Abbreviates b op e) (hunset : s.get? a.target = none) :
    (∃ err, a.value s = .error err) ∧ b.value s = .error (.undefined a.target) := by
  obtain ⟨source, hprogram⟩ := h.program
  obtain ⟨source', hexpanded⟩ := h.expanded
  have hnumber := Expr.ensures_eval_of_isArithmetic s h.isArithmetic
  constructor
  · rw [value, hprogram, Expr.run_ofExpr, h.compound, hunset]
    cases he : e.eval s with
    | error err => exact ⟨err, rfl⟩
    | ok v =>
      rw [he] at hnumber
      obtain ⟨x, rfl⟩ := hnumber
      exact ⟨_, rfl⟩
  · rw [value, hexpanded, Expr.run_ofExpr, Expr.eval, Expr.eval, hunset]
    rfl

/-- Where its target is set, an abbreviated action does what it abbreviates. -/
theorem evaluate_eq (h : a.Abbreviates b op e) {old : Float} (hold : s.get? a.target = some old) :
    a.evaluate s = b.evaluate s := by
  rw [evaluate_eq_map, evaluate_eq_map, h.value_eq hold, h.target]

/-- Where its target is not set, neither an abbreviated action nor what it abbreviates assigns a
number. -/
theorem evaluate_of_unset (h : a.Abbreviates b op e) (hunset : s.get? a.target = none) :
    (∃ err, a.evaluate s = .error err) ∧ b.evaluate s = .error (.undefined a.target) := by
  obtain ⟨⟨err, hfails⟩, hfails'⟩ := h.value_of_unset hunset
  exact ⟨⟨err, evaluate_of_value_error hfails⟩, evaluate_of_value_error hfails'⟩

end Abbreviates

/-- A text that is a name, a sign and an expression but for its blanks is compiled where the
expression is read as a tree. -/
theorem gives_of_tree {scope text : String} {n : Name} {i : Identifier}
    (hi : n.identifier? scope = some i) (sign : Assignment) {cs : List Char} {e : Expr}
    (htext : Text.compactChars text.toList = n.chars ++ (sign.symbol.toList ++ cs))
    (htree : Arithmetic.grammar.tree? Arithmetic.alphabet scope cs = some e) :
    (compile scope text).Gives
      (some ⟨Text.compact text, i, sign, Program.ofExpr (String.ofList cs) e⟩) := by
  have hsolid : Text.Solid cs := fun c hc => by
    have hmem : c ∈ Text.compactChars text.toList :=
      htext ▸ List.mem_append_right _ (List.mem_append_right _ hc)
    exact Text.isBlank_of_mem_compactChars hmem
  have hne : cs ≠ [] := by
    rintro rfl
    obtain ⟨ts, hts, hreads⟩ := Grammar.tree?_eq_some.1 htree
    exact Grammar.not_reads_of_tokens_nil hts hreads
  refine gives_of_compactChars hi sign htext hne ?_
  rw [Arithmetic.compiled?_of_solid hsolid hne, htree]
  rfl

/-- **A compound assignment and its expansion are compiled** where the expression is, to one
target. -/
theorem exists_abbreviates {scope : String} {target : Name} {i : Identifier} {sign : Assignment}
    {op : BinaryOp} {e text expansion : String} {c : Context} (hword : target.IsWord)
    (htarget : target.identifier? scope = some i) (hop : sign.operator? = some op)
    (he : (Arithmetic.compile scope e).Accepts c)
    (htext : Text.Spaced [target.chars, sign.symbol.toList, e.toList] text.toList)
    (hexpansion : Text.Spaced [target.chars, Assignment.set.symbol.toList, target.chars,
      op.symbol.toList, ['('], e.toList, [')']] expansion.toList) :
    ∃ a b tree, (compile scope text).Gives (some a) ∧ (compile scope expansion).Gives (some b) ∧
      a.target = i ∧ a.Abbreviates b op tree := by
  obtain ⟨ts, tree, hcut, hreads⟩ := Arithmetic.accepts_iff.1 he
  have htree := Grammar.tree?_eq_some.2 ⟨ts, hcut, hreads⟩
  obtain ⟨o, hlookup, hmeaning⟩ := sign.exists_lookup hop
  have hexpanded := Arithmetic.tree?_enclosed hword htarget hlookup htree
  rw [hmeaning, Expr.combine] at hexpanded
  have hsymbol : Text.Solid op.symbol.toList := by
    cases op <;> decide
  have hparentheses : Text.compactChars ['('] = ['('] ∧ Text.compactChars [')'] = [')'] := by
    decide
  have hcompact := htext.compactChars_flatMap
  have hcompact' := hexpansion.compactChars_flatMap
  simp only [List.flatMap_cons, List.flatMap_nil, List.append_nil, target.solid.compactChars_eq,
    sign.solid_symbol.compactChars_eq, Assignment.set.solid_symbol.compactChars_eq,
    hsymbol.compactChars_eq, hparentheses, List.cons_append, List.nil_append] at hcompact hcompact'
  exact ⟨_, _, tree, gives_of_tree htarget sign hcompact htree,
    gives_of_tree htarget .set hcompact' hexpanded, rfl,
    ⟨hop, ⟨_, rfl⟩, rfl, rfl, ⟨_, rfl⟩, hreads.holds Arithmetic.keeps_isArithmetic⟩⟩

/-- **A compound assignment agrees with its expansion.**  Let a name that starts with a letter
or an underscore name a variable inside a scope, as all such names do if the scope is a
segment, and let an expression be accepted there.  Then the compound assignment and the plain
one of the operator, the name and the expression in parentheses are compiled, with any blanks,
to the same target.  In every store both have the same number and leave the same store, or
both fail and leave the store as it is; where the target is set they fail with the same
error. -/
theorem compound_agrees {scope : String} {target : Name} {i : Identifier} {sign : Assignment}
    {op : BinaryOp} {e text expansion : String} {c : Context} (hword : target.IsWord)
    (htarget : target.identifier? scope = some i) (hop : sign.operator? = some op)
    (he : (Arithmetic.compile scope e).Accepts c)
    (htext : Text.Spaced [target.chars, sign.symbol.toList, e.toList] text.toList)
    (hexpansion : Text.Spaced [target.chars, Assignment.set.symbol.toList, target.chars,
      op.symbol.toList, ['('], e.toList, [')']] expansion.toList) :
    ∃ a b, (compile scope text).Gives (some a) ∧ (compile scope expansion).Gives (some b) ∧
      a.target = i ∧ b.target = i ∧ ∀ s,
        (∃ v t, a.evaluate s = .ok (v, t) ∧ b.evaluate s = .ok (v, t) ∧
          runAll [a] s = (none, t) ∧ runAll [b] s = (none, t)) ∨
        ∃ err err', a.evaluate s = .error err ∧ b.evaluate s = .error err' ∧
          runAll [a] s = (some err, s) ∧ runAll [b] s = (some err', s) ∧
          (s.get? i = none ∧ err' = .undefined i ∨ err = err') := by
  obtain ⟨a, b, tree, ha, hb, rfl, h⟩ :=
    exists_abbreviates hword htarget hop he htext hexpansion
  refine ⟨a, b, ha, hb, rfl, h.target, fun s => ?_⟩
  cases hget : s.get? a.target with
  | none =>
    obtain ⟨⟨err, hfails⟩, hfails'⟩ := h.evaluate_of_unset hget
    exact .inr ⟨err, _, hfails, hfails', runAll_cons_of_error hfails [],
      runAll_cons_of_error hfails' [], .inl ⟨rfl, rfl⟩⟩
  | some old =>
    have hsame := h.evaluate_eq hget
    cases hvalue : a.evaluate s with
    | error err =>
      rw [hvalue] at hsame
      exact .inr ⟨err, err, rfl, hsame.symm, runAll_cons_of_error hvalue [],
        runAll_cons_of_error hsame.symm [], .inr rfl⟩
    | ok result =>
      rw [hvalue] at hsame
      exact .inl ⟨result.1, result.2, rfl, hsame.symm, runAll_cons_of_ok hvalue [],
        runAll_cons_of_ok hsame.symm []⟩

/-- An expression with its operator behind both operands, one of them the target: where the
target is set, the compound assignment makes the same of a store as its expansion. -/
theorem compound_agrees_operator_behind :
    let x : Identifier := ⟨"a", "x", by decide, by decide⟩
    ∃ a b, (compile "a" "x *= 2 (x) -").Gives (some a) ∧
      (compile "a" "x = x * (2 (x) -)").Gives (some b) ∧ a.target = x ∧
      ∀ s, s.contains x = true → runAll [a] s = runAll [b] s := by
  intro x
  let target : Name := .short ⟨['x'], by decide⟩
  have hx : target.identifier? "a" = some x := rfl
  have hword : target.IsWord := by
    rintro c hc
    obtain rfl := Option.some.inj hc
    decide
  let tokens : List Token := [.operand (.number "2"), .opening, .operand (.word "x"), .closing,
    .operator "-"]
  have hlegible : Arithmetic.alphabet.Legible tokens :=
    .cons (by decide) rfl <| .cons (by decide) rfl <| .cons (by decide) rfl <|
      .cons (by decide) rfl <| .cons (by decide) rfl .nil
  have hcut : Arithmetic.Cut "2 (x) -" tokens := Alphabet.tokens_of_legible hlegible
  have hreads : Arithmetic.grammar.Reads "a" tokens
      (.binary .sub (.number (Expr.numeralValue "2")) (.variable x)) := ⟨_, rfl, rfl⟩
  have he : (Arithmetic.compile "a" "2 (x) -").Accepts {} :=
    Arithmetic.accepts_iff.2 ⟨tokens, _, hcut, hreads⟩
  have htext : Text.Spaced [target.chars, Assignment.mul.symbol.toList, "2 (x) -".toList]
      "x *= 2 (x) -".toList :=
    .cons [] rfl (.cons [' '] rfl (.cons [' '] rfl (.nil [] rfl)))
  have hexpansion : Text.Spaced [target.chars, Assignment.set.symbol.toList, target.chars,
      BinaryOp.mul.symbol.toList, ['('], "2 (x) -".toList, [')']] "x = x * (2 (x) -)".toList :=
    .cons [] rfl (.cons [' '] rfl (.cons [' '] rfl (.cons [' '] rfl (.cons [' '] rfl
      (.cons [] rfl (.cons [] rfl (.nil [] rfl)))))))
  obtain ⟨a, b, ha, hb, htarget, -, hagree⟩ :=
    compound_agrees hword hx rfl he htext hexpansion
  refine ⟨a, b, ha, hb, htarget, fun s hset => ?_⟩
  obtain ⟨v, t, -, -, hrun, hrun'⟩ | ⟨err, err', -, -, hrun, hrun', hunset | hsame⟩ := hagree s
  · rw [hrun, hrun']
  · rw [Store.contains, hunset.1] at hset
    contradiction
  · rw [hrun, hrun', hsame]

end Action
end Gamebook
