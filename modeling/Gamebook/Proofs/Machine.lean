/-
# The machine computes what a tree means

`Expr.code` lays out the code of a tree for the index at which it starts, with
jumps that name indices of the whole program; `Expr.eval` is the meaning of the
tree, by recursion.  A run over the code of a tree, wherever it stands in a
program and whatever lies on the stack, comes out behind that code with the
value of the tree on top, or stops with the first error of the tree
(`Expr.leads_code`).

`Expr.Part` says where the code of a subtree stands.  The jumps of a program are
exactly those of its connectives, and each lands where the code of its
connective ends (`Expr.getElem?_code_eq_jump_iff`).
-/

import Gamebook.Proofs.Evaluation

namespace Gamebook

namespace Program

/-- A piece of code stands in a program from an index on. -/
def Stands (program piece : List Instr) (n : Nat) : Prop :=
  ∃ before behind, program = before ++ piece ++ behind ∧ before.length = n

namespace Stands

variable {program a b : List Instr} {n : Nat}

/-- The first half of a piece. -/
theorem left (h : Stands program (a ++ b) n) : Stands program a n := by
  obtain ⟨before, behind, rfl, rfl⟩ := h
  exact ⟨before, b ++ behind, by simp only [List.append_assoc], rfl⟩

/-- The second half of a piece. -/
theorem right (h : Stands program (a ++ b) n) : Stands program b (n + a.length) := by
  obtain ⟨before, behind, rfl, rfl⟩ := h
  exact ⟨before ++ a, behind, by simp only [List.append_assoc], List.length_append⟩

/-- The first instruction of a piece. -/
theorem head {i : Instr} {rest : List Instr} (h : Stands program (i :: rest) n) :
    program[n]? = some i := by
  obtain ⟨before, behind, rfl, rfl⟩ := h
  simp

end Stands

/-- A run that is at an index with a stack comes, in a number of steps up to
`bound`, to an index `j` with the stack `r`, or stops with the error `r`. -/
def Leads (s : Store) (program : List Instr) (bound i : Nat) (stack : List Value) (j : Nat)
    (r : Except EvalError (List Value)) : Prop :=
  ∃ n ≤ bound, ∀ steps, runFrom s program (steps + n) i stack = r >>= runFrom s program steps j

variable {s : Store} {program : List Instr} {b c i j k : Nat} {stack below : List Value}
  {r : Except EvalError (List Value)}

/-- Where a run is, it is in no steps. -/
theorem Leads.refl : Leads s program b i stack i (pure stack) :=
  ⟨0, Nat.zero_le b, fun _ => rfl⟩

/-- One instruction is one step. -/
theorem Leads.step {instr : Instr} (hi : program[i]? = some instr)
    (hs : Program.step s i instr stack = r >>= fun below => pure (j, below)) :
    Leads s program 1 i stack j r := by
  refine ⟨1, Nat.le_refl 1, fun steps => ?_⟩
  rw [runFrom]
  simp only [hi, hs, bind_assoc, pure_bind]

/-- A bound may be raised. -/
theorem Leads.mono (h : Leads s program b i stack j r) (hbc : b ≤ c) :
    Leads s program c i stack j r := by
  obtain ⟨n, hn, hrun⟩ := h
  exact ⟨n, Nat.le_trans hn hbc, hrun⟩

/-- Runs that follow each other are one run. -/
theorem Leads.andThen {α : Type} {x : Except EvalError α} {g : α → List Value}
    {f : α → Except EvalError (List Value)}
    (h : Leads s program b i stack j (x >>= fun a => pure (g a)))
    (hf : ∀ a, x = .ok a → Leads s program c j (g a) k (f a)) :
    Leads s program (b + c) i stack k (x >>= f) := by
  obtain ⟨n, hn, hrun⟩ := h
  cases x with
  | error err => exact ⟨n, by omega, hrun⟩
  | ok a =>
    obtain ⟨m, hm, hnext⟩ := hf a rfl
    refine ⟨m + n, by omega, fun steps => ?_⟩
    rw [← Nat.add_assoc, hrun]
    exact hnext steps

/-- A step that cannot fail, and the run behind it. -/
theorem Leads.next {instr : Instr} (hi : program[i]? = some instr)
    (hs : Program.step s i instr stack = .ok (j, below)) (h : Leads s program b j below k r) :
    Leads s program (1 + b) i stack k r :=
  Leads.andThen (x := .ok below) (g := id) (f := fun _ => r) (.step hi hs) fun _ hb => by
    cases hb
    exact h

/-- A run outside the program is over. -/
theorem runFrom_of_length_le (h : program.length ≤ i) (steps : Nat) (stack : List Value) :
    runFrom s program steps i stack = .ok stack := by
  unfold runFrom
  rw [List.getElem?_eq_none h]

end Program

namespace Expr

open Program

/-- **The code of a tree leaves its value.**  Wherever the code stands and
whatever lies on the stack, the run comes out behind the code with the value on
top, or stops with the error of the tree; it takes no more steps than the code
has instructions. -/
theorem leads_code (s : Store) (program : List Instr) (e : Expr) :
    ∀ (start : Nat) (stack : List Value), Stands program (e.code start) start →
      Leads s program (e.code start).length start stack (start + (e.code start).length)
        (e.eval s >>= fun v => pure (v :: stack)) := by
  induction e with
  | number x =>
    intro start stack h
    exact .step h.head rfl
  | «variable» i =>
    intro start stack h
    refine .step h.head ?_
    simp only [Program.step, eval]
    cases s.get? i <;> rfl
  | unary op e ih =>
    intro start stack h
    rw [code] at h ⊢
    simp only [List.length_append, List.length_singleton, eval, bind_assoc, pure_bind]
    exact (ih start stack h.left).andThen fun v _ => .step h.right.head rfl
  | binary op l r ihl ihr =>
    intro start stack h
    rw [code] at h ⊢
    have hop := h.right.head
    rw [List.length_append, ← Nat.add_assoc] at hop
    simp only [List.length_append, List.length_singleton, eval, bind_assoc, Nat.add_assoc]
    refine (ihl start stack h.left.left).andThen fun x _ => ?_
    refine (ihr _ (x :: stack) h.left.right).andThen fun y _ => .step hop ?_
    simp only [Program.step, bind_assoc, pure_bind, Nat.add_assoc]
  | logical op l r ihl ihr =>
    intro start stack h
    -- the code is that of `l`, `truth` and the jump, that of `r`, and `truth`
    rw [code] at h ⊢
    have htruth := h.left.left.right.head
    have hjump := (h.left.left.right.right (a := [_])).head
    have hr := h.left.right
    have hlast := h.right.head
    simp only [List.length_append, List.length_cons, List.length_nil, ← Nat.add_assoc,
      Nat.zero_add] at hr hlast hjump ⊢
    simp only [eval, bind_assoc]
    refine Leads.mono (b := (l.code start).length +
      (1 + (1 + ((r.code (start + (l.code start).length + 2)).length + 1)))) ?_ (by omega)
    refine (ihl start stack h.left.left.left).andThen fun x _ => .next htruth rfl ?_
    by_cases hx : x.isTrue = op.settledBy
    · -- the left operand settles the connective and the jump is taken
      simp only [if_pos hx, pure_bind]
      exact .next hjump (if_pos hx) .refl
    · simp only [if_neg hx, bind_assoc, pure_bind]
      exact .next hjump (if_neg hx) ((ihr _ stack hr).andThen fun y _ => .step hlast rfl)

/-- With as many steps as it has instructions, or more, a tree's code ends with
the tree's value alone on the stack. -/
theorem runFrom_code_zero (e : Expr) (s : Store) (more : Nat) :
    runFrom s (e.code 0) ((e.code 0).length + more) 0 [] = e.eval s >>= fun v => pure [v] := by
  obtain ⟨n, hn, hrun⟩ := e.leads_code s (e.code 0) 0 [] ⟨[], [], by simp, rfl⟩
  have hsteps : (e.code 0).length + more = ((e.code 0).length + more - n) + n := by omega
  rw [hsteps, hrun, Nat.zero_add]
  cases e.eval s with
  | error err => rfl
  | ok v => exact runFrom_of_length_le (Nat.le_refl _) ..

/-- The program of a tree gives the value of the tree, or its error. -/
theorem run_ofExpr (source : String) (e : Expr) (s : Store) :
    (Program.ofExpr source e).run s = e.eval s := by
  rw [Program.run, Program.ofExpr, runFrom_code_zero]
  cases e.eval s <;> rfl

/-! ### Where the jumps land -/

/-- `Part f n e start`: the tree `f` is a part of `e`, and its code starts at
`n` if the code of `e` starts at `start`. -/
inductive Part (f : Expr) (n : Nat) : Expr → Nat → Prop
  | self : Part f n f n
  | unary {op e start} : Part f n e start → Part f n (.unary op e) start
  | binaryLeft {op l r start} : Part f n l start → Part f n (.binary op l r) start
  | binaryRight {op l r start} : Part f n r (start + (l.code start).length) →
      Part f n (.binary op l r) start
  | logicalLeft {op l r start} : Part f n l start → Part f n (.logical op l r) start
  | logicalRight {op l r start} : Part f n r (start + (l.code start).length + 2) →
      Part f n (.logical op l r) start

/-- The index of the jump of a connective, for the index at which its code
starts. -/
def jumpIndex (l : Expr) (start : Nat) : Nat := start + (l.code start).length + 1

/-- The index behind the code of a tree. -/
def stop (e : Expr) (start : Nat) : Nat := start + (e.code start).length

/-- The code of a connective ends at the target of its jump. -/
theorem stop_logical (op : Connective) (l r : Expr) (start : Nat) :
    (logical op l r).stop start = start + (l.code start).length + 2 +
      (r.code (start + (l.code start).length + 2)).length + 1 := by
  simp only [stop, code, List.length_append, List.length_cons, List.length_nil]
  omega

/-- Where the code of an expression stands, the code of each part of it stands in its place. -/
theorem stands_code_of_part {f e : Expr} {n start : Nat} (h : Part f n e start)
    {program : List Instr} (he : Stands program (e.code start) start) :
    Stands program (f.code n) n := by
  induction h with
  | self => exact he
  | unary _ ih => exact ih (by rw [code] at he; exact he.left)
  | binaryLeft _ ih => exact ih (by rw [code] at he; exact he.left.left)
  | binaryRight _ ih => exact ih (by rw [code] at he; exact he.left.right)
  | logicalLeft _ ih => exact ih (by rw [code] at he; exact he.left.left.left)
  | logicalRight _ ih =>
    refine ih ?_
    rw [code] at he
    have := he.left.right
    rwa [List.length_append, ← Nat.add_assoc] at this

/-- The jump of a connective lands where the code of the connective ends. -/
theorem getElem?_of_part {op : Connective} {l r e : Expr} {n start : Nat}
    (h : Part (.logical op l r) n e start) {program : List Instr}
    (he : Stands program (e.code start) start) :
    program[l.jumpIndex n]? = some (.jump op ((logical op l r).stop n)) := by
  have hs := stands_code_of_part h he
  rw [code] at hs
  have hjump : program[l.jumpIndex n]? = _ := (hs.left.left.right.right (a := [_])).head
  rw [hjump, stop_logical]

/-- An element of two lists in a row is one of the first or one of the second. -/
theorem getElem?_append_cases {α : Type} {a b : List α} {k : Nat} {x : α}
    (h : (a ++ b)[k]? = some x) : a[k]? = some x ∨ ∃ m, k = a.length + m ∧ b[m]? = some x := by
  rcases Nat.lt_or_ge k a.length with hk | hk
  · exact .inl (by rwa [List.getElem?_append_left hk] at h)
  · exact .inr ⟨k - a.length, by omega, by rwa [List.getElem?_append_right hk] at h⟩

/-- Every jump of a tree's code is that of a connective. -/
theorem exists_part_of_jump (e : Expr) : ∀ (start k : Nat) {op : Connective} {target : Nat},
    (e.code start)[k]? = some (.jump op target) → ∃ l r n, Part (.logical op l r) n e start ∧
      start + k = l.jumpIndex n ∧ target = (logical op l r).stop n := by
  induction e with
  | number x =>
    intro start k op target h
    rcases k with _ | k <;> simp [code] at h
  | «variable» i =>
    intro start k op target h
    rcases k with _ | k <;> simp [code] at h
  | unary op e ih =>
    intro start k op' target h
    rcases getElem?_append_cases h with he | ⟨m, -, ho⟩
    · obtain ⟨l, r, n, hp, hk⟩ := ih start k he
      exact ⟨l, r, n, .unary hp, hk⟩
    · rcases m with _ | m <;> simp at ho
  | binary op l r ihl ihr =>
    intro start k op' target h
    rcases getElem?_append_cases h with hlr | ⟨m, -, ho⟩
    · rcases getElem?_append_cases hlr with hl | ⟨m, rfl, hr⟩
      · obtain ⟨l', r', n, hp, hk⟩ := ihl start k hl
        exact ⟨l', r', n, .binaryLeft hp, hk⟩
      · obtain ⟨l', r', n, hp, hk, ht⟩ := ihr _ m hr
        exact ⟨l', r', n, .binaryRight hp, by omega, ht⟩
    · rcases m with _ | m <;> simp at ho
  | logical op l r ihl ihr =>
    intro start k op' target h
    rcases getElem?_append_cases h with hlr | ⟨m, -, ho⟩
    · rcases getElem?_append_cases hlr with hlj | ⟨m, rfl, hr⟩
      · rcases getElem?_append_cases hlj with hl | ⟨m, rfl, hj⟩
        · obtain ⟨l', r', n, hp, hk⟩ := ihl start k hl
          exact ⟨l', r', n, .logicalLeft hp, hk⟩
        · -- `truth` is no jump; behind it stands the jump of this connective
          rcases m with _ | _ | m
          · simp at hj
          · obtain ⟨rfl, rfl⟩ : op = op' ∧ _ = target := by simpa using hj
            exact ⟨l, r, start, .self, by simp only [jumpIndex]; omega, (stop_logical ..).symm⟩
          · simp at hj
      · obtain ⟨l', r', n, hp, hk, ht⟩ := ihr _ m hr
        refine ⟨l', r', n, .logicalRight hp, ?_, ht⟩
        simp only [List.length_append, List.length_cons, List.length_nil]
        omega
    · rcases m with _ | m <;> simp at ho

/-- **The jumps of a program are those of its connectives**, and each lands
where the code of its connective ends. -/
theorem getElem?_code_eq_jump_iff (e : Expr) (k : Nat) (op : Connective) (target : Nat) :
    (e.code 0)[k]? = some (.jump op target) ↔ ∃ l r n, Part (.logical op l r) n e 0 ∧
      k = l.jumpIndex n ∧ target = (logical op l r).stop n := by
  constructor
  · intro h
    simpa only [Nat.zero_add] using e.exists_part_of_jump 0 k h
  · rintro ⟨l, r, n, hp, rfl, rfl⟩
    exact getElem?_of_part hp ⟨[], [], by simp, rfl⟩

/-- **The program of a tree does what the tree means.**  It gives the value or
the first error of `Expr.eval`; it never takes a value that is not there, leaves
more or fewer than one, or fails to end; a connective gives a truth value,
arithmetic and checked conditions have no errors but those of their variables
and divisors; and its jumps are those of the connectives, each landing behind
the code of its connective. -/
theorem machine_agrees_with_eval (source : String) (e : Expr) (s : Store) :
    (Program.ofExpr source e).run s = e.eval s ∧
      Ensures (fun _ => True) (fun err => err.isFault = false) ((Program.ofExpr source e).run s) ∧
      (∀ op l r, e = logical op l r →
        Ensures Value.IsTruth (fun _ => True) ((Program.ofExpr source e).run s)) ∧
      (e.isArithmetic = true →
        Ensures Value.IsNumber (Undone s e) ((Program.ofExpr source e).run s)) ∧
      (e.isCondition = true → Condition.firstMisfit? e = none →
        Ensures (fun v => v.IsNumber ∨ v.IsTruth) (Unset s e) ((Program.ofExpr source e).run s)) ∧
      ∀ k op target, (Program.ofExpr source e).code[k]? = some (.jump op target) ↔
        ∃ l r n, Part (.logical op l r) n e 0 ∧ k = l.jumpIndex n ∧
          target = (logical op l r).stop n := by
  rw [run_ofExpr]
  refine ⟨rfl, ensures_eval s e, ?_, ensures_eval_of_isArithmetic s,
    ensures_eval_of_isCondition s, getElem?_code_eq_jump_iff e⟩
  rintro op l r rfl
  exact ensures_eval_logical s op l r

/-- `!a && (b > 0 || a)`, a connective inside another, is a checked condition. -/
theorem machine_agrees_with_eval_nested :
    let a := «variable» ⟨"s", "a", by decide, by decide⟩
    let b := «variable» ⟨"s", "b", by decide, by decide⟩
    let e := logical .and (unary .not a) (logical .or (binary .greater b (number 0)) a)
    e.isCondition = true ∧ Condition.firstMisfit? e = none ∧
      Ensures (fun v => v.IsNumber ∨ v.IsTruth) (Unset .empty e)
        ((Program.ofExpr "" e).run .empty) := by
  intro a b e
  have hc : e.isCondition = true := rfl
  have hm : Condition.firstMisfit? e = none := rfl
  exact ⟨hc, hm, (machine_agrees_with_eval "" e .empty).2.2.2.2.1 hc hm⟩

end Expr
end Gamebook
