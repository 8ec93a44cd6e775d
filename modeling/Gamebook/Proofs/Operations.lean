/-
# What operators are applied to

Numbers and truth values lie on one stack, and the machine does not look which of them an
operator takes.  What it does apply are the applications of a run (`Program.applications`).
They are those of the tree, in the order in which `Expr.eval` makes them
(`Expr.applications_ofExpr`), so what the compiler checks of the tree holds at run time: a
condition compares nothing but numbers (`Expr.isNumeric_of_isCondition`).

With what trees are worth, this makes every text that is compiled a safe program
(`compiled_runs_safely`).
-/

import Gamebook.Proofs.Locality

namespace Gamebook

/-- An operator with the two values that it takes. -/
structure Application where
  op : BinaryOp
  left : Value
  right : Value

/-- Whether both values are numbers. -/
def Application.IsNumeric (a : Application) : Prop := a.left.IsNumber ∧ a.right.IsNumber

/-! ## Applications of a run -/

/-- What is listed behind a computation: nothing where it stops. -/
def listed {ε α β : Type} (x : Except ε α) (f : α → List β) : List β :=
  match x with
  | .ok a => f a
  | .error _ => []

section

variable {ε α β γ : Type}

/-- What a result lists is listed. -/
@[simp]
theorem listed_pure (a : α) (f : α → List β) : listed (pure a : Except ε α) f = f a := rfl

/-- Where there is no result, nothing is listed. -/
@[simp]
theorem listed_error (e : ε) (f : α → List β) : listed (.error e) f = [] := rfl

/-- Where no result lists anything, nothing is listed. -/
@[simp]
theorem listed_nil (x : Except ε α) : listed x (fun _ => ([] : List β)) = [] := by
  cases x <;> rfl

/-- What is listed is listed by a result. -/
theorem mem_listed {x : Except ε α} {f : α → List β} {b : β} :
    b ∈ listed x f ↔ ∃ a, x = .ok a ∧ b ∈ f a := by
  cases x <;> simp [listed]

/-- Of computations one after the other, the results of the last are listed. -/
theorem listed_bind (x : Except ε α) (g : α → Except ε γ) (f : γ → List β) :
    listed (x >>= g) f = listed x fun a => listed (g a) f := by
  cases x <;> rfl

end

/-- The application that an instruction makes. -/
def Instr.application? : Instr → List Value → Option Application
  | .binary op, b :: a :: _ => some ⟨op, a, b⟩
  | _, _ => none

namespace Program

/-- The applications of a run from an index, in a number of steps. -/
def applicationsFrom (s : Store) (code : List Instr) : Nat → Nat → List Value → List Application
  | 0, _, _ => []
  | steps + 1, index, stack =>
    match code[index]? with
    | none => []
    | some instr =>
      (instr.application? stack).toList ++
        listed (step s index instr stack) fun (next, stack) =>
          applicationsFrom s code steps next stack

/-- The operators that a program applies, each with the values that it takes. -/
def applications (p : Program) (s : Store) : List Application :=
  applicationsFrom s p.code (p.code.length + patience) 0 []

/-- A run that is at an index with a stack makes some applications on its way to an
index `j` with the stack `r`, or until it stops with the error `r`. -/
def Applies (s : Store) (program : List Instr) (bound i : Nat) (stack : List Value) (j : Nat)
    (r : Except EvalError (List Value)) (made : List Application) : Prop :=
  ∃ n ≤ bound, ∀ steps, applicationsFrom s program (steps + n) i stack =
    made ++ listed r (applicationsFrom s program steps j)

variable {s : Store} {program : List Instr} {b c i j k : Nat} {stack below : List Value}
  {r : Except EvalError (List Value)} {made : List Application}

/-- Where a run is, it has made nothing. -/
theorem Applies.refl : Applies s program b i stack i (pure stack) [] :=
  ⟨0, Nat.zero_le b, fun _ => rfl⟩

/-- One instruction makes one application at most. -/
theorem Applies.step {instr : Instr} (hi : program[i]? = some instr)
    (hs : Program.step s i instr stack = r >>= fun below => pure (j, below)) :
    Applies s program 1 i stack j r (instr.application? stack).toList := by
  refine ⟨1, Nat.le_refl 1, fun steps => ?_⟩
  rw [applicationsFrom]
  simp only [hi, hs, listed_bind, listed_pure]

/-- A bound may be raised. -/
theorem Applies.mono (h : Applies s program b i stack j r made) (hbc : b ≤ c) :
    Applies s program c i stack j r made := by
  obtain ⟨n, hn, hrun⟩ := h
  exact ⟨n, Nat.le_trans hn hbc, hrun⟩

/-- Runs that follow each other make their applications one after the other. -/
theorem Applies.andThen {α : Type} {x : Except EvalError α} {g : α → List Value}
    {f : α → Except EvalError (List Value)} {more : α → List Application}
    (h : Applies s program b i stack j (x >>= fun a => pure (g a)) made)
    (hf : ∀ a, x = .ok a → Applies s program c j (g a) k (f a) (more a)) :
    Applies s program (b + c) i stack k (x >>= f) (made ++ listed x more) := by
  obtain ⟨n, hn, hrun⟩ := h
  cases x with
  | error err => exact ⟨n, by omega, fun steps => by simpa [listed_bind] using hrun steps⟩
  | ok a =>
    obtain ⟨m, hm, hnext⟩ := hf a rfl
    refine ⟨m + n, by omega, fun steps => ?_⟩
    rw [← Nat.add_assoc, hrun, List.append_assoc]
    exact congrArg (made ++ ·) (hnext steps)

/-- A run behind which nothing more is applied. -/
theorem Applies.last {α : Type} {x : Except EvalError α} {g : α → List Value}
    {f : α → Except EvalError (List Value)}
    (h : Applies s program b i stack j (x >>= fun a => pure (g a)) made)
    (hf : ∀ a, x = .ok a → Applies s program c j (g a) k (f a) []) :
    Applies s program (b + c) i stack k (x >>= f) made := by
  simpa using h.andThen hf

/-- A step that applies nothing, and the run behind it. -/
theorem Applies.next {instr : Instr} (hi : program[i]? = some instr)
    (hs : Program.step s i instr stack = .ok (j, below))
    (hnone : instr.application? stack = none) (h : Applies s program b j below k r made) :
    Applies s program (1 + b) i stack k r made := by
  obtain ⟨n, hn, hrun⟩ := h
  refine ⟨n + 1, by omega, fun steps => ?_⟩
  rw [← Nat.add_assoc, applicationsFrom]
  simp only [hi, hs, hnone]
  exact hrun steps

/-- A run outside the program makes nothing more. -/
theorem applicationsFrom_of_length_le (h : program.length ≤ i) (steps : Nat)
    (stack : List Value) : applicationsFrom s program steps i stack = [] := by
  cases steps with
  | zero => rfl
  | succ steps => rw [applicationsFrom, List.getElem?_eq_none h]

end Program

/-! ## Applications of a tree -/

namespace Expr

open Program

variable {s : Store} {e : Expr}

/-- The applications that make the value of a tree. -/
def applications (s : Store) : Expr → List Application
  | number _ | «variable» _ => []
  | unary _ e => e.applications s
  | binary op l r =>
    l.applications s ++ listed (l.eval s) fun a =>
      r.applications s ++ listed (r.eval s) fun b => [⟨op, a, b⟩]
  | logical op l r =>
    l.applications s ++ listed (l.eval s) fun a =>
      if a.isTrue = op.settledBy then [] else r.applications s

/-- **The code of a tree applies what the tree applies**, wherever it stands and whatever
lies on the stack. -/
theorem applies_code (s : Store) (program : List Instr) (e : Expr) :
    ∀ (start : Nat) (stack : List Value), Stands program (e.code start) start →
      Applies s program (e.code start).length start stack (start + (e.code start).length)
        (e.eval s >>= fun v => pure (v :: stack)) (e.applications s) := by
  induction e with
  | number x =>
    intro start stack h
    exact .step h.head rfl
  | «variable» i =>
    intro start stack h
    refine .step h.head ?_
    simp only [Program.step, eval]
    cases s.get? i <;> rfl
  | unary op e ih =>
    intro start stack h
    rw [code] at h ⊢
    simp only [List.length_append, List.length_singleton, eval, bind_assoc, pure_bind]
    exact (ih start stack h.left).last fun v _ => .step h.right.head rfl
  | binary op l r ihl ihr =>
    intro start stack h
    rw [code] at h ⊢
    have hop := h.right.head
    rw [List.length_append, ← Nat.add_assoc] at hop
    simp only [List.length_append, List.length_singleton, eval, bind_assoc, Nat.add_assoc]
    refine (ihl start stack h.left.left).andThen fun x _ => ?_
    refine (ihr _ (x :: stack) h.left.right).andThen fun y _ => .step hop ?_
    simp only [Program.step, bind_assoc, pure_bind, Nat.add_assoc]
  | logical op l r ihl ihr =>
    intro start stack h
    -- the code is that of `l`, `truth` and the jump, that of `r`, and `truth`
    rw [code] at h ⊢
    have htruth := h.left.left.right.head
    have hjump := (h.left.left.right.right (a := [_])).head
    have hr := h.left.right
    have hlast := h.right.head
    simp only [List.length_append, List.length_cons, List.length_nil, ← Nat.add_assoc,
      Nat.zero_add] at hr hlast hjump ⊢
    simp only [eval, bind_assoc]
    refine Applies.mono (b := (l.code start).length +
      (1 + (1 + ((r.code (start + (l.code start).length + 2)).length + 1)))) ?_ (by omega)
    refine (ihl start stack h.left.left.left).andThen fun x _ => .next htruth rfl rfl ?_
    by_cases hx : x.isTrue = op.settledBy
    · -- the left operand settles the connective and the jump is taken
      simp only [if_pos hx, pure_bind]
      exact .next hjump (if_pos hx) rfl .refl
    · simp only [if_neg hx, bind_assoc, pure_bind]
      exact .next hjump (if_neg hx) rfl ((ihr _ stack hr).last fun y _ => .step hlast rfl)

/-- With as many steps as it has instructions, or more, a tree's code applies what the tree
applies. -/
theorem applicationsFrom_code_zero (e : Expr) (s : Store) (more : Nat) :
    applicationsFrom s (e.code 0) ((e.code 0).length + more) 0 [] = e.applications s := by
  obtain ⟨n, hn, hrun⟩ := e.applies_code s (e.code 0) 0 [] ⟨[], [], by simp, rfl⟩
  have hsteps : (e.code 0).length + more = ((e.code 0).length + more - n) + n := by omega
  rw [hsteps, hrun, Nat.zero_add, listed_bind]
  -- the run is at the end of the code, where it makes nothing more
  simp only [listed_pure, applicationsFrom_of_length_le (Nat.le_refl _), listed_nil,
    List.append_nil]

/-- The program of a tree applies what the tree applies, and in the same order. -/
theorem applications_ofExpr (source : String) (e : Expr) (s : Store) :
    (Program.ofExpr source e).applications s = e.applications s :=
  applicationsFrom_code_zero e s patience

/-- What is worth a number where it has a value. -/
theorem isNumber_of_eval_eq_ok {v : Value} (h : Condition.isNumber e = true)
    (hv : e.eval s = .ok v) : v.IsNumber := by
  have hensures := ensures_eval_of_isNumber s h
  rwa [hv] at hensures

/-- **A checked condition compares numbers**, and applies nothing but comparisons. -/
theorem isNumeric_of_isCondition (h : e.isCondition = true)
    (hm : Condition.firstMisfit? e = none) :
    ∀ a ∈ e.applications s, a.op.isComparison = true ∧ a.IsNumeric := by
  induction e with
  | number | «variable» => exact List.forall_mem_nil _
  | unary op e ih =>
    simp only [isCondition, Bool.and_eq_true] at h
    exact ih h.2 hm
  | binary op l r ihl ihr =>
    simp only [isCondition, Bool.and_eq_true] at h
    obtain ⟨hop, hl, hr⟩ := h
    simp only [Condition.firstMisfit?, hop, Bool.true_and, Option.or_eq_none_iff,
      ite_eq_right_iff, reduceCtorEq, imp_false, Bool.not_eq_true, Bool.not_eq_false',
      Bool.and_eq_true] at hm
    obtain ⟨⟨hmeetsl, hmeetsr⟩, hleafl, hleafr⟩ := hm
    intro a ha
    rw [applications, List.mem_append, mem_listed] at ha
    rcases ha with ha | ⟨x, hx, ha⟩
    · exact ihl hl hmeetsl a ha
    · rw [List.mem_append, mem_listed] at ha
      rcases ha with ha | ⟨y, hy, ha⟩
      · exact ihr hr hmeetsr a ha
      · -- the operands are leaves of the tree, and these are worth numbers
        obtain rfl := List.mem_singleton.1 ha
        exact ⟨hop, isNumber_of_eval_eq_ok hleafl hx, isNumber_of_eval_eq_ok hleafr hy⟩
  | logical op l r ihl ihr =>
    simp only [isCondition, Bool.and_eq_true] at h
    simp only [Condition.firstMisfit?, Option.or_eq_none_iff] at hm
    intro a ha
    rw [applications, List.mem_append, mem_listed] at ha
    rcases ha with ha | ⟨x, -, ha⟩
    · exact ihl h.1 hm.1 a ha
    · split at ha
      · exact absurd ha List.not_mem_nil
      · exact ihr h.2 hm.2 a ha

end Expr

/-! ## Texts that are compiled -/

/-- A variable is named by a word among some tokens. -/
def Token.Names (scope : String) (ts : List Token) (i : Identifier) : Prop :=
  ∃ word, .operand (.word word) ∈ ts ∧ Identifier.ofText? scope word = some i

/-- A variable occurs in an expression. -/
def Arithmetic.Occurs (scope text : String) (i : Identifier) : Prop :=
  ∃ ts, Cut text ts ∧ Token.Names scope ts i

/-- A variable occurs in a condition. -/
def Condition.Occurs (scope text : String) (i : Identifier) : Prop :=
  ∃ ts, Cut text ts ∧ Token.Names scope ts i

/-- **An expression is compiled to the program of an arithmetic tree** over the variables
that occur in it. -/
theorem Arithmetic.yields_tree (scope text : String) : (compile scope text).Yields fun p =>
    ∃ source e, p = Program.ofExpr source e ∧ e.isArithmetic = true ∧
      ∀ i ∈ e.reads, Occurs scope text i := by
  intro c p c' hp
  have hcompiled := (gives_compile scope text).yields c p c' hp
  rw [compiled?] at hcompiled
  split at hcompiled
  · contradiction
  · obtain ⟨e, he, hp⟩ := Option.bind_eq_some_iff.1 hcompiled
    obtain ⟨ts, hts, hreads⟩ := Grammar.tree?_eq_some.1 he
    rw [Text.compact, String.toList_ofList] at hts
    exact ⟨_, e, (Option.some.inj hp).symm, hreads.holds keeps_isArithmetic,
      fun i hi => ⟨ts, hts, hreads.exists_word i hi⟩⟩

/-- **A condition is compiled to the program of a checked tree** over the variables that
occur in it. -/
theorem Condition.yields_tree (scope text : String) : (compileText scope text).Yields fun c =>
    ∃ e, c.program = Program.ofExpr text e ∧ e.isCondition = true ∧ firstMisfit? e = none ∧
      ∀ i ∈ e.reads, Occurs scope text i := by
  intro context c context' hrun
  have hcompiled := (gives_compile scope text).yields context c context' hrun
  obtain ⟨source, hsource, hcompiled⟩ := Option.bind_eq_some_iff.1 hcompiled
  obtain ⟨hranges, hpoints⟩ := expanded?_compact_eq_some.1 hsource
  split at hcompiled
  · contradiction
  · obtain ⟨e, he, hcondition⟩ := Option.bind_eq_some_iff.1 hcompiled
    obtain ⟨ts, hts, hreads⟩ := Grammar.tree?_eq_some.1 he
    split at hcondition
    · rename_i hfits
      obtain rfl := Option.some.inj hcondition
      exact ⟨e, rfl, hreads.holds keeps_isCondition, hfits,
        fun i hi => ⟨ts, ⟨_, hranges, hpoints, hts⟩, hreads.exists_word i hi⟩⟩
    · contradiction

/-- **What is compiled runs without errors of types.**  A condition compares nothing but
numbers, and is worth a number or a truth value that says whether it holds, unless a variable
that occurs in it is not set; so it has a value in every store that sets its variables.  An
expression is worth a number, unless a variable that occurs in it is not set or a divisor is
zero. -/
theorem compiled_runs_safely (scope text : String) (c : Context) (s : Store) :
    (∀ condition c', (Condition.compileText scope text).run c = .ok (condition, c') →
      (∀ a ∈ condition.program.applications s, a.op.isComparison = true ∧ a.IsNumeric) ∧
      Ensures (fun v => (v.IsNumber ∨ v.IsTruth) ∧ condition.holds s = .ok v.isTrue)
        (fun err => ∃ i, Condition.Occurs scope text i ∧ s.get? i = none ∧ err = .undefined i)
        (condition.program.run s) ∧
      ((∀ i, Condition.Occurs scope text i → s.get? i ≠ none) →
        ∃ v, condition.program.run s = .ok v)) ∧
    ∀ program c', (Arithmetic.compile scope text).run c = .ok (program, c') →
      Ensures Value.IsNumber
        (fun err => (∃ i, Arithmetic.Occurs scope text i ∧ s.get? i = none ∧ err = .undefined i) ∨
          err = .divisionByZero ∨ err = .moduloByZero)
        (program.run s) := by
  constructor
  · intro condition c' hrun
    obtain ⟨e, hprogram, he, hfits, hoccurs⟩ :=
      Condition.yields_tree scope text c condition c' hrun
    have hensures := Expr.ensures_eval_of_isCondition s he hfits
    have happlies := Expr.isNumeric_of_isCondition (s := s) he hfits
    rw [← Expr.applications_ofExpr text, ← hprogram] at happlies
    rw [Condition.holds]
    rw [← Expr.run_ofExpr text, ← hprogram] at hensures
    refine ⟨happlies, ?_, fun hset => ?_⟩
    · cases hvalue : condition.program.run s with
      | ok v =>
        rw [hvalue] at hensures
        exact ⟨hensures, rfl⟩
      | error err =>
        rw [hvalue] at hensures
        obtain ⟨i, hi, hunset⟩ := hensures
        exact ⟨i, hoccurs i hi, hunset⟩
    · cases hvalue : condition.program.run s with
      | ok v => exact ⟨v, rfl⟩
      | error err =>
        rw [hvalue] at hensures
        obtain ⟨i, hi, hunset, -⟩ := hensures
        exact absurd hunset (hset i (hoccurs i hi))
  · intro program c' hrun
    obtain ⟨source, e, rfl, he, hoccurs⟩ := Arithmetic.yields_tree scope text c program c' hrun
    rw [Expr.run_ofExpr]
    refine (Expr.ensures_eval_of_isArithmetic s he).mono (fun _ => id) fun err herr => ?_
    refine herr.imp_left ?_
    rintro ⟨i, hi, hunset⟩
    exact ⟨i, hoccurs i hi, hunset⟩

/-- A condition with a range inside a negation, and an expression that divides. -/
theorem compiled_runs_safely_nested :
    (∃ condition c', (Condition.compileText "a" "!(x = 1 .. 2) || y > 0 && z").run {} =
        .ok (condition, c') ∧
      ∀ s, ∀ a ∈ condition.program.applications s, a.op.isComparison = true ∧ a.IsNumeric) ∧
    ∃ program c', (Arithmetic.compile "a" "-x / y").run {} = .ok (program, c') ∧
      ∀ s b, program.run s ≠ .ok (.truth b) := by
  have hcondition :
      ((Condition.compileText "a" "!(x = 1 .. 2) || y > 0 && z").run {}).toOption.isSome = true := by
    decide +kernel
  have harithmetic : ((Arithmetic.compile "a" "-x / y").run {}).toOption.isSome = true := by
    decide +kernel
  obtain ⟨⟨condition, c'⟩, hcondition⟩ := Option.isSome_iff_exists.1 hcondition
  obtain ⟨⟨program, c''⟩, harithmetic⟩ := Option.isSome_iff_exists.1 harithmetic
  rw [toOption_eq_some] at hcondition harithmetic
  refine ⟨⟨condition, c', hcondition, fun s => ?_⟩, program, c'', harithmetic, fun s b hb => ?_⟩
  · exact ((compiled_runs_safely _ _ _ s).1 condition c' hcondition).1
  · have hnumber := (compiled_runs_safely _ _ _ s).2 program c'' harithmetic
    rw [hb] at hnumber
    obtain ⟨x, hx⟩ := hnumber
    contradiction

end Gamebook
