/-
# An action changes its target or nothing

An action computes a number and assigns it.  The store it leaves is the one it found with
this one assignment made: a variable that was set keeps its place and gets the number, one
that was not gets an entry behind all others (`Store.Assigned`).  An action without a number
is stopped by a variable that it reads and that is not set, or by a divisor that is zero
(`Action.Stops`), and leaves the store it found.

So a row of actions that stops has made the assignments before the one that stops it, and no
others (`Action.runAll_eq_error_iff`).
-/

import Gamebook.Proofs.Operations

namespace Gamebook

/-! ## One assignment -/

/-- A store with one assignment made: the number of an entry is replaced in its place, or
an entry is added behind the others. -/
inductive Store.Assigned (i : Identifier) (x : Float) : Store → Store → Prop
  | replaced (before behind : List (Identifier × Float)) (y : Float)
      (unset : ∀ e ∈ before, e.1 ≠ i) :
      Assigned i x ⟨before ++ (i, y) :: behind⟩ ⟨before ++ (i, x) :: behind⟩
  | added (entries : List (Identifier × Float)) (unset : ∀ e ∈ entries, e.1 ≠ i) :
      Assigned i x ⟨entries⟩ ⟨entries ++ [(i, x)]⟩

/-- The store after an assignment has this one made. -/
theorem Store.assigned_insert (s : Store) (i : Identifier) (x : Float) :
    Assigned i x s (s.insert i x) := by
  obtain ⟨entries⟩ := s
  rw [insert]
  induction entries with
  | nil => exact .added [] (List.forall_mem_nil _)
  | cons e entries ih =>
    obtain ⟨j, y⟩ := e
    rw [Bindings.insert]
    split
    · rename_i hj
      subst hj
      exact .replaced [] entries y (List.forall_mem_nil _)
    · rename_i hj
      -- an entry of another variable stands before what the assignment changes
      generalize Bindings.insert i x entries = assigned at ih
      cases ih with
      | replaced before behind z unset =>
        exact .replaced ((j, y) :: before) behind z (List.forall_mem_cons.2 ⟨hj, unset⟩)
      | added _ unset => exact .added ((j, y) :: entries) (List.forall_mem_cons.2 ⟨hj, unset⟩)

namespace Action

/-! ## What stops an action -/

/-- The variables that an action reads: those of its expression, and its target where the
old number is combined with the value. -/
def reads (a : Action) : List Identifier :=
  a.program.reads ++ if a.sign.operator?.isSome then [a.target] else []

/-- What can stop an action: a variable that it reads is not set, or a divisor is zero. -/
def Stops (a : Action) (s : Store) (e : EvalError) : Prop :=
  (∃ i ∈ a.reads, s.get? i = none ∧ e = .undefined i) ∨ e = .divisionByZero ∨ e = .moduloByZero

/-- An action over arithmetic has a number, or one of its variables is not set, or a divisor
is zero. -/
theorem ensures_value_of_isArithmetic {a : Action} {source : String} {e : Expr}
    (hprogram : a.program = Program.ofExpr source e) (he : e.isArithmetic = true) (s : Store) :
    Ensures (fun _ => True) (a.Stops s) (a.value s) := by
  have hreads : ∀ i ∈ e.reads, i ∈ a.reads := by
    intro i hi
    rw [reads, hprogram, Expr.reads_ofExpr]
    exact List.mem_append_left _ hi
  rw [value, hprogram, Expr.run_ofExpr]
  refine (Expr.ensures_eval_of_isArithmetic s he).bind ?_ ?_
  · intro err herr
    refine herr.imp_left ?_
    rintro ⟨i, hi, hunset⟩
    exact ⟨i, hreads i hi, hunset⟩
  · rintro _ ⟨x, rfl⟩
    cases hop : a.sign.operator? with
    | none => trivial
    | some op =>
      have htarget : a.target ∈ a.reads := by simp [reads, hop]
      cases hget : s.get? a.target with
      | none => exact .inl ⟨a.target, htarget, hget, rfl⟩
      | some old =>
        refine (BinaryOp.ensures_onNumbers_of_not_isComparison
          (Assignment.isComparison_of_operator? hop) old x).bind (fun _ => .inr) ?_
        rintro _ ⟨y, rfl⟩
        trivial

/-! ## Rows of actions -/

/-- **A row of actions stops at the first that has no number.**  The store is the one that
those before it leave. -/
theorem runAll_eq_error_iff {as : List Action} {s t : Store} {e : EvalError} :
    runAll as s = (some e, t) ↔
      ∃ k a, as[k]? = some a ∧ runAll (as.take k) s = (none, t) ∧ a.evaluate t = .error e := by
  induction as generalizing s with
  | nil => simp [runAll]
  | cons a as ih =>
    cases hvalue : a.evaluate s with
    | error err =>
      rw [runAll_cons_of_error hvalue]
      constructor
      · intro h
        obtain ⟨hsome, rfl⟩ := Prod.mk.inj h
        obtain rfl := Option.some.inj hsome
        exact ⟨0, a, rfl, rfl, hvalue⟩
      · rintro ⟨_ | k, b, hb, hrun, hstop⟩
        · obtain rfl := Option.some.inj hb
          obtain ⟨-, rfl⟩ := Prod.mk.inj hrun
          obtain rfl := Except.error.inj (hvalue.symm.trans hstop)
          rfl
        · rw [List.take_succ_cons, runAll_cons_of_error hvalue] at hrun
          exact absurd (Prod.mk.inj hrun).1 (Option.some_ne_none err)
    | ok result =>
      rw [runAll_cons_of_ok hvalue, ih]
      constructor
      · rintro ⟨k, b, hb, hrun, hstop⟩
        refine ⟨k + 1, b, hb, ?_, hstop⟩
        rw [List.take_succ_cons, runAll_cons_of_ok hvalue, hrun]
      · rintro ⟨_ | k, b, hb, hrun, hstop⟩
        · obtain rfl := Option.some.inj hb
          obtain ⟨-, rfl⟩ := Prod.mk.inj hrun
          rw [hvalue] at hstop
          contradiction
        · rw [List.take_succ_cons, runAll_cons_of_ok hvalue] at hrun
          exact ⟨k, b, hb, hrun, hstop⟩

/-- **An action changes its target or nothing.**  Where a compiled action has a number, the
store has this number assigned to the target, and no other entry and no place has changed;
where it is stopped, the store is the one it found.  A row of actions that is stopped at one
of them leaves the store that those before it leave. -/
theorem changes_target_or_nothing {scope text : String} {c c' : Context} {a : Action}
    (h : (compile scope text).run c = .ok (a, c')) :
    (∀ s, Ensures (fun r => Store.Assigned a.target r.1 s r.2 ∧ runAll [a] s = (none, r.2))
      (fun e => a.Stops s e ∧ runAll [a] s = (some e, s)) (a.evaluate s)) ∧
    ∀ as s e t, runAll as s = (some e, t) ↔
      ∃ k b, as[k]? = some b ∧ runAll (as.take k) s = (none, t) ∧ b.evaluate t = .error e := by
  refine ⟨fun s => ?_, fun as s e t => runAll_eq_error_iff⟩
  obtain ⟨source, e, hprogram, he⟩ := yields_isArithmetic scope text c a c' h
  have hstops := ensures_value_of_isArithmetic hprogram he s
  cases hvalue : a.value s with
  | error err =>
    have hfails := evaluate_of_value_error hvalue
    rw [hvalue] at hstops
    rw [hfails]
    exact ⟨hstops, runAll_cons_of_error hfails []⟩
  | ok x =>
    have hassigns := evaluate_of_value_ok hvalue
    rw [hassigns]
    exact ⟨s.assigned_insert a.target x, runAll_cons_of_ok hassigns []⟩

/-- A compound action that divides: with a divisor it assigns to its target, and two of it
stop at the first where the divisor is zero. -/
theorem changes_target_or_nothing_divided :
    let x : Identifier := ⟨"a", "x", by decide, by decide⟩
    let y : Identifier := ⟨"a", "y", by decide, by decide⟩
    let z : Identifier := ⟨"a", "z", by decide, by decide⟩
    let s (divisor : Float) : Store := ⟨[(y, 3), (x, 1), (z, divisor)]⟩
    ∃ a c', (compile "a" "x += y / z").run {} = .ok (a, c') ∧
      (∃ v t, Store.Assigned x v (s 2) t ∧ runAll [a] (s 2) = (none, t)) ∧
      ∃ e, a.Stops (s 0) e ∧ runAll [a, a] (s 0) = (some e, s 0) := by
  intro x y z s
  have hcompile : (((compile "a" "x += y / z").run {}).toOption.map fun r =>
      (r.1.target, [2, 0].map fun divisor => (r.1.evaluate (s divisor)).toOption.isSome)) =
      some (x, [true, false]) := by decide +kernel
  obtain ⟨⟨a, c'⟩, hrun, hfacts⟩ := Option.map_eq_some_iff.1 hcompile
  rw [toOption_eq_some] at hrun
  obtain ⟨htarget, hvalues⟩ : a.target = x ∧
      [2, 0].map (fun divisor => (a.evaluate (s divisor)).toOption.isSome) = [true, false] :=
    Prod.mk.inj hfacts
  simp only [List.map_cons, List.map_nil, List.cons.injEq, and_true] at hvalues
  obtain ⟨heffect, hrows⟩ := changes_target_or_nothing hrun
  refine ⟨a, c', hrun, ?_, ?_⟩
  · obtain ⟨⟨v, t⟩, hvalue⟩ := Option.isSome_iff_exists.1 hvalues.1
    have hassigned := heffect (s 2)
    rw [toOption_eq_some.1 hvalue] at hassigned
    exact ⟨v, t, htarget ▸ hassigned⟩
  · have hleft := heffect (s 0)
    cases hvalue : a.evaluate (s 0) with
    | ok result => simp [hvalue, Except.toOption] at hvalues
    | error e =>
      rw [hvalue] at hleft
      exact ⟨e, hleft.1, (hrows [a, a] (s 0) e (s 0)).2 ⟨0, a, rfl, rfl, hvalue⟩⟩

end Action
end Gamebook
