/-
# What scripts read

What a program makes of a store depends on the variables that it loads and on nothing else
of the store (`Program.run_congr`), wherever its jumps lead; so it is with conditions, and
with templates, of which the nested ones read as well (`Template.render_congr`).  An action
that keeps to some variables, as those of a scope (`Action.KeepsTo`), makes the same of them
in all stores that agree on them, and leaves the other variables alone
(`Action.runAll_congr`, `Action.get?_runAll`).
-/

import Gamebook.Proofs.Frames

namespace Gamebook

/-! ## Programs -/

/-- Whether two stores have the same numbers for some variables. -/
def Store.AgreeOn (P : Identifier → Prop) (s t : Store) : Prop := ∀ i, P i → s.get? i = t.get? i

/-- The same assignment keeps the agreement. -/
theorem Store.AgreeOn.insert {P : Identifier → Prop} {s t : Store} (h : s.AgreeOn P t)
    (i : Identifier) (x : Float) : (s.insert i x).AgreeOn P (t.insert i x) := by
  intro j hj
  by_cases hji : j = i
  · rw [hji, get?_insert_self, get?_insert_self]
  · rw [get?_insert_of_ne s x hji, get?_insert_of_ne t x hji]
    exact h j hj

/-- The variable that an instruction loads. -/
def Instr.loaded? : Instr → Option Identifier
  | load i => some i
  | push _ | unary _ | binary _ | truth | jump _ _ => none

namespace Program

variable {s t : Store}

/-- The variables that a program can load. -/
def reads (p : Program) : List Identifier := p.code.filterMap Instr.loaded?

/-- An instruction does the same in stores that agree on the variable that it loads. -/
theorem step_congr {instr : Instr} (h : ∀ i, instr.loaded? = some i → s.get? i = t.get? i)
    (index : Nat) (stack : List Value) : step s index instr stack = step t index instr stack := by
  cases instr with
  | load i => simp only [step, h i rfl]
  | push x => rfl
  | unary | binary | truth | jump => rcases stack with _ | ⟨v, _ | ⟨w, stack⟩⟩ <;> rfl

/-- **A run depends on what the code loads**, whatever its jumps are. -/
theorem runFrom_congr {code : List Instr}
    (h : ∀ instr ∈ code, ∀ i, instr.loaded? = some i → s.get? i = t.get? i) (steps index : Nat)
    (stack : List Value) : runFrom s code steps index stack = runFrom t code steps index stack := by
  induction steps generalizing index stack with
  | zero => unfold runFrom; rfl
  | succ steps ih =>
    unfold runFrom
    cases hinstr : code[index]? with
    | none => rfl
    | some instr =>
      have hstep := step_congr (h instr (List.mem_of_getElem? hinstr)) index stack
      simp only [hstep, ih]

/-- A program has one value in all stores that agree on the variables that it can load. -/
theorem run_congr {p : Program} (h : s.AgreeOn (· ∈ p.reads) t) : p.run s = p.run t := by
  have hloads : ∀ instr ∈ p.code, ∀ i, instr.loaded? = some i → s.get? i = t.get? i :=
    fun instr hinstr i hi => h i (List.mem_filterMap.2 ⟨instr, hinstr, hi⟩)
  rw [run, run, runFrom_congr hloads]

end Program

/-! ## Conditions and templates -/

/-- A condition depends on what its program loads. -/
theorem Condition.holds_congr {c : Condition} {s t : Store}
    (h : s.AgreeOn (· ∈ c.program.reads) t) : c.holds s = c.holds t := by
  rw [holds, holds, Program.run_congr h]

namespace Template

mutual

/-- The variables that a fragment can read. -/
def readsFragment : Fragment → List Identifier
  | .literal _ => []
  | .variable i => [i]
  | .conditional condition whenTrue whenFalse =>
    condition.program.reads ++ readsAll whenTrue ++ readsElse whenFalse

/-- The variables that fragments can read. -/
def readsAll : List Fragment → List Identifier
  | [] => []
  | f :: rest => readsFragment f ++ readsAll rest

/-- The variables that the text for a condition that does not hold can read. -/
def readsElse : Option (List Fragment) → List Identifier
  | none => []
  | some fragments => readsAll fragments

end

/-- Fragments can read what one of them can read. -/
theorem readsAll_eq_flatMap (fs : List Fragment) : readsAll fs = fs.flatMap readsFragment := by
  induction fs with
  | nil => rfl
  | cons f fs ih => rw [readsAll, ih, List.flatMap_cons]

/-- The variables that a template can read. -/
def reads (t : Template) : List Identifier := readsAll t.fragments

variable {s t : Store}

mutual

/-- A fragment is rendered alike in stores that agree on what it can read. -/
theorem renderFragment_congr (placeholder : Option String) :
    ∀ f : Fragment, s.AgreeOn (· ∈ readsFragment f) t →
      renderFragment placeholder s f = renderFragment placeholder t f
  | .literal text, _ => by rw [renderFragment, renderFragment]
  | .variable i, h => by
    have hget : s.get? i = t.get? i := h i (by simp [readsFragment])
    simp only [renderFragment, renderVariable, hget]
  | .conditional condition whenTrue whenFalse, h => by
    simp only [readsFragment, List.mem_append] at h
    have hholds := condition.holds_congr fun i hi => h i (.inl (.inl hi))
    have htrue := renderAll_congr placeholder whenTrue fun i hi => h i (.inl (.inr hi))
    have hfalse := renderElse_congr placeholder whenFalse fun i hi => h i (.inr hi)
    rw [renderFragment, renderFragment, hholds, htrue, hfalse]

/-- Fragments are rendered alike in stores that agree on what they can read. -/
theorem renderAll_congr (placeholder : Option String) :
    ∀ fs : List Fragment, s.AgreeOn (· ∈ readsAll fs) t →
      renderAll placeholder s fs = renderAll placeholder t fs
  | [], _ => by rw [renderAll, renderAll]
  | f :: rest, h => by
    simp only [readsAll, List.mem_append] at h
    have hfirst := renderFragment_congr placeholder f fun i hi => h i (.inl hi)
    have hrest := renderAll_congr placeholder rest fun i hi => h i (.inr hi)
    rw [renderAll, renderAll, hfirst, hrest]

/-- The text for a condition that does not hold is rendered alike in stores that agree on what it
can read. -/
theorem renderElse_congr (placeholder : Option String) :
    ∀ fs : Option (List Fragment), s.AgreeOn (· ∈ readsElse fs) t →
      renderElse placeholder s fs = renderElse placeholder t fs
  | none, _ => by rw [renderElse, renderElse]
  | some fs, h => by
    rw [renderElse, renderElse]
    exact renderAll_congr placeholder fs (by simpa only [readsElse] using h)

end

/-- **A text depends on what its template can read.** -/
theorem render_congr (placeholder : Option String) {u : Template}
    (h : s.AgreeOn (· ∈ u.reads) t) : u.render placeholder s = u.render placeholder t :=
  renderAll_congr placeholder u.fragments h

end Template

/-! ## Actions -/

namespace Action

variable {P : Identifier → Prop} {a : Action} {as : List Action} {s t : Store}

/-- Whether an action reads and assigns some variables only. -/
structure KeepsTo (P : Identifier → Prop) (a : Action) : Prop where
  target : P a.target
  reads : ∀ i ∈ a.program.reads, P i

/-- An action has one value in all stores that agree on what it keeps to. -/
theorem value_congr (ha : a.KeepsTo P) (h : s.AgreeOn P t) : a.value s = a.value t := by
  have hrun := Program.run_congr fun i hi => h i (ha.reads i hi)
  rw [value, value, hrun, h a.target ha.target]

/-- An action computes its number and assigns it to its target. -/
theorem evaluate_eq_map (a : Action) (s : Store) :
    a.evaluate s = (a.value s).map fun x => (x, s.insert a.target x) := by
  rw [evaluate]
  cases a.value s <;> rfl

/-- An action with a value assigns it to its target. -/
theorem evaluate_of_value_ok {x : Float} (h : a.value s = .ok x) :
    a.evaluate s = .ok (x, s.insert a.target x) := by
  rw [evaluate_eq_map, h, Except.map]

/-- An action without a value assigns nothing. -/
theorem evaluate_of_value_error {e : EvalError} (h : a.value s = .error e) :
    a.evaluate s = .error e := by
  rw [evaluate_eq_map, h, Except.map]

/-- **Actions that keep to some variables make the same of them**, or stop with the same
error. -/
theorem runAll_congr (has : ∀ a ∈ as, a.KeepsTo P) (h : s.AgreeOn P t) :
    (runAll as s).1 = (runAll as t).1 ∧ (runAll as s).2.AgreeOn P (runAll as t).2 := by
  induction as generalizing s t with
  | nil => exact ⟨rfl, h⟩
  | cons a as ih =>
    obtain ⟨ha, has⟩ := List.forall_mem_cons.1 has
    have hsame := value_congr ha h
    cases hvalue : a.value t with
    | error e =>
      rw [hvalue] at hsame
      rw [runAll_cons_of_error (evaluate_of_value_error hsame),
        runAll_cons_of_error (evaluate_of_value_error hvalue)]
      exact ⟨rfl, h⟩
    | ok x =>
      rw [hvalue] at hsame
      rw [runAll_cons_of_ok (evaluate_of_value_ok hsame),
        runAll_cons_of_ok (evaluate_of_value_ok hvalue)]
      exact ih has (h.insert a.target x)

/-- **Other variables are left alone.** -/
theorem get?_runAll (has : ∀ a ∈ as, a.KeepsTo P) {i : Identifier} (hi : ¬P i) (s : Store) :
    (runAll as s).2.get? i = s.get? i := by
  by_contra hchanged
  obtain ⟨a, ha, rfl⟩ := (frame_runAll as (List.Subset.refl as) s).target i hchanged
  exact hi (has a ha).target

end Action
end Gamebook
