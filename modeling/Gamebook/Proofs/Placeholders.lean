/-
# Placeholders fill holes only

A template shows a placeholder, if it is given one, in the place of a variable that is
not set.  It shows nothing else in another way: what is rendered without a placeholder is
rendered the same with one (`Template.renderAll_of_strict`).

Conditions are never given a placeholder.  The conditions that a template meets in a
store are those that stand in it and, of the texts of each, in the one that it selects
(`Fragment.Meets`).  With a placeholder a template fails with the error of a condition
that it meets (`Template.exists_meets_of_renderAll`), and such a condition fails where its
run loads a variable that is not set (`Condition.holds_eq_undefined_iff`).

Here the placeholder is given when a template is rendered.  It may as well be given when
it is compiled, and be carried by every variable of the template, nested texts included
(`Stencil`); the same texts are compiled then (`Stencil.compile_eq`), and the same is
rendered (`Stencil.renderAll_ofFragments`).
-/

import Gamebook.Proofs.Operations

namespace Gamebook

/-! ## What a run loads -/

/-- Operators are not stopped by variables. -/
theorem BinaryOp.ensures_apply_ne_undefined (op : BinaryOp) (a b : Value) (i : Identifier) :
    Ensures (fun _ => True) (· ≠ .undefined i) (op.apply a b) := by
  have htoNumber (v : Value) : Ensures (fun _ => True) (· ≠ .undefined i) v.toNumber := by
    cases v with
    | number | truth => trivial
    | count n =>
      rw [Value.toNumber]
      split
      · trivial
      · simp [Ensures]
  have honNumbers (x y : Float) :
      Ensures (fun _ => True) (· ≠ .undefined i) (op.onNumbers x y) := by
    cases op with
    | div | mod => exact .ite (fun _ => by simp [Ensures]) fun _ => trivial
    | _ => trivial
  unfold apply
  split
  · cases op with
    | div | mod => exact .ite (fun _ => by simp [Ensures]) fun _ => trivial
    | _ => trivial
  · exact (htoNumber a).bind (fun _ => id) fun x _ =>
      (htoNumber b).bind (fun _ => id) fun y _ => honNumbers x y

namespace Program

variable {s : Store} {code : List Instr} {i : Identifier}

/-- The variables that a run loads from an index on, in a number of steps. -/
def loadsFrom (s : Store) (code : List Instr) : Nat → Nat → List Value → List Identifier
  | 0, _, _ => []
  | steps + 1, index, stack =>
    match code[index]? with
    | none => []
    | some instr =>
      instr.loaded?.toList ++
        listed (step s index instr stack) fun (next, stack) => loadsFrom s code steps next stack

/-- The variables that the run of a program loads, in order. -/
def loads (p : Program) (s : Store) : List Identifier :=
  loadsFrom s p.code (p.code.length + patience) 0 []

/-- An instruction that loads nothing is not stopped by a variable. -/
theorem ensures_step_ne_undefined {instr : Instr} (h : instr.loaded? = none) (index : Nat)
    (stack : List Value) :
    Ensures (fun _ => True) (· ≠ .undefined i) (step s index instr stack) := by
  cases instr with
  | push x => trivial
  | load j => contradiction
  | unary op | truth =>
    cases stack with
    | nil => exact nofun
    | cons v stack => trivial
  | binary op =>
    match stack with
    | [] | [_] => exact nofun
    | b :: a :: stack =>
      exact (op.ensures_apply_ne_undefined a b i).bind (fun _ => id) fun v _ => trivial
  | jump op target =>
    cases stack with
    | nil => exact nofun
    | cons v stack => exact .ite (fun _ => trivial) fun _ => trivial

/-- An instruction is stopped by the variable that it loads, where this is not set. -/
theorem step_eq_undefined_iff {instr : Instr} {index : Nat} {stack : List Value} :
    step s index instr stack = .error (.undefined i) ↔
      instr.loaded? = some i ∧ s.get? i = none := by
  cases hloaded : instr.loaded? with
  | none =>
    have hensures := ensures_step_ne_undefined (s := s) (i := i) hloaded index stack
    refine ⟨fun h => ?_, fun h => absurd h.1 nofun⟩
    rw [h] at hensures
    exact absurd rfl hensures
  | some j =>
    obtain rfl : instr = .load j := by
      cases instr with
      | load k => exact congrArg Instr.load (Option.some.inj hloaded)
      | _ => contradiction
    cases hget : s.get? j with
    | none =>
      have hunset : i = j → s.get? i = none := fun h => h ▸ hget
      simpa [step, hget, eq_comm] using hunset
    | some x =>
      have hset : j = i → s.get? i ≠ none := by
        rintro rfl
        simp [hget]
      simpa [step, hget] using hset

/-- **A run is stopped by a variable that it loads and that is not set**, and by no other
variable. -/
theorem runFrom_eq_undefined_iff (steps index : Nat) (stack : List Value) :
    runFrom s code steps index stack = .error (.undefined i) ↔
      i ∈ loadsFrom s code steps index stack ∧ s.get? i = none := by
  induction steps generalizing index stack with
  | zero =>
    unfold runFrom
    cases code[index]? <;> simp [loadsFrom]
  | succ steps ih =>
    unfold runFrom
    rw [loadsFrom]
    cases code[index]? with
    | none => simp
    | some instr =>
      simp only [bind_eq_error_iff, List.mem_append, Option.mem_toList, mem_listed,
        step_eq_undefined_iff, ih, or_and_right, exists_and_right, ← and_assoc]

/-- A run is stopped by a variable just if it loads it and the variable is not set. -/
theorem run_eq_undefined_iff (p : Program) :
    p.run s = .error (.undefined i) ↔ i ∈ p.loads s ∧ s.get? i = none := by
  rw [loads, ← runFrom_eq_undefined_iff, run, bind_eq_error_iff, or_iff_left_iff_imp]
  rintro ⟨stack, -, hstack⟩
  rcases stack with _ | ⟨v, _ | ⟨w, stack⟩⟩
  · simp at hstack
  · contradiction
  · simp at hstack

end Program

namespace Condition

/-- A condition is stopped by a variable that its run loads and that is not set. -/
theorem holds_eq_undefined_iff {c : Condition} {s : Store} {i : Identifier} :
    c.holds s = .error (.undefined i) ↔ i ∈ c.program.loads s ∧ s.get? i = none := by
  rw [← Program.run_eq_undefined_iff, holds, bind_eq_error_iff, or_iff_left_iff_imp]
  rintro ⟨v, -, hv⟩
  contradiction

/-- Whether the evaluation of a condition reads a variable that is not set. -/
def ReadsUnset (s : Store) (c : Condition) : Prop := ∃ i ∈ c.program.loads s, s.get? i = none

/-- A condition that has no error but a variable that is not set. -/
def IsPlain (c : Condition) : Prop := ∀ s e, c.holds s = .error e → ∃ i, e = .undefined i

/-- **A condition is compiled to one that has no other error.** -/
theorem yields_isPlain (scope text : String) : (compileText scope text).Yields IsPlain := by
  intro context c context' hrun s e he
  obtain ⟨tree, hprogram, htree, hfits, -⟩ := yields_tree scope text context c context' hrun
  have hensures := Expr.ensures_eval_of_isCondition s htree hfits
  rw [← Expr.run_ofExpr text, ← hprogram] at hensures
  rcases bind_eq_error_iff.1 he with hvalue | ⟨v, -, hv⟩
  · rw [hvalue] at hensures
    obtain ⟨i, -, -, rfl⟩ := hensures
    exact ⟨i, rfl⟩
  · contradiction

end Condition

/-! ## Conditions on the way -/

/-- A fragment meets the condition in it, and what is met in the text that this selects. -/
inductive Fragment.Meets (s : Store) (c : Condition) : Fragment → Prop
  | here {whenTrue : List Fragment} {whenFalse : Option (List Fragment)} :
    Meets s c (.conditional c whenTrue whenFalse)
  | whenTrue {d : Condition} {f : Fragment} {whenTrue : List Fragment}
      {whenFalse : Option (List Fragment)} (hholds : d.holds s = .ok true) (hf : f ∈ whenTrue)
      (hmeets : Meets s c f) : Meets s c (.conditional d whenTrue whenFalse)
  | whenFalse {d : Condition} {f : Fragment} {whenTrue whenFalse : List Fragment}
      (hholds : d.holds s = .ok false) (hf : f ∈ whenFalse) (hmeets : Meets s c f) :
    Meets s c (.conditional d whenTrue (some whenFalse))

namespace Template

/-- A template meets what its fragments meet. -/
def Meets (s : Store) (c : Condition) (t : Template) : Prop := ∃ f ∈ t.fragments, f.Meets s c

variable {s : Store} {text : String} {placeholder : Option String}

/-- A variable that has a number is shown by it, with a placeholder as without. -/
theorem renderVariable_of_strict {i : Identifier} {shown : String}
    (h : renderVariable none s i = .ok shown) : renderVariable (some text) s i = .ok shown := by
  unfold renderVariable at h ⊢
  cases hget : s.get? i with
  | none => simp [hget] at h
  | some x => simpa [hget] using h

mutual

/-- A fragment that is rendered without a placeholder is rendered to the same text with one. -/
theorem renderFragment_of_strict : ∀ (f : Fragment) {shown : String},
    renderFragment none s f = .ok shown → renderFragment (some text) s f = .ok shown
  | .literal _, _, h => by
    rw [renderFragment] at h ⊢
    exact h
  | .variable _, _, h => by
    rw [renderFragment] at h ⊢
    exact renderVariable_of_strict h
  | .conditional condition whenTrue whenFalse, shown, h => by
    rw [renderFragment] at h ⊢
    obtain ⟨truth, htruth, h⟩ := Grammar.exists_of_bind_eq_ok h
    rw [htruth]
    cases truth with
    | true => exact renderAll_of_strict whenTrue h
    | false => exact renderElse_of_strict whenFalse h

/-- **What is rendered without a placeholder is rendered the same with one.** -/
theorem renderAll_of_strict : ∀ (fs : List Fragment) {shown : String},
    renderAll none s fs = .ok shown → renderAll (some text) s fs = .ok shown
  | [], _, h => by
    rw [renderAll] at h ⊢
    exact h
  | f :: rest, shown, h => by
    rw [renderAll] at h ⊢
    obtain ⟨first, hfirst, h⟩ := Grammar.exists_of_bind_eq_ok h
    obtain ⟨others, hothers, h⟩ := Grammar.exists_of_bind_eq_ok h
    rw [renderFragment_of_strict f hfirst, renderAll_of_strict rest hothers]
    exact h

/-- The text for a condition that does not hold is rendered to the same with a placeholder. -/
theorem renderElse_of_strict : ∀ (fs : Option (List Fragment)) {shown : String},
    renderElse none s fs = .ok shown → renderElse (some text) s fs = .ok shown
  | none, _, h => by
    rw [renderElse] at h ⊢
    exact h
  | some fs, _, h => by
    rw [renderElse] at h ⊢
    exact renderAll_of_strict fs h

end

/-- No variable is an error where there is a placeholder. -/
theorem renderVariable_ne_error {i : Identifier} {e : EvalError} :
    renderVariable (some text) s i ≠ .error e := by
  unfold renderVariable
  cases s.get? i <;> exact nofun

mutual

/-- With a placeholder, a fragment stops at a condition that it meets, with the error of that
condition. -/
theorem exists_meets_of_renderFragment : ∀ (f : Fragment) {e : EvalError},
    renderFragment (some text) s f = .error e → ∃ c, f.Meets s c ∧ c.holds s = .error e
  | .literal _, _, h => by
    rw [renderFragment] at h
    contradiction
  | .variable _, _, h => by
    rw [renderFragment] at h
    exact absurd h renderVariable_ne_error
  | .conditional condition whenTrue whenFalse, e, h => by
    rw [renderFragment] at h
    rcases bind_eq_error_iff.1 h with herror | ⟨truth, htruth, h⟩
    · exact ⟨condition, .here, herror⟩
    · cases truth with
      | true =>
        obtain ⟨f, hf, c, hmeets, herror⟩ := exists_meets_of_renderAll whenTrue h
        exact ⟨c, .whenTrue htruth hf hmeets, herror⟩
      | false =>
        obtain ⟨fs, rfl, f, hf, c, hmeets, herror⟩ := exists_meets_of_renderElse whenFalse h
        exact ⟨c, .whenFalse htruth hf hmeets, herror⟩

/-- **With a placeholder fragments fail where a condition fails that they meet.** -/
theorem exists_meets_of_renderAll : ∀ (fs : List Fragment) {e : EvalError},
    renderAll (some text) s fs = .error e → ∃ f ∈ fs, ∃ c, f.Meets s c ∧ c.holds s = .error e
  | [], _, h => by
    rw [renderAll] at h
    contradiction
  | f :: rest, e, h => by
    rw [renderAll] at h
    rcases bind_eq_error_iff.1 h with hfirst | ⟨first, -, h⟩
    · exact ⟨f, List.mem_cons_self, exists_meets_of_renderFragment f hfirst⟩
    · rcases bind_eq_error_iff.1 h with hrest | ⟨others, -, h⟩
      · obtain ⟨g, hg, hmeets⟩ := exists_meets_of_renderAll rest hrest
        exact ⟨g, List.mem_cons_of_mem f hg, hmeets⟩
      · contradiction

/-- With a placeholder, the text for a condition that does not hold stops at a condition that one
of its fragments meets. -/
theorem exists_meets_of_renderElse : ∀ (fs : Option (List Fragment)) {e : EvalError},
    renderElse (some text) s fs = .error e →
      ∃ gs, fs = some gs ∧ ∃ f ∈ gs, ∃ c, f.Meets s c ∧ c.holds s = .error e
  | none, _, h => by
    rw [renderElse] at h
    contradiction
  | some fs, _, h => by
    rw [renderElse] at h
    exact ⟨fs, rfl, exists_meets_of_renderAll fs h⟩

end

/-- Fragments fail if one of them does. -/
theorem exists_error_of_mem {fs : List Fragment} {f : Fragment} (hf : f ∈ fs)
    (h : ∃ e, renderFragment placeholder s f = .error e) :
    ∃ e, renderAll placeholder s fs = .error e := by
  induction fs with
  | nil => contradiction
  | cons g rest ih =>
    rw [renderAll]
    cases hfirst : renderFragment placeholder s g with
    | error e => exact ⟨e, rfl⟩
    | ok first =>
      rcases List.mem_cons.1 hf with rfl | hf
      · obtain ⟨e, he⟩ := h
        rw [hfirst] at he
        contradiction
      · obtain ⟨e, hrest⟩ := ih hf
        rw [hrest]
        exact ⟨e, rfl⟩

/-- A fragment fails if a condition fails that it meets, placeholder or not. -/
theorem exists_error_of_meets {c : Condition} {f : Fragment} (h : f.Meets s c) {e : EvalError}
    (herror : c.holds s = .error e) : ∃ e, renderFragment placeholder s f = .error e := by
  induction h with
  | here =>
    rw [renderFragment, herror]
    exact ⟨e, rfl⟩
  | whenTrue hholds hf _ ih =>
    rw [renderFragment, hholds]
    exact exists_error_of_mem hf ih
  | whenFalse hholds hf _ ih =>
    rw [renderFragment, hholds]
    show ∃ e, renderElse placeholder s (some _) = .error e
    rw [renderElse]
    exact exists_error_of_mem hf ih

/-- The conditions that compiled fragments meet are plain, whatever their texts are. -/
theorem keeps_isPlain (scope : String) :
    Keeps scope (fun _ => True) fun f => ∀ s c, f.Meets s c → c.IsPlain where
  literal _ _ _ := nofun
  «variable» _ _ _ _ _ _ := nofun
  conditional text condition whenTrue whenFalse _ hcondition htrue hfalse s c hmeets := by
    cases hmeets with
    | here => exact hcondition.of_yields (Condition.yields_isPlain _ _)
    | whenTrue _ hf hmeets => exact htrue _ hf s c hmeets
    | whenFalse _ hf hmeets => exact hfalse _ rfl _ hf s c hmeets

/-- The conditions that a template meets are stopped by nothing but variables that are not set. -/
theorem yields_meets_isPlain (scope source : String) :
    (compileText scope source).Yields fun t => ∀ s c, t.Meets s c → c.IsPlain :=
  fun context t context' hrun s c ⟨f, hf, hmeets⟩ =>
    (keeps_isPlain scope).yields (fun _ _ => trivial) context t context' hrun f hf s c hmeets

end Template

/-! ## Placeholders that are compiled -/

namespace Compile

variable {α β ι : Type} {g : α → β}

/-- What is done to the results of computations may be done to all of them at the end. -/
theorem mapM_map_eq (g : α → β) (f : ι → Compile α) (is : List ι) :
    is.mapM (fun i => g <$> f i) = List.map g <$> is.mapM f := by
  induction is with
  | nil => simp
  | cons i is ih => simp [ih]

/-- What is done to the result of a computation is done where it has one. -/
theorem run_map_eq_ok_iff {x : Compile α} {c c' : Context} {b : β} :
    (g <$> x).run c = .ok (b, c') ↔ ∃ a, x.run c = .ok (a, c') ∧ g a = b := by
  rw [StateT.run_map]
  cases x.run c with
  | error d => simp [Functor.map, Except.map]
  | ok r => simp [Functor.map, Except.map, Prod.ext_iff, and_comm]

end Compile

/-- A compiled part of a template, in which every variable has a placeholder or none. -/
inductive Stencil where
  | literal (text : String)
  | «variable» (i : Identifier) (placeholder : Option String)
  | conditional (condition : Condition) (whenTrue : List Stencil)
      (whenFalse : Option (List Stencil))

namespace Stencil

mutual

/-- The text of a stencil. -/
def render (s : Store) : Stencil → Except EvalError String
  | .literal text => .ok text
  | .variable i placeholder => Template.renderVariable placeholder s i
  | .conditional condition whenTrue whenFalse => do
    if ← condition.holds s then renderAll s whenTrue else renderElse s whenFalse

/-- The text of stencils, in order. -/
def renderAll (s : Store) : List Stencil → Except EvalError String
  | [] => .ok ""
  | p :: rest => do
    let first ← render s p
    let others ← renderAll s rest
    return first ++ others

/-- The text for a condition that does not hold, which may be missing. -/
def renderElse (s : Store) : Option (List Stencil) → Except EvalError String
  | none => .ok ""
  | some stencils => renderAll s stencils

end

mutual

/-- A fragment, every variable of which is given a placeholder. -/
def ofFragment (placeholder : Option String) : Fragment → Stencil
  | .literal text => .literal text
  | .variable i => .variable i placeholder
  | .conditional condition whenTrue whenFalse =>
    .conditional condition (ofFragments placeholder whenTrue) (ofElse placeholder whenFalse)

/-- Fragments, every variable of which is given a placeholder. -/
def ofFragments (placeholder : Option String) : List Fragment → List Stencil
  | [] => []
  | f :: rest => ofFragment placeholder f :: ofFragments placeholder rest

/-- The text for a condition that does not hold, with placeholders. -/
def ofElse (placeholder : Option String) : Option (List Fragment) → Option (List Stencil)
  | none => none
  | some fragments => some (ofFragments placeholder fragments)

end

variable {s : Store} {placeholder : Option String}

mutual

/-- A fragment with placeholders in place is rendered as the fragment is with a placeholder at
hand. -/
theorem render_ofFragment : ∀ f : Fragment,
    render s (ofFragment placeholder f) = Template.renderFragment placeholder s f
  | .literal text => by rw [ofFragment, render, Template.renderFragment]
  | .variable i => by rw [ofFragment, render, Template.renderFragment]
  | .conditional condition whenTrue whenFalse => by
    rw [ofFragment, render, Template.renderFragment, renderAll_ofFragments whenTrue,
      renderElse_ofElse whenFalse]

/-- **A placeholder does the same when it is carried by the variables.** -/
theorem renderAll_ofFragments : ∀ fs : List Fragment,
    renderAll s (ofFragments placeholder fs) = Template.renderAll placeholder s fs
  | [] => by rw [ofFragments, renderAll, Template.renderAll]
  | f :: rest => by
    rw [ofFragments, renderAll, Template.renderAll, render_ofFragment f,
      renderAll_ofFragments rest]

/-- With placeholders in place, the text for a condition that does not hold is rendered as with
one at hand. -/
theorem renderElse_ofElse : ∀ fs : Option (List Fragment),
    renderElse s (ofElse placeholder fs) = Template.renderElse placeholder s fs
  | none => by rw [ofElse, renderElse, Template.renderElse]
  | some fs => by rw [ofElse, renderElse, Template.renderElse, renderAll_ofFragments fs]

end

/-- Placeholders are put into fragments one by one. -/
theorem ofFragments_eq_map (fs : List Fragment) :
    ofFragments placeholder fs = fs.map (ofFragment placeholder) := by
  induction fs with
  | nil => rw [ofFragments, List.map_nil]
  | cons f rest ih => rw [ofFragments, ih, List.map_cons]

/-- Compile a part of a template, whose variable is given a placeholder. -/
def compilePart (placeholder : Option String) (scope : String)
    (inner : List Char → Compile (List Stencil)) (part : Part) : Compile Stencil :=
  match part.kind with
  | .literal => pure (.literal (String.ofList part.body))
  | .variable => do
    let name := String.ofList (Text.trimChars part.body)
    let i ← Identifier.resolve scope (.string name)
    return .variable i placeholder
  | .conditional =>
    match Template.splitOutside '?' 0 part.body with
    | (_, none) => Compile.failHere (.missingBranch (String.ofList part.body))
    | (text, some branches) => do
      let condition ← Condition.compileText scope (String.ofList text)
      match Template.splitOutside '|' 0 branches with
      | (first, none) => do
        let whenTrue ← inner first
        return .conditional condition whenTrue none
      | (first, some second) => do
        let whenTrue ← inner first
        let whenFalse ← inner second
        return .conditional condition whenTrue (some whenFalse)

/-- Compile a text whose variables are given a placeholder, those of nested texts too. -/
def compileChars (placeholder : Option String) (scope : String) :
    Nat → List Char → Compile (List Stencil)
  | 0, _ => pure []
  | steps + 1, cs => do
    (← Template.parts cs).mapM <|
      compilePart placeholder scope (compileChars placeholder scope steps)

/-- Compile a template with a placeholder, which has to be a text. -/
def compile (placeholder : Option String) (scope : String) : Json → Compile (List Stencil)
  | .string source => compileChars placeholder scope source.toList.length source.toList
  | v => Compile.failHere (.templateNotText v.kind)

/-- A part is compiled with placeholders as it is without, and they are put in place behind that,
if this is so for the texts nested in it. -/
theorem compilePart_eq {scope : String} {steps : Nat} {inner : List Char → Compile (List Stencil)}
    (h : ∀ cs, inner cs = ofFragments placeholder <$> Template.compileChars scope steps cs)
    (part : Part) : compilePart placeholder scope inner part =
      ofFragment placeholder <$> Phrase.compilePart scope steps part := by
  obtain ⟨kind, body⟩ := part
  cases kind with
  | literal => simp [compilePart, Phrase.compilePart, ofFragment]
  | «variable» => simp [compilePart, Phrase.compilePart, ofFragment]
  | conditional =>
    simp only [compilePart, Phrase.compilePart]
    obtain ⟨text, _ | branches⟩ := Template.splitOutside '?' 0 body
    · rfl
    · rw [map_bind]
      refine bind_congr fun condition => ?_
      obtain ⟨first, _ | second⟩ := Template.splitOutside '|' 0 branches
      · simp [h, ofFragment, ofElse]
      · simp [h, ofFragment, ofElse]

/-- **With a placeholder the same texts are compiled**, to the same fragments. -/
theorem compileChars_eq (placeholder : Option String) (scope : String) (steps : Nat)
    (cs : List Char) : compileChars placeholder scope steps cs =
      ofFragments placeholder <$> Template.compileChars scope steps cs := by
  induction steps generalizing cs with
  | zero => simp [compileChars, Template.compileChars, ofFragments]
  | succ steps ih =>
    rw [Phrase.compileChars_succ, compileChars, map_bind]
    refine bind_congr fun parts => ?_
    rw [funext (compilePart_eq ih), funext ofFragments_eq_map, Compile.mapM_map_eq]

/-- **A template is compiled with placeholders as it is without, and they are put in place behind
that.** -/
theorem compile_eq (placeholder : Option String) (scope : String) (source : Json) :
    compile placeholder scope source =
      (fun t => ofFragments placeholder t.fragments) <$> Template.compile scope source := by
  cases source with
  | string source => simp [compile, Template.compile, Template.compileText, compileChars_eq]
  | _ => rfl

end Stencil

/-- **A placeholder fills holes only.**  With one a template compiles if it compiles without
one, and shows what it shows without one.  With one it fails where a condition on its way
reads a variable that is not set, with the error of such a variable, and nowhere else: a
variable that is shown does not make it fail. -/
theorem Template.placeholder_fills_holes (scope : String) (source : Json) (c : Context)
    (text : String) :
    ((Stencil.compile (some text) scope source).Accepts c ↔
      (Stencil.compile none scope source).Accepts c) ∧
    ∀ strict filled c₀ c₁, (Stencil.compile none scope source).run c = .ok (strict, c₀) →
      (Stencil.compile (some text) scope source).run c = .ok (filled, c₁) →
      ∃ t, (compile scope source).run c = .ok (t, c₀) ∧ c₁ = c₀ ∧ ∀ s,
        (Stencil.renderAll s strict = t.render none s ∧
          Stencil.renderAll s filled = t.render (some text) s) ∧
        (∀ shown, Stencil.renderAll s strict = .ok shown →
          Stencil.renderAll s filled = .ok shown) ∧
        (∀ e, Stencil.renderAll s filled = .error e → ∃ condition i, t.Meets s condition ∧
          i ∈ condition.program.loads s ∧ s.get? i = none ∧ e = .undefined i) ∧
        ∀ condition, t.Meets s condition → condition.ReadsUnset s →
          ∃ e, Stencil.renderAll s filled = .error e := by
  simp only [Compile.Accepts, Stencil.compile_eq, Compile.run_map_eq_ok_iff]
  constructor
  · constructor <;>
    · rintro ⟨_, c', t, ht, -⟩
      exact ⟨_, c', t, ht, rfl⟩
  · rintro _ _ c₀ c₁ ⟨t, ht, rfl⟩ ⟨t', ht', rfl⟩
    obtain ⟨rfl, rfl⟩ : t = t' ∧ c₀ = c₁ := by simpa using ht.symm.trans ht'
    refine ⟨t, ht, rfl, fun s => ?_⟩
    simp only [Stencil.renderAll_ofFragments]
    refine ⟨⟨rfl, rfl⟩, fun shown => renderAll_of_strict t.fragments, fun e he => ?_, ?_⟩
    · obtain ⟨f, hf, condition, hmeets, herror⟩ := exists_meets_of_renderAll t.fragments he
      have hplain : condition.IsPlain := by
        cases source with
        | string source =>
          exact yields_meets_isPlain scope source c t c₀ ht s condition ⟨f, hf, hmeets⟩
        | _ => contradiction
      obtain ⟨i, rfl⟩ := hplain s e herror
      obtain ⟨hloads, hunset⟩ := Condition.holds_eq_undefined_iff.1 herror
      exact ⟨condition, i, ⟨f, hf, hmeets⟩, hloads, hunset, rfl⟩
    · rintro condition ⟨f, hf, hmeets⟩ ⟨i, hloads, hunset⟩
      have herror := Condition.holds_eq_undefined_iff.2 ⟨hloads, hunset⟩
      exact exists_error_of_mem hf (exists_error_of_meets hmeets herror)

/-- A template that shows a variable, and another one inside of a choice. -/
theorem Template.placeholder_fills_holes_nested :
    ∃ strict filled c₀ c₁,
      (Stencil.compile none "a" (.string "$\x7bx\x7d?\x7by?$\x7bz\x7d|-\x7d")).run {} =
        .ok (strict, c₀) ∧
      (Stencil.compile (some "?") "a" (.string "$\x7bx\x7d?\x7by?$\x7bz\x7d|-\x7d")).run {} =
        .ok (filled, c₁) ∧
      ∀ s e, Stencil.renderAll s filled = .error e → ∃ i, s.get? i = none ∧ e = .undefined i := by
  have hstrict : ((Stencil.compile none "a"
      (.string "$\x7bx\x7d?\x7by?$\x7bz\x7d|-\x7d")).run {}).toOption.isSome = true := by
    decide +kernel
  have hfilled : ((Stencil.compile (some "?") "a"
      (.string "$\x7bx\x7d?\x7by?$\x7bz\x7d|-\x7d")).run {}).toOption.isSome = true := by
    decide +kernel
  obtain ⟨⟨strict, c₀⟩, hstrict⟩ := Option.isSome_iff_exists.1 hstrict
  obtain ⟨⟨filled, c₁⟩, hfilled⟩ := Option.isSome_iff_exists.1 hfilled
  rw [toOption_eq_some] at hstrict hfilled
  refine ⟨strict, filled, c₀, c₁, hstrict, hfilled, fun s e he => ?_⟩
  obtain ⟨t, -, -, hshown⟩ :=
    (placeholder_fills_holes _ _ _ _).2 strict filled c₀ c₁ hstrict hfilled
  obtain ⟨-, -, herror, -⟩ := hshown s
  obtain ⟨condition, i, -, -, hunset, rfl⟩ := herror e he
  exact ⟨i, hunset, rfl⟩

end Gamebook
