/-
# The errors of scripts

What a document writes is compiled to trees of two kinds (`Grammar.Reads.holds`): its
expressions to arithmetic, and its conditions to comparisons of numbers.  So nothing that
is compiled disturbs the machine, or makes a number that is too large: actions, conditions
and templates stop with no error but an unset variable, and a division or remainder by
zero (`EvalError.isScripted`).  All that a record is compiled to is sound in this sense
(`Adventure.Compiles.isSound`).

What every fragment of a template has is shown once for each way in which one is compiled,
from what the scripts of the template have (`Template.Keeps.yields`).
-/

import Gamebook.Proofs.Compiling
import Gamebook.Proofs.Machine

namespace Gamebook

/-! ## Trees of a grammar -/

/-- Whether the operator of an entry is in the tables of a grammar. -/
def Entry.IsOf {α β : Type} (g : Grammar α β) : Entry α β → Prop
  | operand _ => True
  | unary op => ∃ s o, g.unary.lookup s = some o ∧ o.meaning = op
  | binary op => ∃ s o, g.binary.lookup s = some o ∧ o.meaning = op

/-- Whether what waits is a parenthesis, or an operator in the tables of a grammar. -/
def Pending.IsOf {α β : Type} (g : Grammar α β) : Pending α β → Prop
  | opening => True
  | unary op => ∃ s, g.unary.lookup s = some op
  | binary op => ∃ s, g.binary.lookup s = some op

/-- What waits as an operator of a grammar becomes an entry of the grammar. -/
theorem Pending.IsOf.entry {α β : Type} {g : Grammar α β} {p : Pending α β} (h : p.IsOf g)
    {e : Entry α β} (he : p.entry? = some e) : e.IsOf g := by
  cases p with
  | opening => contradiction
  | unary op | binary op =>
    obtain ⟨s, hs⟩ := h
    obtain rfl := Option.some.inj he
    exact ⟨s, op, hs, rfl⟩

namespace Grammar

section

variable {α β : Type} {g : Grammar α β} {stack : List (Pending α β)} {es : List (Entry α β)}

/-- What is released are operators of the tables. -/
theorem isOf_released (h : ∀ p ∈ stack, p.IsOf g) :
    ∀ e ∈ stack.filterMap Pending.entry?, e.IsOf g := by
  intro e he
  obtain ⟨p, hp, he⟩ := List.mem_filterMap.1 he
  exact (h p hp).entry he

/-- Operators of a grammar that stop waiting become entries of the grammar. -/
theorem isOf_released_append {q : Pending α β → Bool} (h : ∀ p ∈ stack, p.IsOf g)
    (hes : ∀ e ∈ es, e.IsOf g) :
    ∀ e ∈ (stack.takeWhile q).filterMap Pending.entry? ++ es, e.IsOf g := by
  refine List.forall_mem_append.2 ⟨isOf_released fun p hp => ?_, hes⟩
  exact h p ((List.takeWhile_prefix q).subset hp)

/-- What goes on waiting is still of the grammar. -/
theorem isOf_dropWhile (q : Pending α β → Bool) (h : ∀ p ∈ stack, p.IsOf g) :
    ∀ p ∈ stack.dropWhile q, p.IsOf g :=
  fun p hp => h p ((List.dropWhile_suffix q).subset hp)

/-- **The operators of a postfix order are those of the tables.** -/
theorem isOf_arrange {ts : List Token} {expecting : Bool} (h : ∀ p ∈ stack, p.IsOf g)
    (hes : g.arrange ts stack expecting = .ok es) : ∀ e ∈ es, e.IsOf g := by
  induction ts generalizing stack expecting es with
  | nil =>
    obtain ⟨-, rfl⟩ := of_release_eq_ok hes
    exact isOf_released h
  | cons t ts ih =>
    cases t with
    | operand o =>
      obtain ⟨rest, hrest, hes⟩ := exists_of_bind_eq_ok hes
      obtain rfl := Except.ok.inj hes
      exact List.forall_mem_cons.2 ⟨trivial, ih h hrest⟩
    | opening => exact ih (List.forall_mem_cons.2 ⟨by trivial, h⟩) hes
    | closing =>
      rw [arrange] at hes
      split at hes
      · contradiction
      · rename_i p below hbelow
        obtain ⟨rest, hrest, hes⟩ := exists_of_bind_eq_ok hes
        obtain rfl := Except.ok.inj hes
        have hdropped := isOf_dropWhile Pending.isOperator h
        rw [hbelow] at hdropped
        exact isOf_released_append h (ih (List.forall_mem_cons.1 hdropped).2 hrest)
    | operator s =>
      rw [arrange] at hes
      split at hes
      · rename_i op hop
        have hpending : (Pending.unary op).IsOf g := by
          cases expecting with
          | true => exact ⟨s, hop⟩
          | false => contradiction
        exact ih (List.forall_mem_cons.2 ⟨hpending, h⟩) hes
      · split at hes
        · contradiction
        · rename_i op hop
          obtain ⟨rest, hrest, hes⟩ := exists_of_bind_eq_ok hes
          obtain rfl := Except.ok.inj hes
          have hpending : (Pending.binary op).IsOf g := ⟨s, hop⟩
          have hstack := List.forall_mem_cons.2 ⟨hpending, isOf_dropWhile (Pending.precedes op) h⟩
          exact isOf_released_append h (ih hstack hrest)

end

variable {g : Grammar UnaryOp InfixOp} {scope : String} {P : Expr → Prop}

/-- A property of trees that the operators of a grammar keep. -/
structure Keeps (g : Grammar UnaryOp InfixOp) (P : Expr → Prop) : Prop where
  number : ∀ x, P (.number x)
  read : ∀ i, P (.variable i)
  unary : ∀ s o, g.unary.lookup s = some o → ∀ e, P e → P (.unary o.meaning e)
  binary : ∀ s o, g.binary.lookup s = some o → ∀ l r, P l → P r → P (Expr.combine o.meaning l r)

/-- A single operand has every property that a grammar keeps. -/
theorem Keeps.leaf? (h : g.Keeps P) {o : Operand} {e : Expr} (he : Expr.leaf? scope o = some e) :
    P e := by
  cases o with
  | number text =>
    obtain rfl := Option.some.inj he
    exact h.number _
  | word text =>
    obtain ⟨i, -, rfl⟩ := Option.map_eq_some_iff.1 he
    exact h.read i

/-- Trees that are put together by operators of a grammar have what the grammar keeps. -/
theorem Keeps.assemble (h : g.Keeps P) {es : List (Entry UnaryOp InfixOp)} {built out : List Expr}
    (hes : ∀ e ∈ es, e.IsOf g) (hbuilt : ∀ e ∈ built, P e)
    (hout : Expr.assemble scope es built = some out) : ∀ e ∈ out, P e := by
  induction es generalizing built with
  | nil =>
    obtain rfl := Option.some.inj hout
    exact hbuilt
  | cons entry es ih =>
    obtain ⟨hentry, hrest⟩ := List.forall_mem_cons.1 hes
    cases entry with
    | operand o =>
      obtain ⟨e, he, hout⟩ := Option.bind_eq_some_iff.1 hout
      exact ih hrest (List.forall_mem_cons.2 ⟨h.leaf? he, hbuilt⟩) hout
    | unary op =>
      obtain ⟨s, o, ho, rfl⟩ := hentry
      cases built with
      | nil => contradiction
      | cons e built =>
        obtain ⟨he, hbuilt⟩ := List.forall_mem_cons.1 hbuilt
        exact ih hrest (List.forall_mem_cons.2 ⟨h.unary s o ho e he, hbuilt⟩) hout
    | binary op =>
      obtain ⟨s, o, ho, rfl⟩ := hentry
      match built with
      | [] | [_] => contradiction
      | r :: l :: built =>
        obtain ⟨hr, hbuilt⟩ := List.forall_mem_cons.1 hbuilt
        obtain ⟨hl, hbuilt⟩ := List.forall_mem_cons.1 hbuilt
        exact ih hrest (List.forall_mem_cons.2 ⟨h.binary s o ho l r hl hr, hbuilt⟩) hout

/-- **What the operators of a grammar keep holds of all its trees.** -/
theorem Reads.holds {ts : List Token} {e : Expr} (h : g.Reads scope ts e) (hP : g.Keeps P) :
    P e := by
  obtain ⟨es, hes, he⟩ := h
  have hall := hP.assemble (isOf_arrange (List.forall_mem_nil _) hes) (List.forall_mem_nil _) he
  exact hall e (List.mem_singleton_self e)

end Grammar

/-- The operators of expressions make arithmetic of arithmetic. -/
theorem Arithmetic.keeps_isArithmetic : grammar.Keeps fun e => e.isArithmetic = true where
  number _ := rfl
  read _ := rfl
  unary s o ho e he := by
    have hmem := List.mem_map_of_mem (f := Prod.snd) (Grammar.mem_of_lookup ho)
    simp only [grammar, List.map_cons, List.map_nil, List.mem_cons, List.not_mem_nil,
      or_false] at hmem
    rcases hmem with rfl | rfl <;> exact he
  binary s o ho l r hl hr := by
    have hmem := List.mem_map_of_mem (f := Prod.snd) (Grammar.mem_of_lookup ho)
    simp only [grammar, List.map_cons, List.map_nil, List.mem_cons, List.not_mem_nil,
      or_false] at hmem
    rcases hmem with rfl | rfl | rfl | rfl | rfl <;>
      simp [Expr.combine, Expr.isArithmetic, BinaryOp.isComparison, hl, hr]

/-- The operators of conditions make conditions of conditions. -/
theorem Condition.keeps_isCondition : grammar.Keeps fun e => e.isCondition = true where
  number _ := rfl
  read _ := rfl
  unary s o ho e he := by
    have hmem := List.mem_map_of_mem (f := Prod.snd) (Grammar.mem_of_lookup ho)
    simp only [grammar, List.map_cons, List.map_nil, List.mem_singleton] at hmem
    subst hmem
    exact he
  binary s o ho l r hl hr := by
    have hmem := List.mem_map_of_mem (f := Prod.snd) (Grammar.mem_of_lookup ho)
    simp only [grammar, List.map_cons, List.map_nil, List.mem_cons, List.not_mem_nil,
      or_false] at hmem
    rcases hmem with rfl | rfl | rfl | rfl | rfl | rfl | rfl | rfl | rfl <;>
      simp [Expr.combine, Expr.isCondition, BinaryOp.isComparison, hl, hr]

/-! ## Parts of a template -/

/-- The scripts of a part: a name, or a condition and the scripts of the texts behind it. -/
def Part.scripts (inner : List Char → List (List Char)) (part : Part) : List (List Char) :=
  match part.kind with
  | .literal => []
  | .variable => [part.body]
  | .conditional =>
    match Template.splitOutside '?' 0 part.body with
    | (_, none) => []
    | (condition, some branches) =>
      match Template.splitOutside '|' 0 branches with
      | (first, none) => condition :: inner first
      | (first, some second) => condition :: (inner first ++ inner second)

namespace Template

/-- The scripts of a text whose nested texts are read in some steps at most. -/
def scriptsIn : Nat → List Char → List (List Char)
  | 0, _ => []
  | steps + 1, cs => ((scan cs).getD []).flatMap (Part.scripts (scriptsIn steps))

/-- The names and conditions in a template, those in nested texts among them. -/
def scripts (source : String) : List (List Char) :=
  scriptsIn source.toList.length source.toList

/-- A property of fragments that the parts of a template keep, `Q` being known of its
scripts. -/
structure Keeps (scope : String) (Q : List Char → Prop) (F : Fragment → Prop) : Prop where
  literal : ∀ text, F (.literal text)
  «variable» : ∀ body i, Q body →
    Identifier.ofText? scope (String.ofList (Text.trimChars body)) = some i → F (.variable i)
  conditional : ∀ text condition whenTrue whenFalse, Q text →
    (Condition.compileText scope (String.ofList text)).Gives (some condition) →
    (∀ f ∈ whenTrue, F f) → (∀ fs ∈ whenFalse, ∀ f ∈ fs, F f) →
    F (.conditional condition whenTrue whenFalse)

namespace Keeps

variable {scope : String} {Q : List Char → Prop} {F : Fragment → Prop} {steps : Nat}

/-- A part is compiled to a fragment with the property, if the texts in it are. -/
theorem yields_part (h : Keeps scope Q F)
    (ih : ∀ cs, (∀ script ∈ scriptsIn steps cs, Q script) →
      (compileChars scope steps cs).Yields fun fs => ∀ f ∈ fs, F f)
    {part : Part} (hscripts : ∀ script ∈ part.scripts (scriptsIn steps), Q script) :
    (Phrase.compilePart scope steps part).Yields F := by
  obtain ⟨kind, body⟩ := part
  cases kind with
  | literal => exact Compile.yields_pure (h.literal _)
  | «variable» =>
    have hbody : Q body := hscripts body (List.mem_singleton_self body)
    refine (Identifier.gives_resolve _ _).yields.bind fun i hi => Compile.yields_pure ?_
    exact h.variable body i hbody hi
  | conditional =>
    simp only [Phrase.compilePart, Part.scripts] at hscripts ⊢
    generalize splitOutside '?' 0 body = cut at hscripts ⊢
    obtain ⟨text, _ | branches⟩ := cut
    · exact (Compile.gives_failHere _).yields_none
    · dsimp only at hscripts ⊢
      refine (Condition.uniform_compileText _ _).yields.bind fun condition hcondition => ?_
      generalize splitOutside '|' 0 branches = cut at hscripts ⊢
      obtain ⟨first, _ | second⟩ := cut
      · obtain ⟨htext, hfirst⟩ := List.forall_mem_cons.1 hscripts
        refine (ih first hfirst).bind fun whenTrue htrue => Compile.yields_pure ?_
        exact h.conditional text condition whenTrue none htext hcondition htrue (by simp)
      · obtain ⟨htext, hrest⟩ := List.forall_mem_cons.1 hscripts
        obtain ⟨hfirst, hsecond⟩ := List.forall_mem_append.1 hrest
        refine (ih first hfirst).bind fun whenTrue htrue => ?_
        refine (ih second hsecond).bind fun whenFalse hfalse => Compile.yields_pure ?_
        exact h.conditional text condition whenTrue (some whenFalse) htext hcondition htrue
          (by simpa using hfalse)

/-- The parts of a text become fragments with the property, whatever the number of steps that
nested texts are read in. -/
theorem yields_chars (h : Keeps scope Q F) {cs : List Char}
    (hscripts : ∀ script ∈ scriptsIn steps cs, Q script) :
    (compileChars scope steps cs).Yields fun fs => ∀ f ∈ fs, F f := by
  -- the texts of a choice are read with one step less, as they are compiled
  induction steps generalizing cs with
  | zero => exact Compile.yields_pure (List.forall_mem_nil _)
  | succ steps ih =>
    rw [Phrase.compileChars_succ, parts]
    rw [scriptsIn] at hscripts
    cases hscan : scan cs with
    | none => exact (Compile.gives_failHere _).yields_none.bind fun _ => False.elim
    | some parts =>
      rw [hscan, Option.getD_some, List.forall_mem_flatMap] at hscripts
      rw [pure_bind]
      exact Compile.yields_mapM fun part hpart =>
        h.yields_part (fun _ => ih) (hscripts part hpart)

/-- **What the parts of a template keep holds of all its fragments.** -/
theorem yields (h : Keeps scope Q F) {source : String}
    (hscripts : ∀ script ∈ scripts source, Q script) :
    (compileText scope source).Yields fun t => ∀ f ∈ t.fragments, F f :=
  (h.yields_chars hscripts).bind fun _ hfragments => Compile.yields_pure hfragments

end Keeps
end Template

/-! ## Scripted computations -/

/-- The errors that what is compiled can stop with. -/
def EvalError.isScripted : EvalError → Bool
  | .undefined _ | .divisionByZero | .moduloByZero => true
  | .leftover .. | .nothingToTake | .nothingOnTop | .tooLarge | .endless => false

/-- A computation that stops with no other error. -/
structure Scripted {α : Type} (x : Except EvalError α) : Prop where
  ensures : Ensures (fun _ => True) (fun e => e.isScripted = true) x

namespace Scripted

variable {α β : Type} {x : Except EvalError α}

/-- A result is no error. -/
theorem ok (a : α) : Scripted (.ok a) := ⟨trivial⟩

/-- A computation may stop with a scripted error. -/
theorem error {e : EvalError} (h : e.isScripted = true) :
    Scripted (.error e : Except EvalError α) :=
  ⟨h⟩

/-- The error that a scripted computation stops with is scripted. -/
theorem of_error {e : EvalError} (h : Scripted x) (he : x = .error e) : e.isScripted = true := by
  subst he
  exact h.ensures

/-- Scripted computations one after the other are scripted. -/
theorem bind {f : α → Except EvalError β} (h : Scripted x) (hf : ∀ a, Scripted (f a)) :
    Scripted (x >>= f) :=
  ⟨h.ensures.bind (fun _ => id) fun a _ => (hf a).ensures⟩

/-- A scripted computation for each element is scripted for all of them. -/
theorem mapM {ι : Type} {f : ι → Except EvalError α} {xs : List ι}
    (h : ∀ i ∈ xs, Scripted (f i)) : Scripted (xs.mapM f) := by
  induction xs with
  | nil => exact ok []
  | cons i xs ih =>
    obtain ⟨hi, hxs⟩ := List.forall_mem_cons.1 h
    rw [List.mapM_cons]
    exact hi.bind fun a => (ih hxs).bind fun as => ok _

end Scripted

/-- A variable that is not set is an error of the script. -/
theorem Expr.Unset.isScripted {s : Store} {e : Expr} {err : EvalError} (h : Unset s e err) :
    err.isScripted = true := by
  obtain ⟨i, -, -, rfl⟩ := h
  rfl

/-- Dividing by zero is an error of the script, as a variable that is not set is one. -/
theorem Expr.Undone.isScripted {s : Store} {e : Expr} {err : EvalError} (h : Undone s e err) :
    err.isScripted = true := by
  obtain h | rfl | rfl := h
  · exact h.isScripted
  · rfl
  · rfl

/-- An action that can be evaluated, or stops with a scripted error. -/
def Action.IsSound (a : Action) : Prop := ∀ s, Scripted (a.value s)

/-- A condition that holds, does not hold, or stops with a scripted error. -/
def Condition.IsSound (c : Condition) : Prop := ∀ s, Scripted (c.holds s)

/-- A fragment that can be rendered, or stops with a scripted error. -/
def Fragment.IsSound (f : Fragment) : Prop :=
  ∀ placeholder s, Scripted (Template.renderFragment placeholder s f)

/-- A template that can be rendered, or stops with a scripted error. -/
def Template.IsSound (t : Template) : Prop := ∀ placeholder s, Scripted (t.render placeholder s)

/-- A choice of which all parts are sound. -/
structure Choice.IsSound (c : Choice) : Prop where
  label : c.label.IsSound
  condition : ∀ condition ∈ c.condition, condition.IsSound
  actions : ∀ a ∈ c.actions, a.IsSound

/-- A scene of which all parts are sound. -/
structure Scene.IsSound (scene : Scene) : Prop where
  title : scene.title.IsSound
  content : ∀ t ∈ scene.content, t.IsSound
  actions : ∀ a ∈ scene.actions, a.IsSound
  choices : ∀ c ∈ scene.choices, c.IsSound
  header : ∀ t ∈ scene.header, t.IsSound
  footer : ∀ t ∈ scene.footer, t.IsSound

/-! ## What is compiled is sound -/

/-- **An expression is compiled to arithmetic.** -/
theorem Arithmetic.yields_isArithmetic (scope text : String) :
    (compile scope text).Yields fun p =>
      ∃ source e, p = Program.ofExpr source e ∧ e.isArithmetic = true := by
  intro c p c' hp
  have hcompiled := (gives_compile scope text).yields c p c' hp
  rw [compiled?] at hcompiled
  split at hcompiled
  · contradiction
  · obtain ⟨e, he, hp⟩ := Option.bind_eq_some_iff.1 hcompiled
    obtain ⟨ts, -, hreads⟩ := Grammar.tree?_eq_some.1 he
    exact ⟨_, e, (Option.some.inj hp).symm, hreads.holds keeps_isArithmetic⟩

/-- No sign combines the old number and the value by a comparison. -/
theorem Assignment.isComparison_of_operator? {sign : Assignment} {op : BinaryOp}
    (h : sign.operator? = some op) : op.isComparison = false := by
  cases sign <;> simp [operator?] at h <;> subst h <;> rfl

/-- Arithmetic assigns a number, or stops with a scripted error. -/
theorem Action.isSound_of_isArithmetic {a : Action} {source : String} {e : Expr}
    (hprogram : a.program = Program.ofExpr source e) (he : e.isArithmetic = true) : a.IsSound := by
  intro s
  rw [value, hprogram, Expr.run_ofExpr]
  refine ⟨(Expr.ensures_eval_of_isArithmetic s he).bind (fun _ h => h.isScripted) ?_⟩
  rintro _ ⟨x, rfl⟩
  cases hop : a.sign.operator? with
  | none => trivial
  | some op =>
    cases s.get? a.target with
    | none => rfl
    | some old =>
      have happly := BinaryOp.ensures_onNumbers_of_not_isComparison
        (Assignment.isComparison_of_operator? hop) old x
      refine happly.bind ?_ ?_
      · rintro _ (rfl | rfl) <;> rfl
      · rintro _ ⟨y, rfl⟩
        trivial

/-- An action is compiled over arithmetic. -/
theorem Action.yields_isArithmetic (scope text : String) :
    (compile scope text).Yields fun a =>
      ∃ source e, a.program = Program.ofExpr source e ∧ e.isArithmetic = true := by
  rw [compile]
  split
  · refine Compile.yields_bind fun target => ?_
    exact (Arithmetic.yields_isArithmetic _ _).bind fun program h => Compile.yields_pure h
  · exact (Compile.gives_failHere _).yields_none

/-- **An action is compiled to a sound one.** -/
theorem Action.yields_isSound (scope text : String) : (compile scope text).Yields IsSound := by
  intro c a c' h
  obtain ⟨source, e, hprogram, he⟩ := yields_isArithmetic scope text c a c' h
  exact isSound_of_isArithmetic hprogram he

/-- Actions are compiled to sound ones. -/
theorem Action.yields_isSound_all (scope : String) (texts : List String) :
    (compileAll scope texts).Yields fun as => ∀ a ∈ as, a.IsSound :=
  Compile.yields_mapM fun text _ => yields_isSound scope text

/-- **A condition is compiled to a sound one.** -/
theorem Condition.yields_isSound (scope text : String) :
    (compileText scope text).Yields IsSound := by
  intro c condition c' hrun s
  have hcompiled := (gives_compile scope text).yields c condition c' hrun
  obtain ⟨source, -, hcompiled⟩ := Option.bind_eq_some_iff.1 hcompiled
  split at hcompiled
  · contradiction
  · obtain ⟨e, he, hcondition⟩ := Option.bind_eq_some_iff.1 hcompiled
    obtain ⟨ts, -, hreads⟩ := Grammar.tree?_eq_some.1 he
    split at hcondition
    · rename_i hfits
      obtain rfl := Option.some.inj hcondition
      rw [holds, Expr.run_ofExpr]
      exact ⟨(Expr.ensures_eval_of_isCondition s (hreads.holds keeps_isCondition) hfits).bind
        (fun _ h => h.isScripted) fun v _ => trivial⟩
    · contradiction

namespace Template

variable {fragments : List Fragment}

/-- Sound fragments are rendered one after the other, or the first error among them is scripted. -/
theorem scripted_renderAll (h : ∀ f ∈ fragments, f.IsSound) (placeholder : Option String)
    (s : Store) : Scripted (renderAll placeholder s fragments) := by
  induction fragments with
  | nil =>
    rw [renderAll]
    exact .ok _
  | cons f fragments ih =>
    obtain ⟨hf, hrest⟩ := List.forall_mem_cons.1 h
    rw [renderAll]
    exact (hf placeholder s).bind fun first => (ih hrest).bind fun others => .ok _

/-- What is narrated is sound: it is rendered as it stands. -/
theorem isSound_literal (text : String) : (Fragment.literal text).IsSound := by
  intro placeholder s
  rw [renderFragment]
  exact .ok text

/-- A variable is sound: without a value it is shown by the placeholder, or it is a scripted
error. -/
theorem isSound_variable (i : Identifier) : (Fragment.variable i).IsSound := by
  intro placeholder s
  rw [renderFragment, Phrase.renderVariable_eq]
  cases s.get? i with
  | some x => exact .ok _
  | none =>
    cases placeholder with
    | some text => exact .ok text
    | none => exact .error rfl

/-- A conditional is sound if its condition and the fragments of both its branches are. -/
theorem isSound_conditional {condition : Condition} {whenTrue : List Fragment}
    {whenFalse : Option (List Fragment)} (hcondition : condition.IsSound)
    (htrue : ∀ f ∈ whenTrue, f.IsSound) (hfalse : ∀ fs ∈ whenFalse, ∀ f ∈ fs, f.IsSound) :
    (Fragment.conditional condition whenTrue whenFalse).IsSound := by
  intro placeholder s
  rw [renderFragment]
  refine (hcondition s).bind fun holds => ?_
  cases holds with
  | true => exact scripted_renderAll htrue placeholder s
  | false =>
    cases whenFalse with
    | none =>
      rw [renderElse]
      exact .ok _
    | some fs =>
      rw [renderElse]
      exact scripted_renderAll (hfalse fs rfl) placeholder s

/-- The parts of a template keep soundness. -/
theorem keeps_isSound (scope : String) : Keeps scope (fun _ => True) Fragment.IsSound where
  literal := isSound_literal
  «variable» _ i _ _ := isSound_variable i
  conditional _ _ _ _ _ hcondition htrue hfalse :=
    isSound_conditional (hcondition.of_yields (Condition.yields_isSound scope _)) htrue hfalse

/-- **A template is compiled to a sound one.** -/
theorem yields_isSound (scope source : String) : (compileText scope source).Yields IsSound := by
  intro c t c' h placeholder s
  have hfragments := (keeps_isSound scope).yields (fun _ _ => trivial) c t c' h
  exact scripted_renderAll hfragments placeholder s

end Template

/-- An option is compiled to a sound choice. -/
theorem Choice.Assembles.isSound {scope : String} {r : OptionRecord} {ch : Choice}
    (h : ch.Assembles scope r) : ch.IsSound where
  label := h.label.of_yields (Template.yields_isSound scope r.label)
  condition := h.condition.of_yields
    (Compile.yields_ofFilled fun text _ => Condition.yields_isSound scope text)
  actions := h.actions.of_yields (Action.yields_isSound_all scope r.actions)

/-- A scene is compiled to a sound one, if the texts that it shows of its adventure are sound. -/
theorem Scene.Assembles.isSound {scope : String} {header footer : Option Template}
    {r : SceneRecord} {scene : Scene} (h : scene.Assembles scope header footer r)
    (hheader : ∀ t ∈ header, t.IsSound) (hfooter : ∀ t ∈ footer, t.IsSound) : scene.IsSound where
  title := h.title.of_yields (Template.yields_isSound scope r.title)
  content := h.content.of_yields
    (Compile.yields_mapM fun text _ => Template.yields_isSound scope text)
  actions := h.actions.of_yields (Action.yields_isSound_all scope r.actions)
  choices ch hch := by
    obtain ⟨o, -, ho⟩ := exists_mem_of_forall₂ h.choices hch
    exact ho.isSound
  header := h.header ▸ hheader
  footer := h.footer ▸ hfooter

/-- **The scenes of a record are compiled to sound ones.** -/
theorem Adventure.Compiles.isSound {r : AdventureRecord} {a : Adventure} {scenes : List Scene}
    (h : a.Compiles r scenes) : ∀ scene ∈ scenes, scene.IsSound := by
  intro scene hscene
  obtain ⟨s, -, hs⟩ := exists_mem_of_forall₂ h.scenes hscene
  have hoptional (source : Option String) :
      (Compile.ofFilled (Template.compileText r.name) source).Yields fun t => ∀ u ∈ t, u.IsSound :=
    Compile.yields_ofFilled fun text _ => Template.yields_isSound r.name text
  exact hs.isSound (h.header.of_yields (hoptional r.globalTop))
    (h.footer.of_yields (hoptional r.globalBottom))

end Gamebook
