/-
# Causes of refusals

A document is refused for its fields or for its scripts.  What validation refuses is a field
that breaks a rule, or a document that is no object (`AdventureRecord.cause_of_validate`).
What compilation stops with are errors of identifiers and of expressions, whatever text of a
record it comes to (`Adventure.blames_compile`).
-/

import Gamebook.Proofs.Compiling

namespace Gamebook

namespace Compile

variable {α β ι : Type} {x : Compile α} {f : α → Compile β} {P : Cause → Prop}

/-- What a computation stops with has a property. -/
def Blames (x : Compile α) (P : Cause → Prop) : Prop := ∀ c d, x.run c = .error d → P d.cause

/-- What never stops has nothing to blame. -/
theorem blames_of_runs (h : ∀ c, ∃ r, x.run c = .ok r) : x.Blames P := by
  intro c d hd
  obtain ⟨r, hr⟩ := h c
  rw [hr] at hd
  contradiction

/-- A result stops nothing. -/
theorem blames_pure (a : α) : (pure a : Compile α).Blames P := blames_of_runs fun c => ⟨(a, c), rfl⟩

/-- What a text of scripts stops with is an error of scripts. -/
theorem Points.blames (h : Points fun _ => x) : x.Blames Cause.IsOfScript := by
  intro c d hd
  obtain ⟨r, hscript, hr⟩ := h
  obtain ⟨raw, hrun⟩ := hr c c rfl
  cases r with
  | ok a => exact absurd (hd.symm.trans hrun) (by simp [Context.tell])
  | error cause =>
    obtain rfl := Except.error.inj (hd.symm.trans hrun)
    exact hscript cause rfl

/-- Computations one after the other stop with what one of them stops with. -/
theorem Blames.bind (hx : x.Blames P) (hf : ∀ a, (f a).Blames P) : (x >>= f).Blames P := by
  intro c d h
  cases hrun : x.run c with
  | error e =>
    rw [run_bind_of_error hrun] at h
    obtain rfl := Except.error.inj h
    exact hx c e hrun
  | ok r =>
    obtain ⟨a, c'⟩ := r
    rw [run_bind_of_ok hrun] at h
    exact hf a c' d h

/-- Moving to another context stops nothing. -/
theorem blames_modify_bind {move : Context → Context} {x : Compile β} (hx : x.Blames P) :
    ((modify move : Compile PUnit) >>= fun _ => x).Blames P := by
  have hmove : (modify move : Compile PUnit).Blames P :=
    blames_of_runs fun c => ⟨(⟨⟩, move c), rfl⟩
  exact hmove.bind fun _ => hx

/-- A result that is there stops nothing, and a diagnostic stops with its cause. -/
theorem blames_ofExcept {result : Except Diagnostic α} (h : ∀ d, result = .error d → P d.cause) :
    (ofExcept result).Blames P := by
  intro c d hd
  cases result with
  | ok a => contradiction
  | error e =>
    obtain rfl := Except.error.inj hd
    exact h e rfl

/-- A computation for each element stops with what it stops with for one of them. -/
theorem blames_mapM {g : ι → Compile α} (h : ∀ i, (g i).Blames P) (is : List ι) :
    (is.mapM g).Blames P := by
  induction is with
  | nil => exact blames_pure []
  | cons i is ih =>
    rw [List.mapM_cons]
    exact (h i).bind fun a => ih.bind fun as => blames_pure _

/-- A text that may be missing stops with what a text stops with. -/
theorem blames_ofFilled {compile : String → Compile α} (h : ∀ text, (compile text).Blames P)
    (source : Option String) : (ofFilled compile source).Blames P := by
  unfold ofFilled
  split
  · exact blames_pure none
  · exact (h _).bind fun a => blames_pure _

end Compile

open Compile

/-! ## Records -/

/-- Parts of an identifier are refused as identifiers are. -/
theorem Identifier.blames_ofParts (scope name : Json) :
    (Compile.ofExcept (ofParts scope name)).Blames Cause.IsOfScript := by
  refine blames_ofExcept fun d hd => ?_
  unfold ofParts at hd
  split at hd
  · contradiction
  all_goals
    obtain rfl := Except.error.inj hd
    exact .inl rfl

/-- Actions are refused for an identifier or an expression. -/
theorem Action.blames_compileAll (scope : String) (texts : List String) :
    (compileAll scope texts).Blames Cause.IsOfScript :=
  blames_mapM (fun text => (reads_compile scope text).points.blames) _

/-- A template is refused for an identifier or an expression. -/
theorem Template.blames_compileText (scope source : String) :
    (compileText scope source).Blames Cause.IsOfScript :=
  (reads_compileText scope source).points.blames

/-- A condition is refused for an identifier or an expression. -/
theorem Condition.blames_compileText (scope text : String) :
    (compileText scope text).Blames Cause.IsOfScript :=
  (reads_compileText scope text).points.blames

/-- An option is refused for an identifier or an expression in it. -/
theorem Choice.blames_assemble (scope : String) (r : OptionRecord) :
    (assemble scope r).Blames Cause.IsOfScript := by
  refine blames_modify_bind ?_
  refine (Template.blames_compileText _ _).bind fun label => ?_
  refine (Identifier.points_resolve _ _).blames.bind fun target => ?_
  refine Blames.bind (blames_ofFilled (Condition.blames_compileText scope) r.condition) ?_
  intro condition
  exact (Action.blames_compileAll _ _).bind fun actions => blames_pure _

/-- A scene is refused for an identifier or an expression in it, or in one of its options. -/
theorem Scene.blames_assemble (scope : String) (header footer : Option Template)
    (r : SceneRecord) : (assemble scope header footer r).Blames Cause.IsOfScript := by
  refine blames_modify_bind ?_
  refine (Identifier.blames_ofParts _ _).bind fun identifier => ?_
  refine (Template.blames_compileText _ _).bind fun title => ?_
  refine (blames_mapM (Template.blames_compileText scope) _).bind fun content => ?_
  refine (Action.blames_compileAll _ _).bind fun actions => ?_
  refine (blames_mapM (Choice.blames_assemble scope) _).bind fun choices => ?_
  exact blames_modify_bind (blames_pure _)

/-- **A record is compiled, or stops with an error of an identifier or an expression.** -/
theorem Adventure.blames_compile (r : AdventureRecord) :
    (compile r).Blames Cause.IsOfScript := by
  have hoptional := blames_ofFilled (Template.blames_compileText r.name)
  refine (Template.blames_compileText _ _).bind fun title => ?_
  refine (Identifier.points_resolve _ _).blames.bind fun start => ?_
  refine Blames.bind (hoptional r.author) fun author => ?_
  refine (Action.blames_compileAll _ _).bind fun actions => ?_
  refine Blames.bind (hoptional r.globalTop) fun header => ?_
  refine Blames.bind (hoptional r.globalBottom) fun footer => ?_
  refine blames_modify_bind ?_
  refine (blames_mapM (Scene.blames_assemble r.name header footer) _).bind fun scenes => ?_
  exact blames_pure _

/-- **A document is valid, or is refused for one of its fields**, or because it is no
object. -/
theorem AdventureRecord.cause_of_validate {document : Json} {d : Diagnostic}
    (h : validate document = .error d) :
    d.cause = .notAnObject ∨ ∃ name problem, d.cause = .field name problem := by
  unfold validate at h
  split at h
  · rename_i ms
    cases hcheck : Check.adventure ms with
    | ok record =>
      rw [hcheck] at h
      contradiction
    | error v =>
      rw [hcheck] at h
      obtain rfl := Except.error.inj h
      exact .inr ⟨_, _, rfl⟩
  · obtain rfl := Except.error.inj h
    exact .inl rfl

end Gamebook
