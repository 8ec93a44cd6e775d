/-
# What records are compiled to

A context says where the compiler stands.  It shows in diagnostics only: what a text is
compiled to is the same in every context, or there is nothing in any
(`Compile.Uniform`).  So a record is compiled to what its texts are compiled to, one by
one, whatever was compiled before them: an option (`Choice.Assembles`), a scene
(`Scene.Assembles`) and a whole adventure (`Adventure.Compiles`).

Compiled texts keep what they were compiled from: a template and a condition the whole
text, and an action its statement without blanks.
-/

import Gamebook.Proofs.Assignments
import Gamebook.Proofs.Pointing
import Gamebook.Story.Assembly
import Mathlib.Data.List.Forall2

namespace Gamebook

/-- What stands in a list is related to something in a related one. -/
theorem exists_mem_of_forall₂ {α β : Type} {R : α → β → Prop} {xs : List α} {ys : List β}
    (h : List.Forall₂ R xs ys) {y : β} (hy : y ∈ ys) : ∃ x ∈ xs, R x y := by
  induction h with
  | nil => contradiction
  | @cons x _ xs _ hxy _ ih =>
    rcases List.mem_cons.1 hy with rfl | hy
    · exact ⟨x, List.mem_cons_self .., hxy⟩
    · obtain ⟨x', hx', hR⟩ := ih hy
      exact ⟨x', List.mem_cons_of_mem _ hx', hR⟩

namespace Compile

variable {α β ι : Type} {x : Compile α} {f : α → Compile β} {g : ι → Compile α} {r : Option α}
  {a : α} {is : List ι} {as : List α} {P : α → Prop} {Q : β → Prop}

/-- Every result that a computation gives has a property. -/
def Yields (x : Compile α) (P : α → Prop) : Prop := ∀ c a c', x.run c = .ok (a, c') → P a

/-- What a computation yields is what it gives. -/
theorem Gives.yields (h : x.Gives r) : x.Yields fun a => r = some a := by
  intro c a c' ha
  obtain ⟨b, rfl⟩ := h.accepts_iff.1 ⟨a, c', ha⟩
  obtain ⟨d, hd⟩ := h c
  rw [(Prod.mk.inj (Except.ok.inj (ha.symm.trans hd))).1]

/-- A computation that stops yields nothing. -/
theorem Gives.yields_none (h : x.Gives none) : x.Yields P :=
  fun c a c' ha => absurd (h.yields c a c' ha) (by simp)

/-- A result with a property is yielded without compiling anything. -/
theorem yields_pure {a : α} (h : P a) : (pure a : Compile α).Yields P := by
  intro c b c' hb
  obtain ⟨rfl, -⟩ := Prod.mk.inj (Except.ok.inj hb)
  exact h

/-- What follows a computation yields what it yields for each result that the computation yields. -/
theorem Yields.bind (hx : x.Yields P) (hf : ∀ a, P a → (f a).Yields Q) : (x >>= f).Yields Q := by
  intro c b c' h
  rw [StateT.run_bind] at h
  obtain ⟨⟨a, d⟩, ha, h⟩ := Grammar.exists_of_bind_eq_ok h
  exact hf a (hx c a d ha) d b c' h

/-- What the first part gives does not matter if what follows it always has the
property. -/
theorem yields_bind (hf : ∀ a, (f a).Yields Q) : (x >>= f).Yields Q :=
  Yields.bind (P := fun _ => True) (fun _ _ _ _ => trivial) fun a _ => hf a

/-- What every computation of a list yields, all elements of the results have. -/
theorem yields_mapM {ι : Type} {g : ι → Compile α} {is : List ι} (h : ∀ i ∈ is, (g i).Yields P) :
    (is.mapM g).Yields fun as => ∀ a ∈ as, P a := by
  induction is with
  | nil => exact yields_pure nofun
  | cons i is ih =>
    rw [List.mapM_cons]
    refine (h i (List.mem_cons_self ..)).bind fun a ha => ?_
    refine (ih fun j hj => h j (List.mem_cons_of_mem _ hj)).bind fun as has => yields_pure ?_
    rintro b (_ | ⟨_, hb⟩)
    · exact ha
    · exact has b hb

/-- A result that is there has what is known of it. -/
theorem yields_ofExcept {r : Except Diagnostic α} (h : ∀ a, r = .ok a → P a) :
    (ofExcept r).Yields P := by
  intro c a c' ha
  cases r with
  | error d => exact absurd ha (by simp [ofExcept, StateT.run, Except.map])
  | ok b =>
    obtain ⟨rfl, -⟩ := Prod.mk.inj (Except.ok.inj ha)
    exact h b rfl

/-! ## The same in every context -/

/-- Whether what a computation gives is the same in every context. -/
def Uniform (x : Compile α) : Prop := ∃ r, x.Gives r

/-- What gives the same in every context is uniform. -/
theorem Gives.uniform (h : x.Gives r) : x.Uniform := ⟨r, h⟩

/-- What is told in every context is given, or is what stops the computation. -/
theorem Points.uniform (h : Points fun _ => x) : x.Uniform := by
  obtain ⟨r, -, hr⟩ := h
  cases r with
  | ok a =>
    refine ⟨some a, fun c => ?_⟩
    obtain ⟨raw, hrun⟩ := hr c c rfl
    exact ⟨_, hrun⟩
  | error cause =>
    refine ⟨none, fun c => ?_⟩
    obtain ⟨raw, hrun⟩ := hr c c rfl
    exact ⟨_, hrun⟩

/-- What is given in one context is given in every one. -/
theorem Uniform.yields (h : x.Uniform) : x.Yields fun a => x.Gives (some a) := by
  obtain ⟨r, hr⟩ := h
  intro c a c' ha
  rwa [hr.yields c a c' ha] at hr

/-- What is given has the properties of all results. -/
theorem Gives.of_yields (h : x.Gives (some a)) (hP : x.Yields P) : P a := by
  obtain ⟨c, hc⟩ := h {}
  exact hP _ _ _ hc

/-- A computation gives one thing only. -/
theorem Gives.unique {r' : Option α} (h : x.Gives r) (h' : x.Gives r') : r = r' := by
  cases r' with
  | none =>
    cases r with
    | none => rfl
    | some a => exact absurd (h.accepts_iff (c := {}).2 ⟨a, rfl⟩) (by simp [h'.accepts_iff])
  | some b => exact h'.of_yields h.yields

/-- Uniform computations one after the other are uniform. -/
theorem Uniform.bind (hx : x.Uniform) (hf : ∀ a, (f a).Uniform) : (x >>= f).Uniform := by
  obtain ⟨r, hr⟩ := hx
  choose k hk using hf
  exact (hr.bind fun a _ => hk a).uniform

/-- A uniform computation for each element is uniform for all of them. -/
theorem uniform_mapM (h : ∀ i, (g i).Uniform) : (is.mapM g).Uniform := by
  induction is with
  | nil => exact (gives_pure []).uniform
  | cons i is ih =>
    rw [List.mapM_cons]
    exact (h i).bind fun a => ih.bind fun as => (gives_pure _).uniform

/-- A computation goes on with what its first part gives. -/
theorem Gives.andThen {s : Option β} (hx : x.Gives (some a)) (hf : (f a).Gives s) :
    (x >>= f).Gives s := by
  refine Gives.bind (k := fun _ => s) hx fun a' ha => ?_
  obtain rfl := Option.some.inj ha
  exact hf

/-- What is given does not depend on how the context is moved before. -/
theorem gives_modify_bind {move : Context → Context} (h : x.Gives r) :
    ((modify move : Compile PUnit) >>= fun _ => x).Gives r := by
  have hmove : (modify move : Compile PUnit).Gives (some ⟨⟩) := fun c => ⟨move c, rfl⟩
  exact hmove.andThen h

/-- A result that is there is given in every context. -/
theorem gives_ofExcept {result : Except Diagnostic α} (h : result = .ok a) :
    (ofExcept result).Gives (some a) := by
  subst h
  exact fun c => ⟨c, rfl⟩

/-- Items are compiled one by one. -/
theorem yields_mapM_forall₂ {P : ι → α → Prop} (h : ∀ i, (g i).Yields (P i)) :
    (is.mapM g).Yields (List.Forall₂ P is) := by
  induction is with
  | nil => exact yields_pure .nil
  | cons i is ih =>
    rw [List.mapM_cons]
    exact (h i).bind fun a ha => ih.bind fun as has => yields_pure (.cons ha has)

/-- What a result has from its item, all results have from theirs. -/
theorem yields_mapM_map {κ : Type} {key : α → κ} {of : ι → κ}
    (h : ∀ i, (g i).Yields fun a => key a = of i) :
    (is.mapM g).Yields fun as => as.map key = is.map of := by
  induction is with
  | nil => exact yields_pure rfl
  | cons i is ih =>
    rw [List.mapM_cons]
    refine (h i).bind fun a ha => ih.bind fun as has => yields_pure ?_
    rw [List.map_cons, List.map_cons, ha, has]

/-- Computations that give their results one by one give all of them. -/
theorem gives_mapM_forall₂ (h : List.Forall₂ (fun i a => (g i).Gives (some a)) is as) :
    (is.mapM g).Gives (some as) := by
  induction h with
  | nil => exact gives_pure []
  | cons ha _ ih =>
    rw [List.mapM_cons]
    exact ha.andThen (ih.andThen (gives_pure _))

end Compile

/-! ## Texts -/

namespace Identifier

/-- A text names the same identifier in every context. -/
theorem gives_resolve (scope raw : String) :
    (resolve scope (.string raw)).Gives (ofText? scope raw) := by
  cases h : ofText? scope raw with
  | none => exact fun c => ⟨_, resolve_eq_error h c⟩
  | some i => exact fun c => ⟨_, resolve_eq_ok h c⟩

end Identifier

namespace Action

/-- A statement is compiled to the same action in every context. -/
theorem uniform_compile (scope text : String) : (compile scope text).Uniform :=
  (reads_compile scope text).points.uniform

/-- Actions are compiled to the same in every context. -/
theorem uniform_compileAll (scope : String) (texts : List String) :
    (compileAll scope texts).Uniform :=
  Compile.uniform_mapM (uniform_compile scope)

/-- An action's target and its expression are compiled from what stands before and behind
its sign. -/
theorem yields_parts (scope text : String) : (compile scope text).Yields fun a =>
    ∃ before after, (Text.compact text).toList = before ++ (a.sign.symbol.toList ++ after) ∧
      Identifier.ofText? scope (String.ofList before) = some a.target ∧
      Arithmetic.compiled? scope (String.ofList after) = some a.program := by
  unfold compile
  dsimp only
  split
  · rename_i c before sign d after hsplit
    refine (Identifier.gives_resolve _ _).yields.bind fun target htarget => ?_
    refine (Arithmetic.gives_compile _ _).yields.bind fun program hprogram => ?_
    exact Compile.yields_pure ⟨_, _, Assignment.split?_eq_some hsplit, htarget, hprogram⟩
  · exact (Compile.gives_failHere _).yields_none

/-- An action keeps its statement without blanks. -/
theorem yields_source (scope text : String) :
    (compile scope text).Yields fun a => a.source = Text.compact text := by
  unfold compile
  dsimp only
  split
  · refine Compile.yields_bind fun target => Compile.yields_bind fun program => ?_
    exact Compile.yields_pure rfl
  · exact (Compile.gives_failHere _).yields_none

end Action

namespace Condition

/-- A text is compiled to the same condition in every context. -/
theorem uniform_compileText (scope text : String) : (compileText scope text).Uniform :=
  (gives_compile scope text).uniform

/-- A condition keeps its text. -/
theorem yields_source (scope text : String) :
    (compileText scope text).Yields fun condition => condition.source = text :=
  fun c condition c' h => source_of_compiled? ((gives_compile scope text).yields c condition c' h)

end Condition

namespace Template

/-- **A text is compiled to the same template in every context.** -/
theorem uniform_compileText (scope source : String) : (compileText scope source).Uniform :=
  (reads_compileText scope source).points.uniform

/-- A template keeps its text. -/
theorem yields_source (scope source : String) :
    (compileText scope source).Yields fun t => t.source = source :=
  Compile.yields_bind fun _ => Compile.yields_pure rfl

end Template

/-! ## Texts that may be missing -/

/-- What is left of a text that may be missing is empty no more, so nothing more is dropped. -/
theorem filled?_filled? (source : Option String) : filled? (filled? source) = filled? source := by
  simp [filled?, Option.filter_filter]

namespace Compile

variable {α : Type} {compile : String → Compile α} {source : Option String} {P : α → Prop}
  {key : α → String}

/-- Compile a text that may be missing, as templates (`compileOptional`) and conditions
(`compileGuard`) are; an empty one is missing. -/
def ofFilled (compile : String → Compile α) (source : Option String) : Compile (Option α) :=
  match filled? source with
  | none => pure none
  | some text => return some (← compile text)

/-- A text that may be missing is compiled to the same in every context, if texts are. -/
theorem uniform_ofFilled (h : ∀ text, (compile text).Uniform) (source : Option String) :
    (ofFilled compile source).Uniform := by
  unfold ofFilled
  split
  · exact (gives_pure none).uniform
  · exact (h _).bind fun a => (gives_pure (some a)).uniform

/-- What a text that is there yields, its compilation yields. -/
theorem yields_ofFilled (h : ∀ text ∈ source, (compile text).Yields P) :
    (ofFilled compile source).Yields fun a => ∀ b ∈ a, P b := by
  unfold ofFilled
  split
  · exact yields_pure (by simp)
  · rename_i text htext
    have hmem : text ∈ source := (Option.mem_filter_iff.1 htext).1
    exact (h text hmem).bind fun a ha => yields_pure (by simpa using ha)

/-- What is compiled keeps its text, if that is not empty. -/
theorem yields_map_ofFilled (h : ∀ text, (compile text).Yields fun a => key a = text)
    (source : Option String) :
    (ofFilled compile source).Yields fun a => a.map key = filled? source := by
  unfold ofFilled
  split
  · rename_i hnone
    exact yields_pure hnone.symm
  · rename_i text htext
    refine (h text).bind fun a ha => yields_pure ?_
    rw [htext, Option.map_some, ha]

/-- The text that is kept is compiled to the same. -/
theorem gives_ofFilled_map {a : Option α} (h : ∀ text, (compile text).Yields fun a => key a = text)
    (ha : (ofFilled compile source).Gives (some a)) :
    (ofFilled compile (a.map key)).Gives (some a) := by
  rw [ha.of_yields (yields_map_ofFilled h source)]
  unfold ofFilled at ha ⊢
  rwa [filled?_filled?]

end Compile

/-! ## Records -/

/-- An identifier that is made of two parts has these parts. -/
theorem Identifier.of_ofParts {scope name : String} {i : Identifier}
    (h : ofParts (.string scope) (.string name) = .ok i) : i.scope = scope ∧ i.name = name := by
  unfold ofParts at h
  split at h
  · rename_i s n hs hn
    obtain rfl := Except.ok.inj h
    obtain ⟨_, rfl⟩ : ∃ hscope, ⟨scope, hscope⟩ = s := by simpa [segment?] using hs
    obtain ⟨_, rfl⟩ : ∃ hname, ⟨name, hname⟩ = n := by simpa [segment?] using hn
    exact ⟨rfl, rfl⟩
  · exact absurd h (by simp)
  · exact absurd h (by simp)

/-- An option is compiled to a choice. -/
structure Choice.Assembles (scope : String) (r : OptionRecord) (ch : Choice) : Prop where
  label : (Template.compileText scope r.label).Gives (some ch.label)
  target : ∃ i, Identifier.ofText? scope r.target = some i ∧ ch.target = .unresolved i
  condition : (Compile.ofFilled (Condition.compileText scope) r.condition).Gives (some ch.condition)
  alwaysVisible : ch.alwaysVisible = r.alwaysVisible
  actions : (Action.compileAll scope r.actions).Gives (some ch.actions)

/-- A scene of a document is compiled to a scene. -/
structure Scene.Assembles (scope : String) (header footer : Option Template) (r : SceneRecord)
    (scene : Scene) : Prop where
  identifier : Identifier.ofParts (.string scope) (.string r.name) = .ok scene.identifier
  title : (Template.compileText scope r.title).Gives (some scene.title)
  content : (r.content.mapM (Template.compileText scope)).Gives (some scene.content)
  actions : (Action.compileAll scope r.actions).Gives (some scene.actions)
  choices : List.Forall₂ (Choice.Assembles scope) r.options scene.choices
  header : scene.header = header
  footer : scene.footer = footer

/-- A record is compiled to an adventure with scenes. -/
structure Adventure.Compiles (r : AdventureRecord) (a : Adventure) (scenes : List Scene) :
    Prop where
  name : a.name = r.name
  title : (Template.compileText r.name r.title).Gives (some a.title)
  version : a.version = r.version
  start : ∃ i, Identifier.ofText? r.name r.startingScene = some i ∧ a.start = .unresolved i
  author : (Compile.ofFilled (Template.compileText r.name) r.author).Gives (some a.author)
  requires : a.requires = r.requires.filter (· != Control.scope)
  actions : (Action.compileAll r.name r.actions).Gives (some a.actions)
  header : (Compile.ofFilled (Template.compileText r.name) r.globalTop).Gives (some a.header)
  footer : (Compile.ofFilled (Template.compileText r.name) r.globalBottom).Gives (some a.footer)
  identifiers : a.scenes = scenes.map (·.identifier)
  scenes : List.Forall₂ (Scene.Assembles r.name a.header a.footer) r.scenes scenes

namespace Choice

/-- An option is compiled to a choice with what its texts are compiled to. -/
theorem yields_assembles (scope : String) (r : OptionRecord) :
    (assemble scope r).Yields (Assembles scope r) := by
  refine Compile.yields_bind fun _ => ?_
  refine (Template.uniform_compileText _ _).yields.bind fun label hlabel => ?_
  refine (Identifier.gives_resolve _ _).yields.bind fun target htarget => ?_
  have hguard := Compile.uniform_ofFilled (Condition.uniform_compileText scope) r.condition
  refine hguard.yields.bind fun condition hcondition => ?_
  refine (Action.uniform_compileAll _ _).yields.bind fun actions hactions => ?_
  exact Compile.yields_pure ⟨hlabel, ⟨target, htarget, rfl⟩, hcondition, rfl, hactions⟩

/-- A choice with what the texts of an option are compiled to is given in every context. -/
theorem Assembles.gives {scope : String} {r : OptionRecord} {ch : Choice}
    (h : ch.Assembles scope r) : (assemble scope r).Gives (some ch) := by
  obtain ⟨label, target, condition, alwaysVisible, actions⟩ := ch
  obtain ⟨hlabel, ⟨i, hi, rfl⟩, hcondition, rfl, hactions⟩ := h
  refine Compile.gives_modify_bind (hlabel.andThen ?_)
  have htarget := Identifier.gives_resolve scope r.target
  rw [hi] at htarget
  exact htarget.andThen (hcondition.andThen (hactions.andThen (Compile.gives_pure _)))

end Choice

namespace Scene

variable {scope : String} {header footer : Option Template} {r : SceneRecord} {scene : Scene}

/-- A scene is compiled to one with what its texts are compiled to. -/
theorem yields_assembles (scope : String) (header footer : Option Template) (r : SceneRecord) :
    (assemble scope header footer r).Yields (Assembles scope header footer r) := by
  refine Compile.yields_bind fun _ => ?_
  refine (Compile.yields_ofExcept fun i hi => hi).bind fun identifier hidentifier => ?_
  refine (Template.uniform_compileText _ _).yields.bind fun title htitle => ?_
  refine (Compile.uniform_mapM (Template.uniform_compileText _)).yields.bind ?_
  intro content hcontent
  refine (Action.uniform_compileAll _ _).yields.bind fun actions hactions => ?_
  refine (Compile.yields_mapM_forall₂ (Choice.yields_assembles scope)).bind ?_
  intro choices hchoices
  refine Compile.yields_bind fun _ => Compile.yields_pure ?_
  exact ⟨hidentifier, htitle, hcontent, hactions, hchoices, rfl, rfl⟩

/-- A scene with what the texts of its record are compiled to is given in every context. -/
theorem Assembles.gives (h : scene.Assembles scope header footer r) :
    (assemble scope header footer r).Gives (some scene) := by
  obtain ⟨identifier, title, content, actions, choices, _, _⟩ := scene
  obtain ⟨hidentifier, htitle, hcontent, hactions, hchoices, rfl, rfl⟩ := h
  have hgives := Compile.gives_mapM_forall₂ (hchoices.imp fun _ _ => Choice.Assembles.gives)
  refine Compile.gives_modify_bind ((Compile.gives_ofExcept hidentifier).andThen ?_)
  refine htitle.andThen (hcontent.andThen (hactions.andThen (hgives.andThen ?_)))
  exact Compile.gives_modify_bind (Compile.gives_pure _)

end Scene

namespace Adventure

variable {r : AdventureRecord} {a : Adventure} {scenes : List Scene}

/-- A record is compiled to an adventure and scenes with what its texts are compiled to. -/
theorem yields_compiles (r : AdventureRecord) :
    (compile r).Yields fun (a, scenes) => a.Compiles r scenes := by
  have hoptional := Compile.uniform_ofFilled (Template.uniform_compileText r.name)
  refine (Template.uniform_compileText _ _).yields.bind fun title htitle => ?_
  refine (Identifier.gives_resolve _ _).yields.bind fun start hstart => ?_
  refine (hoptional r.author).yields.bind fun author hauthor => ?_
  refine (Action.uniform_compileAll _ _).yields.bind fun actions hactions => ?_
  refine (hoptional r.globalTop).yields.bind fun header hheader => ?_
  refine (hoptional r.globalBottom).yields.bind fun footer hfooter => ?_
  refine Compile.yields_bind fun _ => ?_
  refine (Compile.yields_mapM_forall₂ (Scene.yields_assembles r.name header footer)).bind ?_
  intro scenes hscenes
  exact Compile.yields_pure ⟨rfl, htitle, rfl, ⟨start, hstart, rfl⟩, hauthor, rfl, hactions,
    hheader, hfooter, rfl, hscenes⟩

/-- The scenes of an adventure are in its scope. -/
theorem Compiles.scope_eq (h : a.Compiles r scenes) {scene : Scene} (hscene : scene ∈ scenes) :
    scene.identifier.scope = r.name := by
  obtain ⟨s, -, hs⟩ := exists_mem_of_forall₂ h.scenes hscene
  exact (Identifier.of_ofParts hs.identifier).1

/-- An adventure and scenes with what the texts of a record are compiled to are given in every
context. -/
theorem Compiles.gives (h : a.Compiles r scenes) : (compile r).Gives (some (a, scenes)) := by
  obtain ⟨_, title, _, _, author, _, actions, header, footer, _⟩ := a
  obtain ⟨rfl, htitle, rfl, ⟨i, hi, rfl⟩, hauthor, rfl, hactions, hheader, hfooter, rfl, hscenes⟩ :=
    h
  have hstart := Identifier.gives_resolve r.name r.startingScene
  rw [hi] at hstart
  have hgives := Compile.gives_mapM_forall₂ (hscenes.imp fun _ _ => Scene.Assembles.gives)
  refine htitle.andThen (hstart.andThen (hauthor.andThen (hactions.andThen ?_)))
  refine hheader.andThen (hfooter.andThen (Compile.gives_modify_bind ?_))
  exact hgives.andThen (Compile.gives_pure _)

end Adventure
end Gamebook
