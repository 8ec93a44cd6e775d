/-
# Adventures that stay in their scope

Where no action, condition or marker of a document has a colon, all that its adventure is
compiled to reads and assigns variables of the adventure's scope.  So stores that have the
same numbers there are the same to it: actions, conditions and texts give the same in both,
be it an error, and other scopes are left alone (`Adventure.local_of_unqualified`).
-/

import Gamebook.Proofs.Locality

namespace Gamebook

/-! ## Scripts of records -/

/-- The scripts of an option: its actions, its condition, and those of its label. -/
def OptionRecord.scripts (r : OptionRecord) : List (List Char) :=
  Template.scripts r.label ++ (r.condition.toList ++ r.actions).map String.toList

/-- The scripts of a scene and of its options. -/
def SceneRecord.scripts (r : SceneRecord) : List (List Char) :=
  (r.title :: r.content).flatMap Template.scripts ++ r.actions.map String.toList ++
    r.options.flatMap OptionRecord.scripts

/-- The texts of an adventure that are templates. -/
def AdventureRecord.narration (r : AdventureRecord) : List String :=
  r.title :: (r.author.toList ++ r.globalTop.toList ++ r.globalBottom.toList)

/-- The scripts of an adventure and of its scenes. -/
def AdventureRecord.scripts (r : AdventureRecord) : List (List Char) :=
  r.narration.flatMap Template.scripts ++ r.actions.map String.toList ++
    r.scenes.flatMap SceneRecord.scripts

section

variable {P : List Char → Prop}

/-- The scripts of an option are those of its label, its condition and its actions. -/
theorem OptionRecord.forall_scripts_iff {r : OptionRecord} : (∀ script ∈ r.scripts, P script) ↔
    (∀ script ∈ Template.scripts r.label, P script) ∧ (∀ text ∈ r.condition, P text.toList) ∧
      ∀ text ∈ r.actions, P text.toList := by
  simp only [scripts, List.forall_mem_append, List.forall_mem_map, Option.mem_toList,
    Option.mem_def]

/-- The scripts of a scene are those of its title and its paragraphs, its actions, and those of
its options. -/
theorem SceneRecord.forall_scripts_iff {r : SceneRecord} : (∀ script ∈ r.scripts, P script) ↔
    (∀ text ∈ r.title :: r.content, ∀ script ∈ Template.scripts text, P script) ∧
      (∀ text ∈ r.actions, P text.toList) ∧
      ∀ o ∈ r.options, ∀ script ∈ o.scripts, P script := by
  simp only [scripts, List.forall_mem_append, List.forall_mem_map, List.forall_mem_flatMap,
    and_assoc]

/-- The scripts of an adventure are those of what it narrates, its actions, and those of its
scenes. -/
theorem AdventureRecord.forall_scripts_iff {r : AdventureRecord} :
    (∀ script ∈ r.scripts, P script) ↔
      (∀ text ∈ r.narration, ∀ script ∈ Template.scripts text, P script) ∧
      (∀ text ∈ r.actions, P text.toList) ∧
      ∀ scene ∈ r.scenes, ∀ script ∈ scene.scripts, P script := by
  simp only [scripts, List.forall_mem_append, List.forall_mem_map, List.forall_mem_flatMap,
    and_assoc]

end

/-! ## What a record is compiled to -/

/-- The conditions of the choices of a scene. -/
def Scene.conditions (scene : Scene) : List Condition :=
  scene.choices.flatMap (·.condition.toList)

/-- The templates of a scene and of its choices. -/
def Scene.templates (scene : Scene) : List Template :=
  scene.title :: scene.content ++ (scene.header.toList ++ scene.footer.toList) ++
    scene.choices.map (·.label)

/-- The templates of an adventure and of its scenes. -/
def Adventure.templates (a : Adventure) (scenes : List Scene) : List Template :=
  a.title :: (a.author.toList ++ a.header.toList ++ a.footer.toList) ++
    scenes.flatMap Scene.templates

namespace Scene.Assembles

variable {scope : String} {header footer : Option Template} {r : SceneRecord} {scene : Scene}

/-- Actions without colons keep to the scope. -/
theorem actions_keepTo (h : scene.Assembles scope header footer r)
    (hr : ∀ script ∈ r.scripts, ':' ∉ script) :
    ∀ a ∈ scene.allActions, a.KeepsTo (·.scope = scope) := by
  obtain ⟨-, hactions, hoptions⟩ := SceneRecord.forall_scripts_iff.1 hr
  rw [allActions, List.forall_mem_append, List.forall_mem_flatMap]
  refine ⟨h.actions.of_yields (Action.yields_keepsTo_all hactions), fun ch hch => ?_⟩
  obtain ⟨o, ho, hassembles⟩ := exists_mem_of_forall₂ h.choices hch
  obtain ⟨-, -, hactions⟩ := OptionRecord.forall_scripts_iff.1 (hoptions o ho)
  exact hassembles.actions.of_yields (Action.yields_keepsTo_all hactions)

/-- Conditions without colons read the scope. -/
theorem conditions_read (h : scene.Assembles scope header footer r)
    (hr : ∀ script ∈ r.scripts, ':' ∉ script) :
    ∀ c ∈ scene.conditions, ∀ i ∈ c.program.reads, i.scope = scope := by
  obtain ⟨-, -, hoptions⟩ := SceneRecord.forall_scripts_iff.1 hr
  rw [conditions, List.forall_mem_flatMap]
  intro ch hch
  obtain ⟨o, ho, hassembles⟩ := exists_mem_of_forall₂ h.choices hch
  obtain ⟨-, hcondition, -⟩ := OptionRecord.forall_scripts_iff.1 (hoptions o ho)
  simp only [Option.mem_toList]
  exact hassembles.condition.of_yields <|
    Compile.yields_ofFilled fun text htext => Condition.yields_reads (hcondition text htext)

/-- Templates without colons in their scripts read the scope. -/
theorem templates_read (h : scene.Assembles scope header footer r)
    (hr : ∀ script ∈ r.scripts, ':' ∉ script)
    (hheader : ∀ t ∈ header, ∀ i ∈ t.reads, i.scope = scope)
    (hfooter : ∀ t ∈ footer, ∀ i ∈ t.reads, i.scope = scope) :
    ∀ t ∈ scene.templates, ∀ i ∈ t.reads, i.scope = scope := by
  obtain ⟨hnarration, -, hoptions⟩ := SceneRecord.forall_scripts_iff.1 hr
  obtain ⟨htitle, hcontent⟩ := List.forall_mem_cons.1 hnarration
  simp only [templates, List.forall_mem_append, List.forall_mem_cons, List.forall_mem_map,
    Option.mem_toList, h.header, h.footer]
  refine ⟨⟨⟨?_, ?_⟩, hheader, hfooter⟩, fun ch hch => ?_⟩
  · exact h.title.of_yields (Template.yields_reads htitle)
  · exact h.content.of_yields
      (Compile.yields_mapM fun text htext => Template.yields_reads (hcontent text htext))
  · obtain ⟨o, ho, hassembles⟩ := exists_mem_of_forall₂ h.choices hch
    obtain ⟨hlabel, -, -⟩ := OptionRecord.forall_scripts_iff.1 (hoptions o ho)
    exact hassembles.label.of_yields (Template.yields_reads hlabel)

end Scene.Assembles

namespace Adventure

/-- Whether all that an adventure was compiled to keeps to the variables of a scope. -/
structure StaysIn (scope : String) (a : Adventure) (scenes : List Scene) : Prop where
  actions : ∀ action ∈ a.allActions scenes, action.KeepsTo (·.scope = scope)
  conditions : ∀ c ∈ scenes.flatMap Scene.conditions, ∀ i ∈ c.program.reads, i.scope = scope
  templates : ∀ t ∈ a.templates scenes, ∀ i ∈ t.reads, i.scope = scope

variable {record : AdventureRecord} {a : Adventure} {scenes : List Scene}

/-- **A record without colons in its scripts stays in its scope.** -/
theorem Compiles.staysIn (h : a.Compiles record scenes)
    (hrecord : ∀ script ∈ record.scripts, ':' ∉ script) : a.StaysIn a.name scenes := by
  obtain ⟨hnarration, hactions, hscenes⟩ := AdventureRecord.forall_scripts_iff.1 hrecord
  simp only [AdventureRecord.narration, List.forall_mem_cons, List.forall_mem_append,
    Option.mem_toList] at hnarration
  obtain ⟨htitle, ⟨hauthor, htop⟩, hbottom⟩ := hnarration
  have hoptional {source : Option String}
      (hs : ∀ text ∈ source, ∀ script ∈ Template.scripts text, ':' ∉ script) :
      (Compile.ofFilled (Template.compileText record.name) source).Yields
        fun t => ∀ u ∈ t, ∀ i ∈ u.reads, i.scope = record.name :=
    Compile.yields_ofFilled fun text htext => Template.yields_reads (hs text htext)
  have hheader := h.header.of_yields (hoptional htop)
  have hfooter := h.footer.of_yields (hoptional hbottom)
  rw [h.name]
  constructor
  · rw [allActions, List.forall_mem_append, List.forall_mem_flatMap]
    refine ⟨h.actions.of_yields (Action.yields_keepsTo_all hactions), fun scene hscene => ?_⟩
    obtain ⟨s, hs, hassembles⟩ := exists_mem_of_forall₂ h.scenes hscene
    exact hassembles.actions_keepTo (hscenes s hs)
  · rw [List.forall_mem_flatMap]
    intro scene hscene
    obtain ⟨s, hs, hassembles⟩ := exists_mem_of_forall₂ h.scenes hscene
    exact hassembles.conditions_read (hscenes s hs)
  · simp only [templates, List.forall_mem_append, List.forall_mem_cons, List.forall_mem_flatMap,
      Option.mem_toList]
    refine ⟨⟨?_, ⟨?_, hheader⟩, hfooter⟩, fun scene hscene => ?_⟩
    · exact h.title.of_yields (Template.yields_reads htitle)
    · exact h.author.of_yields (hoptional hauthor)
    · obtain ⟨s, hs, hassembles⟩ := exists_mem_of_forall₂ h.scenes hscene
      exact hassembles.templates_read (hscenes s hs) hheader hfooter

/-- **Unqualified scripts stay in their scope.**  Let a document be built, no action and no
condition of which has a colon, nor a name or a condition in the markers of its templates.
Then all that it is compiled to keeps to the adventure's scope.  So where two stores have the
same numbers in this scope, an action computes the same number, or stops with the same
error; any of the actions in a row leave the same numbers in the scope and all others as they
were; and conditions and texts are the same. -/
theorem local_of_unqualified {document : Json} {r r' : Registry}
    (hrecord : AdventureRecord.validate document = .ok record)
    (hplain : ∀ script ∈ record.scripts, ':' ∉ script)
    (hbuilt : r.assembleDocument document = .ok (a, r')) :
    ∃ scenes, r' = r.append scenes ∧ a.StaysIn a.name scenes ∧
      ∀ s t : Store, s.AgreeOn (·.scope = a.name) t →
        (∀ action ∈ a.allActions scenes, ∃ outcome : Except EvalError Float,
          action.evaluate s = outcome.map (fun x => (x, s.insert action.target x)) ∧
          action.evaluate t = outcome.map (fun x => (x, t.insert action.target x))) ∧
        (∀ as ⊆ a.allActions scenes, (Action.runAll as s).1 = (Action.runAll as t).1 ∧
          (Action.runAll as s).2.AgreeOn (·.scope = a.name) (Action.runAll as t).2 ∧
          ∀ i, i.scope ≠ a.name → (Action.runAll as s).2.get? i = s.get? i ∧
            (Action.runAll as t).2.get? i = t.get? i) ∧
        (∀ c ∈ scenes.flatMap Scene.conditions, c.holds s = c.holds t) ∧
        ∀ u ∈ a.templates scenes, ∀ placeholder,
          u.render placeholder s = u.render placeholder t := by
  obtain ⟨scenes, hcompiled, -, rfl⟩ := Registry.assembleDocument_eq_ok.1 hbuilt
  obtain ⟨record', hrecord', hcompiles⟩ := hcompiled.exists_compiles
  obtain rfl := Except.ok.inj (hrecord.symm.trans hrecord')
  have hstays := hcompiles.staysIn hplain
  refine ⟨scenes, rfl, hstays, fun s t hagree => ⟨fun action haction => ?_, fun as has => ?_,
    fun c hc => ?_, fun u hu placeholder => ?_⟩⟩
  · refine ⟨action.value s, action.evaluate_eq_map s, ?_⟩
    rw [Action.value_congr (hstays.actions action haction) hagree]
    exact action.evaluate_eq_map t
  · have hkeep : ∀ action ∈ as, action.KeepsTo (·.scope = a.name) := fun action haction =>
      hstays.actions action (has haction)
    obtain ⟨herror, hsame⟩ := Action.runAll_congr hkeep hagree
    refine ⟨herror, hsame, fun i hi => ?_⟩
    exact ⟨Action.get?_runAll hkeep hi s, Action.get?_runAll hkeep hi t⟩
  · exact Condition.holds_congr fun i hi => hagree i (hstays.conditions c hc i hi)
  · exact Template.render_congr placeholder fun i hi => hagree i (hstays.templates u hu i hi)

/-- A document with colons in its narration, also in the texts of a nested marker, and with a
range and connectives in its conditions. -/
theorem local_of_unqualified_nested :
    let document : Json := .object
      [("name", .string "a"), ("title", .string "Log: $\x7bhp\x7d"), ("version", .int 1),
       ("actions", .ofTexts ["hp = 3; gold = hp * 2"]),
       ("scenes", .array
         [.object
           [("name", .string "start"), ("title", .string "S"),
            ("content", .ofTexts
              ["?\x7bhp>0 && gold=2..?Gold: $\x7bgold\x7d|?\x7b!met||hp<3?$\x7bmet\x7d|-\x7d\x7d"]),
            ("options", .array
              [.object
                [("label", .string "Pay: $\x7bhp\x7d"), ("target", .string "inkspire:exit"),
                 ("condition", .string "hp > 0 || met"),
                 ("actions", .ofTexts ["gold -= 1, met = 1"])]])]])]
    ∃ record a r', AdventureRecord.validate document = .ok record ∧
      (∀ script ∈ record.scripts, ':' ∉ script) ∧
      Registry.empty.assembleDocument document = .ok (a, r') ∧ a.name = "a" ∧
      (a.allActions r'.scenes).length = 4 ∧ (a.templates r'.scenes).length = 4 ∧
      ∀ s t : Store, s.AgreeOn (·.scope = "a") t → ∀ u ∈ a.templates r'.scenes, ∀ placeholder,
        u.render placeholder s = u.render placeholder t := by
  intro document
  have hruns : (AdventureRecord.validate document).toOption.map (fun record =>
      decide (∀ script ∈ record.scripts, ':' ∉ script)) = some true ∧
      (Registry.empty.assembleDocument document).toOption.map (fun built => (built.1.name,
        (built.1.allActions built.2.scenes).length, (built.1.templates built.2.scenes).length)) =
        some ("a", 4, 4) := by
    decide +kernel
  generalize document = document at hruns ⊢
  obtain ⟨hscripts, hbuilds⟩ := hruns
  obtain ⟨record, hrecord, hplain⟩ := Option.map_eq_some_iff.1 hscripts
  obtain ⟨⟨a, r'⟩, hbuilt, hfacts⟩ := Option.map_eq_some_iff.1 hbuilds
  rw [toOption_eq_some] at hrecord hbuilt
  have hplain := of_decide_eq_true hplain
  obtain ⟨hname, hactions, htemplates⟩ : a.name = "a" ∧ (a.allActions r'.scenes).length = 4 ∧
      (a.templates r'.scenes).length = 4 := by simpa using hfacts
  refine ⟨record, a, r', hrecord, hplain, hbuilt, hname, hactions, htemplates, ?_⟩
  obtain ⟨scenes, hscenes, -, hlocal⟩ := local_of_unqualified hrecord hplain hbuilt
  obtain rfl : r'.scenes = scenes := congrArg Registry.scenes hscenes
  rw [← hname]
  exact fun s t hagree => (hlocal s t hagree).2.2.2

end Adventure
end Gamebook
