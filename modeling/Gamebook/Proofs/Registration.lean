/-
# Adventures and their scenes

After any calls of a host, whether they succeed or fail, every adventure has its
scenes in the registry, each of them once and in the adventure's scope, and every
scene that is registered is in the scope of an adventure (`Story.Sound`).

The registry holds nothing else (`Story.Exact`) as long as no document declares its
name with blanks around it.  One that does is looked up under the name with the
blanks, so that its scenes are registered before it is refused for being loaded
already, and then they belong to no adventure (`Session.registry_after_padded_name`).
-/

import Gamebook.Proofs.Calls
import Gamebook.Proofs.Linking

namespace Gamebook

/-- The identifiers of the control scenes. -/
def Control.identifiers : List Identifier :=
  Control.all.filterMap fun c => Identifier.ofSegments? Control.scope c.name

namespace Story

/-- Every adventure has its scenes, and every scene belongs to the scope of an
adventure. -/
structure Sound (s : Story) : Prop where
  names_nodup : (s.outline.map (·.1)).Nodup
  identifiers_nodup : s.registry.identifiers.Nodup
  registered : ∀ e ∈ s.outline, ∀ i ∈ e.2, i ∈ s.registry.identifiers ∧ i.scope = e.1
  owned : ∀ i ∈ s.registry.identifiers, i.scope ∈ s.outline.map (·.1)
  control : s.outline.head? = some (Control.scope, Control.identifiers)

/-- The registered scenes are those of the adventures, in order. -/
def Exact (s : Story) : Prop := s.registry.identifiers = s.outline.flatMap (·.2)

/-- A story opens with the adventure of the control scenes and nothing else. -/
theorem outline_opening : opening.outline = [(Control.scope, Control.identifiers)] ∧
    opening.registry.identifiers = Control.identifiers := by
  decide +kernel

/-- A story that opens has its scenes, and they have their adventure. -/
theorem sound_opening : opening.Sound := by
  obtain ⟨houtline, hidentifiers⟩ := outline_opening
  have hscope : ∀ i ∈ Control.identifiers, i.scope = Control.scope := by decide
  refine ⟨?_, ?_, ?_, ?_, ?_⟩ <;> simp only [houtline, hidentifiers]
  · decide
  · decide
  · rintro e (_ | ⟨_, ⟨⟩⟩) i hi
    exact ⟨hi, hscope i hi⟩
  · exact fun i hi => List.mem_singleton.2 (hscope i hi)
  · rfl

/-- A story opens with no scenes but those of its adventure. -/
theorem exact_opening : opening.Exact := by
  obtain ⟨houtline, hidentifiers⟩ := outline_opening
  rw [Exact, houtline, hidentifiers]
  simp

variable {s t : Story}

/-- What is sound and exact is read off the names and the identifiers alone. -/
theorem Sound.of_outline (h : s.Sound) (houtline : t.outline = s.outline)
    (hidentifiers : t.registry.identifiers = s.registry.identifiers) : t.Sound := by
  obtain ⟨h₁, h₂, h₃, h₄, h₅⟩ := h
  rw [← houtline] at h₁ h₃ h₄ h₅
  rw [← hidentifiers] at h₂ h₃ h₄
  exact ⟨h₁, h₂, h₃, h₄, h₅⟩

/-- Whether the registered scenes are those of the adventures is said by their identifiers alone. -/
theorem Exact.of_outline (h : s.Exact) (houtline : t.outline = s.outline)
    (hidentifiers : t.registry.identifiers = s.registry.identifiers) : t.Exact := by
  rw [Exact, houtline, hidentifiers]
  exact h

/-- In a sound and exact story the reserved scope has the control scenes only. -/
theorem filter_control (hsound : s.Sound) (hexact : s.Exact) :
    s.registry.identifiers.filter (·.scope = Control.scope) = Control.identifiers := by
  obtain ⟨rest, houtline⟩ := List.head?_eq_some_iff.1 hsound.control
  have hnames := hsound.names_nodup
  have hregistered := hsound.registered
  rw [houtline] at hnames hregistered
  obtain ⟨hnew, -⟩ := List.nodup_cons.1 hnames
  rw [hexact, houtline, List.flatMap_cons, List.filter_append]
  have hcontrol : Control.identifiers.filter (·.scope = Control.scope) = Control.identifiers := by
    decide
  have hother : (rest.flatMap (·.2)).filter (·.scope = Control.scope) = [] := by
    refine List.filter_eq_nil_iff.2 fun i hi => ?_
    obtain ⟨e, he, hie⟩ := List.mem_flatMap.1 hi
    have hscope := (hregistered e (List.mem_cons_of_mem _ he) i hie).2
    rw [decide_eq_true_eq, hscope]
    exact fun hcontrol => hnew (List.mem_map.2 ⟨e, he, hcontrol⟩)
  rw [hcontrol, hother, List.append_nil]

end Story

namespace Session

variable {s : Session} {document : Json} {a : Adventure} {scenes : List Scene}
  {library : Option Library} {new : List (Adventure × List Scene)}

/-- The names of the adventures are those of the outline. -/
theorem names_eq (s : Session) : s.names = s.story.outline.map (·.1) := by
  simp [names, Story.outline]

/-- An adventure that is put behind the others is the last of the outline. -/
theorem outline_extend (hcompiled : a.CompiledFrom document scenes) :
    (s.extend [(a, scenes)]).story.outline =
      s.story.outline ++ [(a.name, scenes.map (·.identifier))] := by
  simp [extend, Story.outline, hcompiled.scenes_eq]

/-- The scenes of an adventure that is put behind the others are registered behind theirs. -/
theorem identifiers_extend : (s.extend [(a, scenes)]).story.registry.identifiers =
    s.story.registry.identifiers ++ scenes.map (·.identifier) := by
  simp [extend]

/-- A session that is sound stays so with an adventure that it admits. -/
theorem sound_extend (h : s.story.Sound) (ha : s.Admits document a scenes) :
    (s.extend [(a, scenes)]).story.Sound := by
  have hscope : ∀ i ∈ scenes.map (·.identifier), i.scope = a.name := by
    intro i hi
    obtain ⟨scene, hscene, rfl⟩ := List.mem_map.1 hi
    exact ha.compiled.scope_eq hscene
  have hnew : a.name ∉ s.story.outline.map (·.1) := s.names_eq ▸ ha.new
  have hnodup := ha.fresh.nodup_append h.identifiers_nodup
  rw [Registry.identifiers_append] at hnodup
  refine ⟨?_, ?_, ?_, ?_, ?_⟩ <;> simp only [outline_extend ha.compiled, identifiers_extend]
  · rw [List.map_append]
    refine List.nodup_append.2 ⟨h.names_nodup, by simp, ?_⟩
    rintro n hn m hm rfl
    obtain rfl : n = a.name := List.mem_singleton.1 hm
    exact hnew hn
  · exact hnodup
  · intro e he i hi
    rcases List.mem_append.1 he with he | he
    · obtain ⟨hmem, hie⟩ := h.registered e he i hi
      exact ⟨List.mem_append_left _ hmem, hie⟩
    · obtain rfl := List.mem_singleton.1 he
      exact ⟨List.mem_append_right _ hi, hscope i hi⟩
  · intro i hi
    rw [List.map_append]
    rcases List.mem_append.1 hi with hi | hi
    · exact List.mem_append_left _ (h.owned i hi)
    · exact List.mem_append_right _ (List.mem_singleton.2 (hscope i hi))
  · rw [List.head?_append, h.control]
    rfl

/-- The registered scenes are still those of the adventures with one that the session admits. -/
theorem exact_extend (h : s.story.Exact) (ha : s.Admits document a scenes) :
    (s.extend [(a, scenes)]).story.Exact := by
  rw [Story.Exact, outline_extend ha.compiled, identifiers_extend, h]
  simp

/-- Scenes that belong to no adventure leave a session sound. -/
theorem sound_withStray (h : s.story.Sound) (hcompiled : a.CompiledFrom document scenes)
    (hfresh : s.story.registry.Fresh scenes) (hold : a.name ∈ s.names) :
    (s.withStray scenes).story.Sound := by
  have houtline : (s.withStray scenes).story.outline = s.story.outline := rfl
  have hidentifiers : (s.withStray scenes).story.registry.identifiers =
      s.story.registry.identifiers ++ scenes.map (·.identifier) := Registry.identifiers_append ..
  refine ⟨?_, hfresh.nodup_append h.identifiers_nodup, ?_, ?_, ?_⟩ <;>
    simp only [houtline, hidentifiers]
  · exact h.names_nodup
  · intro e he i hi
    obtain ⟨hmem, hie⟩ := h.registered e he i hi
    exact ⟨List.mem_append_left _ hmem, hie⟩
  · intro i hi
    rcases List.mem_append.1 hi with hi | hi
    · exact h.owned i hi
    · obtain ⟨scene, hscene, rfl⟩ := List.mem_map.1 hi
      rw [hcompiled.scope_eq hscene, ← names_eq]
      exact hold
  · exact h.control

/-- A session stays sound however it grows. -/
theorem Grows.sound (h : s.Grows library new) (hsound : s.story.Sound) :
    (s.extend new).story.Sound := by
  induction h with
  | nil => rwa [extend_nil]
  | cons found admitted rest ih =>
    rw [extend_cons]
    exact ih (sound_extend hsound admitted)

/-- The registered scenes are still those of the adventures however a session grows. -/
theorem Grows.exact (h : s.Grows library new) (hexact : s.story.Exact) :
    (s.extend new).story.Exact := by
  induction h with
  | nil => rwa [extend_nil]
  | cons found admitted rest ih =>
    rw [extend_cons]
    exact ih (exact_extend hexact admitted)

end Session

namespace Request

variable {s : Session} {document : Json} {library : Option Library}
  {answered : Except Fault Adventure × Session}

/-- Loading a document leaves a session sound. -/
theorem Loads.sound (h : Loads library s document answered) (hsound : s.story.Sound) :
    answered.2.story.Sound := by
  cases h with
  | refused d _ => exact hsound
  | entered admitted explored _ _ =>
    rw [Session.extend_cons]
    exact explored.grows.sound (Session.sound_extend hsound admitted)
  | strayed compiled fresh old _ => exact Session.sound_withStray hsound compiled fresh old

/-- Loading a document that declares its name plainly leaves a session exact. -/
theorem Loads.exact (h : Loads library s document answered) (hplain : document.IsPlain)
    (hexact : s.story.Exact) : answered.2.story.Exact := by
  cases h with
  | refused d _ => exact hexact
  | entered admitted explored _ _ =>
    rw [Session.extend_cons]
    exact explored.grows.exact (Session.exact_extend hexact admitted)
  | strayed compiled _ _ declared =>
    exact absurd (compiled.get?_name_of_isPlain hplain) declared

end Request

/-- Whether no blanks stand around the name that a document declares or an adventure
is asked for by. -/
def Call.IsPlain (disk : Disk) : Call → Prop
  | load (.given document _) => document.IsPlain
  | load (.file path) =>
    ∀ document, Library.readDocument disk path = .ok document → document.IsPlain
  | load (.require name _) => Text.trim name = name
  | link | run .. => True

/-- Where no blanks stand around names, a call finds a document that declares its name
plainly. -/
theorem LoadCall.isPlain_of_call {c : LoadCall} {s : Session}
    (h : (Call.load c).IsPlain s.disk) : c.IsPlain s := by
  intro document hfound
  cases c with
  | given given library =>
    obtain rfl : given = document := by simpa [found?] using hfound
    exact h
  | file path => exact h document (by simpa [found?] using hfound)
  | require name library =>
    intro raw hraw
    by_cases hmem : name ∈ s.names
    · exact absurd hfound (by simp [found?, hmem])
    · have hsupply : Library.supply s.disk name (library.or s.library) = .ok document := by
        simpa [found?, hmem] using hfound
      obtain rfl : name = raw := by
        simpa [Library.get?_name_of_supply hsupply] using hraw
      exact h

namespace Call

variable {c : Call} {s t : Session}

/-- Every call leaves a session sound. -/
theorem Leaves.sound (h : c.Leaves s t) (hsound : s.story.Sound) : t.story.Sound := by
  cases h with
  | same hstory => rwa [hstory]
  | loaded _ loads => exact loads.sound hsound
  | linked hstory =>
    rw [hstory]
    exact hsound.of_outline s.story.outline_link s.story.identifiers_link

/-- A call whose names have no blanks around them leaves no scene without an adventure. -/
theorem Leaves.exact (h : c.Leaves s t) (hplain : c.IsPlain s.disk) (hexact : s.story.Exact) :
    t.story.Exact := by
  cases h with
  | same hstory => rwa [hstory]
  | loaded found loads => exact loads.exact (LoadCall.isPlain_of_call hplain _ found) hexact
  | linked hstory =>
    rw [hstory]
    exact hexact.of_outline s.story.outline_link s.story.identifiers_link

/-- **Every call leaves a session sound**, be it that it fails. -/
theorem sound_answer (c : Call) (h : s.story.Sound) : (c.answer s).2.story.Sound :=
  (c.leaves s).1.sound h

/-- **A call with plain names leaves a session exact**, be it that it fails. -/
theorem exact_answer (hplain : c.IsPlain s.disk) (h : s.story.Exact) :
    (c.answer s).2.story.Exact :=
  (c.leaves s).1.exact hplain h

end Call

namespace Session

/-- **Adventures and registry keep together.**  After any calls, failed ones among
them, no name and no identifier is there twice, every adventure has its scenes in the
registry, in its scope, and every registered scene is in the scope of an adventure.
If no name had blanks around it, the registered scenes are those of the adventures,
in order; the reserved scope has the control scenes only; and linking, if nothing
stops it, links every choice of every registered scene. -/
theorem registry_after (settings : Settings) (library : Option Library) (disk : Disk)
    (calls : List Call) :
    let t := (start settings library disk).after calls
    (t.names.Nodup ∧ t.story.registry.identifiers.Nodup ∧
      (∀ a ∈ t.story.adventures, ∀ i ∈ a.scenes,
        i ∈ t.story.registry.identifiers ∧ i.scope = a.name) ∧
      ∀ i ∈ t.story.registry.identifiers, i.scope ∈ t.names) ∧
    ((∀ c ∈ calls, c.IsPlain disk) →
      t.story.registry.identifiers = t.story.adventures.flatMap (·.scenes) ∧
      t.story.registry.identifiers.filter (·.scope = Control.scope) = Control.identifiers ∧
      (t.story.link.failure = none →
        ∀ scene ∈ t.story.link.result.registry.scenes, ∀ ch ∈ scene.choices, ch.IsLinked)) := by
  intro t
  have hsound : t.story.Sound := after_induction (P := fun s => s.story.Sound)
    Story.sound_opening fun c _ s h => Call.sound_answer c h
  refine ⟨⟨?_, hsound.identifiers_nodup, ?_, ?_⟩, fun hplain => ?_⟩
  · rw [names_eq]
    exact hsound.names_nodup
  · intro a ha i hi
    exact hsound.registered (a.name, a.scenes) (List.mem_map.2 ⟨a, ha, rfl⟩) i hi
  · rw [names_eq]
    exact hsound.owned
  · obtain ⟨hexact, -⟩ : t.story.Exact ∧ t.disk = disk :=
      after_induction (P := fun s => s.story.Exact ∧ s.disk = disk) ⟨Story.exact_opening, rfl⟩
        fun c hc s h => ⟨Call.exact_answer (h.2 ▸ hplain c hc) h.1, (c.leaves s).2.trans h.2⟩
    have hscenes : t.story.registry.identifiers = t.story.adventures.flatMap (·.scenes) := by
      rw [hexact, Story.outline, List.flatMap_map]
    refine ⟨hscenes, Story.filter_control hsound hexact, fun hlink scene hscene => ?_⟩
    have hmem : scene.identifier ∈ t.story.link.result.registry.identifiers :=
      List.mem_map.2 ⟨scene, hscene, rfl⟩
    rw [Story.identifiers_link, hscenes] at hmem
    obtain ⟨a, ha, hi⟩ := List.mem_flatMap.1 hmem
    exact t.story.settled_link hlink ha scene.identifier hi scene hscene rfl

/-- A document that is loaded, and refused when it is loaded again. -/
theorem registry_after_repeated_load :
    let document : Json := .brief "a" "start" []
    let calls : List Call := [.load (.given document none), .load (.given document none), .link]
    ∃ t, t = (start {} none {}).after calls ∧ t.names = ["inkspire", "a"] ∧
      t.story.registry.identifiers = t.story.adventures.flatMap (·.scenes) ∧
      ∀ scene ∈ t.story.link.result.registry.scenes, ∀ ch ∈ scene.choices, ch.IsLinked := by
  intro document calls
  have hplain : document.IsPlain := by
    rintro raw ⟨⟩
    decide
  have hcalls : ∀ c ∈ calls, c.IsPlain {} := by
    simp only [calls, List.forall_mem_cons]
    exact ⟨hplain, hplain, trivial, nofun⟩
  obtain ⟨hnames, hlink⟩ : ((start {} none {}).after calls).names = ["inkspire", "a"] ∧
      ((start {} none {}).after calls).story.link.failure = none := by
    decide +kernel
  obtain ⟨hscenes, -, hlinked⟩ := (registry_after {} none {} calls).2 hcalls
  exact ⟨_, rfl, hnames, hscenes, hlinked hlink⟩

/-- A document that declares the name of the control scenes' adventure with blanks
around it is refused, and its scene stays registered among them. -/
theorem registry_after_padded_name :
    let t := (start {} none {}).after [.load (.given (.brief " inkspire " "extra" []) none)]
    t.names = ["inkspire"] ∧
      t.story.registry.identifiers ≠ t.story.adventures.flatMap (·.scenes) ∧
      (t.story.registry.identifiers.filter (·.scope = Control.scope)).map (·.name) =
        ["switch", "fail", "pass", "exit", "back", "extra"] := by
  decide +kernel

end Session
end Gamebook
