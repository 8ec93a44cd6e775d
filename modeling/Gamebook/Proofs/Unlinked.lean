/-
# Unlinked references

The references of a story can be changed all alike (`Story.mapRefs`): unlinked again,
as they are built (`Story.unlinked`), or all resolved (`Story.linked`).  Linking
changes nothing but which references are resolved, so that a story that is linked
and the story before are the same when they are unlinked (`Story.Becomes.unlinked_eq`).
The documents that adventures are shown as have the identifiers of references only,
and so they are the same too.
-/

import Gamebook.Proofs.References

namespace Gamebook

/-! ## References changed alike -/

namespace SceneRef

/-- A reference as it is built. -/
def unlinked (r : SceneRef) : SceneRef := .unresolved r.identifier

/-- A reference as it is resolved. -/
def linked (r : SceneRef) : SceneRef := .resolved r.identifier

/-- A reference that is not resolved is as it is built. -/
theorem unlinked_eq_self {r : SceneRef} (h : r.isResolved = false) : r.unlinked = r := by
  cases r with
  | unresolved i => rfl
  | resolved i => contradiction

/-- A reference that is resolved is as linking leaves it. -/
theorem linked_eq_self {r : SceneRef} (h : r.isResolved = true) : r.linked = r := by
  cases r with
  | unresolved i => contradiction
  | resolved i => rfl

/-- What linking makes of a reference is built as the reference is. -/
theorem Becomes.unlinked_eq {known : Identifier → Bool} {r r' : SceneRef}
    (h : r.Becomes known r') : r'.unlinked = r.unlinked := by
  rw [unlinked, unlinked, h.identifier_eq]

end SceneRef

/-- A choice with its reference changed. -/
def Choice.mapRef (f : SceneRef → SceneRef) (ch : Choice) : Choice :=
  { ch with target := f ch.target }

/-- A scene with its references changed. -/
def Scene.mapRefs (f : SceneRef → SceneRef) (scene : Scene) : Scene :=
  { scene with choices := scene.choices.map (·.mapRef f) }

/-- A registry with its references changed. -/
def Registry.mapRefs (f : SceneRef → SceneRef) (r : Registry) : Registry :=
  ⟨r.scenes.map (·.mapRefs f)⟩

/-- An adventure with the reference to its starting scene changed. -/
def Adventure.mapRef (f : SceneRef → SceneRef) (a : Adventure) : Adventure :=
  { a with start := f a.start }

/-- A story with its references changed. -/
def Story.mapRefs (f : SceneRef → SceneRef) (s : Story) : Story :=
  ⟨s.adventures.map (·.mapRef f), s.registry.mapRefs f⟩

section

variable {f g : SceneRef → SceneRef} {known : Identifier → Bool} {i : Identifier}

/-- A list stays as it is where each of its elements does. -/
theorem map_eq_self {α : Type} {h : α → α} {xs : List α} (hxs : ∀ x ∈ xs, h x = x) :
    xs.map h = xs := by
  rw [List.map_congr_left hxs, List.map_id']

/-- A scene stays as it is where the targets of its choices do. -/
theorem Scene.mapRefs_eq_self {scene : Scene} (h : ∀ ch ∈ scene.choices, f ch.target = ch.target) :
    scene.mapRefs f = scene := by
  have hchoices : scene.choices.map (·.mapRef f) = scene.choices :=
    map_eq_self fun ch hch => by rw [Choice.mapRef, h ch hch]
  rw [mapRefs, hchoices]

/-- An adventure stays as it is where the reference to its starting scene does. -/
theorem Adventure.mapRef_eq_self {a : Adventure} (h : f a.start = a.start) : a.mapRef f = a := by
  rw [mapRef, h]

/-- A registry stays as it is where all targets in its scenes do. -/
theorem Registry.mapRefs_eq_self {r : Registry}
    (h : ∀ scene ∈ r.scenes, ∀ ch ∈ scene.choices, f ch.target = ch.target) :
    r.mapRefs f = r := by
  have hscenes : r.scenes.map (·.mapRefs f) = r.scenes :=
    map_eq_self fun scene hscene => Scene.mapRefs_eq_self (h scene hscene)
  rw [mapRefs, hscenes]

/-- Changing references registers and drops no scene. -/
@[simp] theorem Registry.identifiers_mapRefs (r : Registry) :
    (r.mapRefs f).identifiers = r.identifiers := by
  simp [identifiers, mapRefs, Scene.mapRefs]

/-- A scene is found under its identifier whether its references are changed before or after. -/
theorem Registry.find?_mapRefs (r : Registry) :
    (r.mapRefs f).find? = fun i => (r.find? i).map (·.mapRefs f) :=
  funext fun _ => List.find?_map ..

/-- The choices of some scenes are changed one by one. -/
theorem Registry.choicesOf_mapRefs (r : Registry) (is : List Identifier) :
    (r.mapRefs f).choicesOf is = (r.choicesOf is).map (·.mapRef f) := by
  rw [choicesOf, choicesOf, find?_mapRefs, ← List.map_filterMap, List.flatMap_map, List.map_flatMap]
  rfl

/-- The references of an adventure are changed one by one. -/
theorem Adventure.references_mapRefs (a : Adventure) (r : Registry) :
    (a.mapRef f).references (r.mapRefs f) = (a.references r).map f := by
  have hchoices : (a.mapRef f).choices (r.mapRefs f) = (a.choices r).map (·.mapRef f) :=
    r.choicesOf_mapRefs a.scenes
  rw [references, references, hchoices]
  simp [mapRef, Choice.mapRef]

/-- A document shows references by their identifiers only. -/
theorem Adventure.toJson_mapRefs (hf : ∀ r, (f r).identifier = r.identifier) (a : Adventure)
    (r : Registry) : (a.mapRef f).toJson (r.mapRefs f) = a.toJson r := by
  have hchoice (ch : Choice) : (ch.mapRef f).toJson = ch.toJson := by
    simp only [Choice.toJson, Choice.mapRef, hf]
  have hscene (scene : Scene) : (scene.mapRefs f).toJson = scene.toJson := by
    simp only [Scene.toJson, Scene.mapRefs, List.map_map, Function.comp_def, hchoice]
  simp only [toJson, mapRef, hf, Registry.find?_mapRefs, ← List.map_filterMap, List.map_map, Function.comp_def,
    hscene]

/-- The references of a story are changed one by one, adventure by adventure. -/
theorem Story.references_mapRefs (s : Story) :
    (s.mapRefs f).references = s.references.map (·.map f) := by
  simp only [references, mapRefs, List.map_map, Function.comp_def, Adventure.references_mapRefs]

/-- References that are changed twice are changed once by both changes. -/
theorem Story.mapRefs_mapRefs (s : Story) : (s.mapRefs f).mapRefs g = s.mapRefs (g ∘ f) := by
  simp [mapRefs, Registry.mapRefs, Scene.mapRefs, Choice.mapRef, Adventure.mapRef,
    Function.comp_def]

end

/-! ## What linking keeps -/

section

variable {known : Identifier → Bool}

/-- What linking makes of a choice is built as the choice is. -/
theorem Choice.Becomes.unlinked_eq {ch ch' : Choice} (h : ch.Becomes known ch') :
    ch'.mapRef .unlinked = ch.mapRef .unlinked := by
  obtain ⟨r, hr, rfl⟩ := h
  rw [mapRef, mapRef, hr.unlinked_eq]

/-- What linking makes of a scene is built as the scene is. -/
theorem Scene.Becomes.unlinked_eq {scene scene' : Scene} (h : scene.Becomes known scene') :
    scene'.mapRefs .unlinked = scene.mapRefs .unlinked := by
  obtain ⟨choices, hchoices, rfl⟩ := h
  rw [mapRefs, mapRefs, map_eq_of_forall₂ hchoices fun _ _ => Choice.Becomes.unlinked_eq]

/-- What linking makes of a registry is built as the registry is. -/
theorem Registry.Becomes.unlinked_eq {r r' : Registry} (h : r.Becomes known r') :
    r'.mapRefs .unlinked = r.mapRefs .unlinked := by
  rw [mapRefs, mapRefs, map_eq_of_forall₂ h fun _ _ => Scene.Becomes.unlinked_eq]

/-- What linking makes of an adventure is built as the adventure is. -/
theorem Adventure.Becomes.unlinked_eq {a a' : Adventure} (h : a.Becomes known a') :
    a'.mapRef .unlinked = a.mapRef .unlinked := by
  obtain ⟨start, hstart, rfl⟩ := h
  rw [mapRef, mapRef, hstart.unlinked_eq]

end

namespace Story

/-- A story as it is built, without a pass of linking. -/
def unlinked (s : Story) : Story := s.mapRefs .unlinked

/-- A story with all its references resolved. -/
def linked (s : Story) : Story := s.mapRefs .linked

/-- The documents that the adventures are shown as. -/
def payloads (s : Story) : List Json := s.adventures.map fun a => a.toJson s.registry

variable {s t : Story} {known : Identifier → Bool}

/-- An adventure is shown as a document without regard to what is resolved. -/
theorem payloads_unlinked (s : Story) : s.unlinked.payloads = s.payloads := by
  have hf (r : SceneRef) : r.unlinked.identifier = r.identifier := rfl
  simp only [payloads, unlinked, mapRefs, List.map_map, Function.comp_def,
    Adventure.toJson_mapRefs hf]

/-- A story that is taken back to how it is built is linked to the same story. -/
theorem linked_unlinked (s : Story) : s.unlinked.linked = s.linked := s.mapRefs_mapRefs

/-- Linking changes nothing but which references are resolved. -/
theorem Becomes.unlinked_eq (h : s.Becomes known t) : t.unlinked = s.unlinked := by
  rw [unlinked, unlinked, mapRefs, mapRefs, h.registry.unlinked_eq,
    map_eq_of_forall₂ h.adventures fun _ _ => Adventure.Becomes.unlinked_eq]

/-- A story in which every reference is resolved. -/
theorem linked_eq_self (hstart : ∀ a ∈ s.adventures, a.start.isResolved = true)
    (hchoices : ∀ scene ∈ s.registry.scenes, ∀ ch ∈ scene.choices, ch.IsLinked) :
    s.linked = s := by
  have hadventures : s.adventures.map (·.mapRef .linked) = s.adventures :=
    map_eq_self fun a ha => Adventure.mapRef_eq_self (SceneRef.linked_eq_self (hstart a ha))
  have hregistry : s.registry.mapRefs .linked = s.registry :=
    Registry.mapRefs_eq_self fun scene hscene ch hch =>
      SceneRef.linked_eq_self (hchoices scene hscene ch hch)
  rw [linked, mapRefs, hadventures, hregistry]

end Story
end Gamebook
