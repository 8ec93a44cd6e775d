/-
# References

What a pass of linking makes of a story.  A reference stays as it is, or it is
resolved to the scene that it names, which is then a registered one
(`SceneRef.Becomes`), and nothing else of the story changes (`Story.Becomes`).
`Story.references` lists the references of every adventure: its starting scene and
then its choices, scene by scene.

| a pass | then |
| --- | --- |
| that nothing stops | resolves every reference of the adventures that it comes to |
| that is stopped | leaves a reference unresolved |

A pass is stopped only by a reference that is unresolved and names no registered
scene (`Story.failure_linkAt_eq_none_iff`).
-/

import Gamebook.Proofs.Linking
import Mathlib.Data.List.Forall2
import Mathlib.Data.List.Nodup

namespace Gamebook

/-- Relations that can be composed can be composed along lists. -/
theorem forall₂_trans {α : Type} {R : α → α → Prop} (h : ∀ a b c, R a b → R b c → R a c) :
    ∀ {xs ys zs : List α}, List.Forall₂ R xs ys → List.Forall₂ R ys zs → List.Forall₂ R xs zs
  | _, _, _, .nil, .nil => .nil
  | _, _, _, .cons hxy hxys, .cons hyz hyzs =>
    .cons (h _ _ _ hxy hyz) (forall₂_trans h hxys hyzs)

/-- What stands in a place of a list is related to what stands there in a related one. -/
theorem rel_getElem?_of_forall₂ {α β : Type} {R : α → β → Prop} {xs : List α} {ys : List β}
    (h : List.Forall₂ R xs ys) (n : Nat) : Option.Rel R xs[n]? ys[n]? := by
  induction h generalizing n with
  | nil => exact .none
  | cons hxy _ ih =>
    cases n with
    | zero => exact .some hxy
    | succ n => exact ih n

/-- What related elements have in common, related lists have in common. -/
theorem map_eq_of_forall₂ {α β : Type} {R : α → α → Prop} {f : α → β} {xs ys : List α}
    (h : List.Forall₂ R xs ys) (hf : ∀ x y, R x y → f y = f x) : ys.map f = xs.map f := by
  induction h with
  | nil => rfl
  | cons hxy _ ih => rw [List.map_cons, List.map_cons, hf _ _ hxy, ih]

/-- A list is related to the one with a related element in a place of it. -/
theorem forall₂_set {α : Type} {R : α → α → Prop} (hrefl : ∀ a, R a a) {xs : List α} {n : Nat}
    {x y : α} (hx : xs[n]? = some x) (h : R x y) : List.Forall₂ R xs (xs.set n y) := by
  induction xs generalizing n with
  | nil => simp at hx
  | cons x' xs ih =>
    cases n with
    | zero =>
      obtain rfl := Option.some.inj hx
      exact .cons h (List.forall₂_same.2 fun a _ => hrefl a)
    | succ n => exact .cons (hrefl x') (ih hx)

namespace SceneRef

/-- What linking can make of a reference, `known` being the registered scenes. -/
inductive Becomes (known : Identifier → Bool) : SceneRef → SceneRef → Prop
  | same (r : SceneRef) : Becomes known r r
  | resolved {i : Identifier} (h : known i = true) : Becomes known (.unresolved i) (.resolved i)

/-- Whether a reference is resolved or can be: the scene that it names is registered. -/
def IsLinkable (known : Identifier → Bool) (r : SceneRef) : Prop :=
  r.isResolved = true ∨ known r.identifier = true

variable {known : Identifier → Bool} {r r' r'' : SceneRef} {i : Identifier}

/-- What two passes make of a reference, one after the other, is what one can make of it. -/
theorem Becomes.trans (h : r.Becomes known r') (h' : r'.Becomes known r'') :
    r.Becomes known r'' := by
  cases h with
  | same => exact h'
  | resolved hi =>
    cases h'
    exact .resolved hi

/-- A reference keeps the identifier that it was built with. -/
theorem Becomes.identifier_eq (h : r.Becomes known r') : r'.identifier = r.identifier := by
  cases h <;> rfl

/-- A resolved reference never changes again. -/
theorem Becomes.eq_of_isResolved (h : r.Becomes known r') (hr : r.isResolved = true) :
    r' = r := by
  cases h with
  | same => rfl
  | resolved => contradiction

/-- Linking changes nothing about whether a reference can be resolved. -/
theorem Becomes.isLinkable_iff (h : r.Becomes known r') :
    r'.IsLinkable known ↔ r.IsLinkable known := by
  cases h with
  | same => exact Iff.rfl
  | resolved hi => exact ⟨fun _ => .inr hi, fun _ => .inl rfl⟩

/-- Resolved references never change again. -/
theorem eq_of_isResolved {rs rs' : List SceneRef} (h : List.Forall₂ (Becomes known) rs rs')
    (hrs : ∀ r ∈ rs, r.isResolved = true) : rs' = rs := by
  induction h with
  | nil => rfl
  | cons hr _ ih =>
    obtain ⟨hresolved, hrest⟩ := List.forall_mem_cons.1 hrs
    rw [hr.eq_of_isResolved hresolved, ih hrest]

/-- Linking changes nothing about whether all references of a list can be resolved. -/
theorem forall_isLinkable_iff {rs rs' : List SceneRef}
    (h : List.Forall₂ (Becomes known) rs rs') :
    (∀ r ∈ rs', r.IsLinkable known) ↔ ∀ r ∈ rs, r.IsLinkable known := by
  induction h with
  | nil => exact Iff.rfl
  | cons hr _ ih => simp only [List.forall_mem_cons, hr.isLinkable_iff, ih]

end SceneRef

variable {known : Identifier → Bool}

/-! ## Choices -/

namespace Choice

/-- What linking can make of a choice. -/
def Becomes (known : Identifier → Bool) (ch ch' : Choice) : Prop :=
  ∃ r, ch.target.Becomes known r ∧ ch' = { ch with target := r }

/-- A choice may stay as it is. -/
theorem Becomes.refl (ch : Choice) : ch.Becomes known ch := ⟨ch.target, .same _, rfl⟩

/-- What two passes make of a choice, one can make of it. -/
theorem Becomes.trans {ch ch' ch'' : Choice} (h : ch.Becomes known ch')
    (h' : ch'.Becomes known ch'') : ch.Becomes known ch'' := by
  obtain ⟨r, hr, rfl⟩ := h
  obtain ⟨r', hr', rfl⟩ := h'
  exact ⟨r', hr.trans hr', rfl⟩

/-- All that linking makes of a choice, it makes of its target. -/
theorem Becomes.target {ch ch' : Choice} (h : ch.Becomes known ch') :
    ch.target.Becomes known ch'.target := by
  obtain ⟨r, hr, rfl⟩ := h
  exact hr

variable {c : Context} {choices : List Choice}

/-- Linking choices turns each of them into what linking can make of it, also where a target stops
it. -/
theorem becomes_link : List.Forall₂ (Becomes known) choices (link known c choices).result := by
  induction choices with
  | nil => exact .nil
  | cons ch choices ih =>
    cases htarget : ch.target with
    | resolved i =>
      simp only [link, htarget]
      exact .cons (.refl ch) ih
    | unresolved i =>
      cases hknown : known i with
      | true =>
        simp only [link, htarget, hknown, if_true]
        exact .cons ⟨.resolved i, htarget ▸ .resolved hknown, rfl⟩ ih
      | false =>
        simp only [link, htarget, hknown, Bool.false_eq_true, if_false]
        exact List.forall₂_same.2 fun ch _ => .refl ch

/-- A pass goes through where every choice can be linked. -/
theorem failure_link_eq_none_iff :
    (link known c choices).failure = none ↔ ∀ ch ∈ choices, ch.target.IsLinkable known := by
  induction choices with
  | nil => exact ⟨fun _ => nofun, fun _ => rfl⟩
  | cons ch choices ih =>
    rw [List.forall_mem_cons, ← ih]
    cases htarget : ch.target with
    | resolved i =>
      have hresolved : (SceneRef.resolved i).IsLinkable known := .inl rfl
      simp only [link, htarget, hresolved, true_and]
    | unresolved i =>
      have hlinkable : (SceneRef.unresolved i).IsLinkable known ↔ known i = true := by
        simp [SceneRef.IsLinkable, SceneRef.isResolved, SceneRef.identifier]
      cases hknown : known i <;> simp [link, htarget, hknown, hlinkable]

end Choice

/-! ## Scenes -/

/-- What linking can make of a scene. -/
def Scene.Becomes (known : Identifier → Bool) (scene scene' : Scene) : Prop :=
  ∃ choices, List.Forall₂ (Choice.Becomes known) scene.choices choices ∧
    scene' = { scene with choices }

/-- A scene may stay as it is. -/
theorem Scene.Becomes.refl (scene : Scene) : scene.Becomes known scene :=
  ⟨scene.choices, List.forall₂_same.2 fun ch _ => .refl ch, rfl⟩

/-- What two passes make of a scene, one can make of it. -/
theorem Scene.Becomes.trans {scene scene' scene'' : Scene} (h : scene.Becomes known scene')
    (h' : scene'.Becomes known scene'') : scene.Becomes known scene'' := by
  obtain ⟨choices, hchoices, rfl⟩ := h
  obtain ⟨choices', hchoices', rfl⟩ := h'
  exact ⟨choices', forall₂_trans (R := Choice.Becomes known) (fun _ _ _ => .trans) hchoices hchoices', rfl⟩

namespace Registry

/-- The choices of the scenes with some identifiers. -/
def choicesOf (r : Registry) (is : List Identifier) : List Choice :=
  (is.filterMap r.find?).flatMap (·.choices)

/-- What linking can make of a registry. -/
def Becomes (known : Identifier → Bool) (r r' : Registry) : Prop :=
  List.Forall₂ (Scene.Becomes known) r.scenes r'.scenes

variable {r r' r'' : Registry} {i : Identifier} {is : List Identifier} {c : Context}

/-- A scene that is found is registered, with the identifier that it was looked up by. -/
theorem mem_of_find? {scene : Scene} (h : r.find? i = some scene) :
    scene ∈ r.scenes ∧ scene.identifier = i :=
  ⟨List.mem_of_find?_eq_some h, by simpa using List.find?_some h⟩

/-- A choice of some identifiers is a choice of the scene that one of them names. -/
theorem exists_of_mem_choicesOf {ch : Choice} (h : ch ∈ r.choicesOf is) :
    ∃ i ∈ is, ∃ scene, r.find? i = some scene ∧ ch ∈ scene.choices := by
  obtain ⟨scene, hscene, hch⟩ := List.mem_flatMap.1 h
  obtain ⟨i, hi, hfound⟩ := List.mem_filterMap.1 hscene
  exact ⟨i, hi, scene, hfound, hch⟩

/-- A registry may stay as it is. -/
theorem Becomes.refl (r : Registry) : r.Becomes known r := List.forall₂_same.2 fun s _ => .refl s

/-- What two passes make of a registry, one can make of it. -/
theorem Becomes.trans (h : r.Becomes known r') (h' : r'.Becomes known r'') :
    r.Becomes known r'' :=
  forall₂_trans (R := Scene.Becomes known) (fun _ _ _ => .trans) h h'

/-- Registries with the same identifiers know the same scenes. -/
theorem contains_congr (h : r'.identifiers = r.identifiers) : r'.contains = r.contains := by
  funext i
  rw [Bool.eq_iff_iff, contains_iff, contains_iff, h]

/-- Where a scene is found, what became of it is found. -/
theorem Becomes.find? (h : r.Becomes known r') (i : Identifier) :
    Option.Rel (Scene.Becomes known) (r.find? i) (r'.find? i) := by
  obtain ⟨scenes⟩ := r
  obtain ⟨scenes'⟩ := r'
  change List.Forall₂ _ scenes scenes' at h
  simp only [Registry.find?]
  induction h with
  | nil => exact .none
  | @cons scene scene' _ _ hscene _ ih =>
    have hidentifier : scene'.identifier = scene.identifier := by
      obtain ⟨choices, -, rfl⟩ := hscene
      rfl
    by_cases hi : scene.identifier = i
    · simp only [List.find?_cons, hidentifier, hi, decide_true]
      exact .some hscene
    · simp only [List.find?_cons, hidentifier, hi, decide_false]
      exact ih

/-- The choices of some identifiers become choices one by one, since no scene moves. -/
theorem Becomes.choicesOf (h : r.Becomes known r') (is : List Identifier) :
    List.Forall₂ (Choice.Becomes known) (r.choicesOf is) (r'.choicesOf is) := by
  have hscenes : List.Forall₂ (Scene.Becomes known) (is.filterMap r.find?)
      (is.filterMap r'.find?) := by
    refine List.rel_filterMap (R := Eq) ?_ (List.forall₂_same.2 fun _ _ => rfl)
    rintro i _ rfl
    exact h.find? i
  refine List.rel_flatMap hscenes ?_
  rintro scene _ ⟨choices, hchoices, rfl⟩
  exact hchoices

/-- The references of related choices are related. -/
theorem Becomes.targetsOf (h : r.Becomes known r') (is : List Identifier) :
    List.Forall₂ (SceneRef.Becomes known) ((r.choicesOf is).map (·.target))
      ((r'.choicesOf is).map (·.target)) :=
  List.forall₂_map_left_iff.2 (List.forall₂_map_right_iff.2
    ((h.choicesOf is).imp fun _ _ => Choice.Becomes.target))

/-- The only scene with an identifier is the one that is found. -/
theorem eq_of_find? (hr : r.identifiers.Nodup) {scene other : Scene}
    (hscene : r.find? i = some scene) (hother : other ∈ r.scenes) (hi : other.identifier = i) :
    other = scene := by
  obtain ⟨hmem, hidentifier⟩ := mem_of_find? hscene
  exact List.inj_on_of_nodup_map hr hother hmem (hi.trans hidentifier.symm)

/-- Linking the choices of one scene changes no other one. -/
theorem becomes_setChoices (hr : r.identifiers.Nodup) {scene : Scene}
    (hscene : r.find? i = some scene) {choices : List Choice}
    (h : List.Forall₂ (Choice.Becomes known) scene.choices choices) :
    r.Becomes known (r.setChoices i choices) := by
  refine List.forall₂_map_right_iff.2 (List.forall₂_same.2 fun other hother => ?_)
  split
  · rename_i hi
    obtain rfl := eq_of_find? hr hscene hother hi
    exact ⟨choices, h, rfl⟩
  · exact .refl other

/-- Linking the scenes of a registry changes it as linking may, wherever it stops. -/
theorem becomes_link (hr : r.identifiers.Nodup) :
    r.Becomes r.contains (link c is r).result := by
  induction is generalizing r with
  | nil => exact .refl r
  | cons i is ih =>
    unfold link
    split
    · exact ih hr
    · rename_i scene hscene
      dsimp only
      generalize hpass : Choice.link r.contains _ scene.choices = pass
      have hone : r.Becomes r.contains (r.setChoices i pass.result) :=
        becomes_setChoices hr hscene (hpass ▸ Choice.becomes_link)
      split
      · exact hone
      · refine hone.trans ?_
        rw [← contains_congr (identifiers_setChoices r i pass.result)]
        exact ih (by rwa [identifiers_setChoices])

/-- A pass goes through where every choice of the scenes can be linked. -/
theorem failure_link_eq_none_iff (hr : r.identifiers.Nodup) :
    (link c is r).failure = none ↔
      ∀ ref ∈ (r.choicesOf is).map (·.target), ref.IsLinkable r.contains := by
  induction is generalizing r with
  | nil => exact ⟨fun _ => nofun, fun _ => rfl⟩
  | cons i is ih =>
    unfold link
    split
    · rename_i hnone
      rw [ih hr, choicesOf, choicesOf, List.filterMap_cons_none hnone]
    · rename_i scene hscene
      have hchoices : r.choicesOf (i :: is) = scene.choices ++ r.choicesOf is := by
        rw [choicesOf, List.filterMap_cons_some hscene, List.flatMap_cons]
        rfl
      rw [hchoices, List.map_append, List.forall_mem_append, List.forall_mem_map]
      dsimp only
      generalize hpass : Choice.link r.contains _ scene.choices = pass
      have hscenePass : pass.failure = none ↔
          ∀ ch ∈ scene.choices, ch.target.IsLinkable r.contains :=
        hpass ▸ Choice.failure_link_eq_none_iff
      rw [← hscenePass]
      split
      · rename_i d hd
        simp [hd]
      · rename_i hnone
        have hone : r.Becomes r.contains (r.setChoices i pass.result) :=
          becomes_setChoices hr hscene (hpass ▸ Choice.becomes_link)
        have hidentifiers := identifiers_setChoices r i pass.result
        rw [ih (hidentifiers ▸ hr), contains_congr hidentifiers,
          SceneRef.forall_isLinkable_iff (hone.targetsOf is), and_iff_right hnone]

end Registry

/-! ## Adventures -/

namespace Adventure

/-- What linking can make of an adventure. -/
def Becomes (known : Identifier → Bool) (a a' : Adventure) : Prop :=
  ∃ start, a.start.Becomes known start ∧ a' = { a with start }

/-- An adventure may stay as it is. -/
theorem Becomes.refl (a : Adventure) : a.Becomes known a := ⟨a.start, .same _, rfl⟩

/-- What two passes make of an adventure, one can make of it. -/
theorem Becomes.trans {a a' a'' : Adventure} (h : a.Becomes known a')
    (h' : a'.Becomes known a'') : a.Becomes known a'' := by
  obtain ⟨r, hr, rfl⟩ := h
  obtain ⟨r', hr', rfl⟩ := h'
  exact ⟨r', hr.trans hr', rfl⟩

/-- The references of an adventure: its starting scene and then its choices, scene by
scene. -/
def references (a : Adventure) (r : Registry) : List SceneRef :=
  a.start :: (a.choices r).map (·.target)

variable {a a' : Adventure} {r r' : Registry}

/-- An adventure is linked just if all of its references are resolved. -/
theorem isLinked_iff : a.isLinked r = true ↔ ∀ ref ∈ a.references r, ref.isResolved = true := by
  simp [isLinked, references]

/-- The references of an adventure become references one by one, its starting scene first. -/
theorem Becomes.references (h : a.Becomes known a') (hr : r.Becomes known r') :
    List.Forall₂ (SceneRef.Becomes known) (a.references r) (a'.references r') := by
  obtain ⟨start, hstart, rfl⟩ := h
  exact .cons hstart (hr.targetsOf a.scenes)

/-- Linking the starting scene changes an adventure as linking may. -/
theorem becomes_linkStart : a.Becomes r.contains (a.linkStart r).result := by
  unfold linkStart
  split
  · exact .refl a
  · rename_i i hi
    split
    · rename_i hknown
      exact ⟨.resolved i, hi ▸ .resolved hknown, rfl⟩
    · exact .refl a

/-- The starting scene stops linking just if it cannot be resolved. -/
theorem failure_linkStart_eq_none_iff :
    (a.linkStart r).failure = none ↔ a.start.IsLinkable r.contains := by
  unfold linkStart
  split
  · rename_i i hi
    rw [hi]
    exact ⟨fun _ => .inl rfl, fun _ => rfl⟩
  · rename_i i hi
    rw [hi]
    split
    · rename_i hknown
      exact ⟨fun _ => .inr hknown, fun _ => rfl⟩
    · rename_i hknown
      simp [SceneRef.IsLinkable, SceneRef.isResolved, SceneRef.identifier, hknown]

/-- Where the starting scene does not stop linking, it is resolved. -/
theorem isResolved_linkStart (h : (a.linkStart r).failure = none) :
    (a.linkStart r).result.start.isResolved = true := by
  unfold linkStart at h ⊢
  split
  · rename_i i hi
    rw [hi]
    rfl
  · split
    · rfl
    · rename_i i hi hknown
      simp [hi, hknown] at h

/-- Linking the starting scene leaves the list of scenes as it is. -/
theorem scenes_linkStart : (a.linkStart r).result.scenes = a.scenes := by
  obtain ⟨start, -, hstart⟩ := becomes_linkStart (a := a) (r := r)
  rw [hstart]

/-- Linking an adventure changes it and the registry as linking may. -/
theorem becomes_link (hr : r.identifiers.Nodup) :
    a.Becomes r.contains (a.link r).result.1 ∧ r.Becomes r.contains (a.link r).result.2 := by
  unfold link
  dsimp only
  split
  · exact ⟨becomes_linkStart, .refl r⟩
  · exact ⟨becomes_linkStart, Registry.becomes_link hr⟩

/-- A pass goes through where every reference of the adventure can be linked. -/
theorem failure_link_eq_none_iff (hr : r.identifiers.Nodup) :
    (a.link r).failure = none ↔ ∀ ref ∈ a.references r, ref.IsLinkable r.contains := by
  have hreferences : a.references r = a.start :: (r.choicesOf a.scenes).map (·.target) := rfl
  rw [hreferences, List.forall_mem_cons, ← failure_linkStart_eq_none_iff]
  unfold link
  dsimp only
  split
  · rename_i d hd
    simp [hd]
  · rename_i hnone
    rw [Registry.failure_link_eq_none_iff hr, and_iff_right hnone]

/-- A pass that nothing stops resolves every reference of the adventure. -/
theorem isResolved_link (h : (a.link r).failure = none) :
    ∀ ref ∈ (a.link r).result.1.references (a.link r).result.2, ref.isResolved = true := by
  have hscenes := settled_link h
  unfold link at h hscenes ⊢
  dsimp only at h hscenes ⊢
  split at h
  · contradiction
  · rename_i hnone
    rw [references, List.forall_mem_cons, List.forall_mem_map]
    refine ⟨isResolved_linkStart hnone, fun ch hch => ?_⟩
    obtain ⟨i, hi, scene, hfound, hch⟩ := Registry.exists_of_mem_choicesOf hch
    rw [scenes_linkStart] at hi
    obtain ⟨hmem, hidentifier⟩ := Registry.mem_of_find? hfound
    simp only [hnone] at hscenes
    exact hscenes i hi scene hmem hidentifier ch hch

end Adventure

/-! ## Stories -/

namespace Story

/-- What linking can make of a story. -/
structure Becomes (known : Identifier → Bool) (s t : Story) : Prop where
  adventures : List.Forall₂ (Adventure.Becomes known) s.adventures t.adventures
  registry : s.registry.Becomes known t.registry

/-- The references of the adventures, adventure by adventure. -/
def references (s : Story) : List (List SceneRef) :=
  s.adventures.map fun a => a.references s.registry

variable {s t u : Story} {a : Adventure} {k : Nat} {ks : List Nat}

/-- A story may stay as it is. -/
theorem Becomes.refl (s : Story) : s.Becomes known s :=
  ⟨List.forall₂_same.2 fun a _ => .refl a, .refl _⟩

/-- What two passes make of a story, one can make of it. -/
theorem Becomes.trans (h : s.Becomes known t) (h' : t.Becomes known u) : s.Becomes known u :=
  ⟨forall₂_trans (R := Adventure.Becomes known) (fun _ _ _ => .trans) h.adventures h'.adventures,
    h.registry.trans h'.registry⟩

/-- The references of a story become references adventure by adventure. -/
theorem Becomes.references (h : s.Becomes known t) :
    List.Forall₂ (List.Forall₂ (SceneRef.Becomes known)) s.references t.references :=
  List.forall₂_map_left_iff.2 (List.forall₂_map_right_iff.2
    (h.adventures.imp fun _ _ ha => ha.references h.registry))

/-- Whether the references of the adventures at some positions have a property. -/
def AllAt (P : SceneRef → Prop) (s : Story) (ks : List Nat) : Prop :=
  ∀ k ∈ ks, ∀ rs, s.references[k]? = some rs → ∀ r ∈ rs, P r

variable {P : SceneRef → Prop}

/-- The references at several positions are those at the first and those at the others. -/
theorem allAt_cons : s.AllAt P (k :: ks) ↔ s.AllAt P [k] ∧ s.AllAt P ks := by
  simp only [AllAt, List.forall_mem_cons, List.not_mem_nil, false_imp_iff, implies_true, and_true]

/-- The references at a position are those of the adventure that stands there. -/
theorem allAt_of_getElem? {a : Adventure} (ha : s.adventures[k]? = some a) :
    s.AllAt P [k] ↔ ∀ r ∈ a.references s.registry, P r := by
  simp [AllAt, references, ha]

/-- A position behind the last adventure has no references. -/
theorem allAt_of_getElem?_eq_none (hk : s.adventures[k]? = none) : s.AllAt P [k] := by
  simp [AllAt, references, hk]

/-- A story is linked just if the references of all adventures are resolved. -/
theorem isLinked_iff : s.isLinked = true ↔ ∀ rs ∈ s.references, ∀ r ∈ rs, r.isResolved = true := by
  simp [isLinked, references, Adventure.isLinked_iff]

/-- Linking one adventure changes a story as linking may. -/
theorem becomes_linkOne (hs : s.registry.identifiers.Nodup) (ha : s.adventures[k]? = some a) :
    s.Becomes s.registry.contains (s.linkOne k a) := by
  obtain ⟨hbecomes, hregistry⟩ := Adventure.becomes_link (a := a) hs
  exact ⟨forall₂_set (fun a => .refl a) ha hbecomes, hregistry⟩

/-- **What a pass makes of a story.** -/
theorem becomes_linkAt (hs : s.registry.identifiers.Nodup) :
    s.Becomes s.registry.contains (s.linkAt ks).result := by
  induction ks generalizing s with
  | nil => exact .refl s
  | cons k ks ih =>
    unfold linkAt
    split
    · exact ih hs
    · rename_i a ha
      have hone := becomes_linkOne hs ha
      have hidentifiers : (s.linkOne k a).registry.identifiers = s.registry.identifiers :=
        Adventure.identifiers_link
      dsimp only
      split
      · exact hone
      · refine hone.trans ?_
        rw [← Registry.contains_congr hidentifiers]
        exact ih (s := s.linkOne k a) (hidentifiers ▸ hs)

/-- Linking changes nothing about whether the references at some positions can be resolved. -/
theorem Becomes.allAt_isLinkable_iff (h : s.Becomes known t) :
    t.AllAt (·.IsLinkable known) ks ↔ s.AllAt (·.IsLinkable known) ks := by
  refine forall₂_congr fun k _ => ?_
  have hrel := rel_getElem?_of_forall₂ h.references k
  generalize s.references[k]? = old at hrel ⊢
  generalize t.references[k]? = new at hrel ⊢
  cases hrel with
  | none => simp
  | some hrs => simpa using SceneRef.forall_isLinkable_iff hrs

/-- What is resolved stays resolved. -/
theorem Becomes.allAt_isResolved (h : s.Becomes known t)
    (hs : s.AllAt (·.isResolved = true) ks) : t.AllAt (·.isResolved = true) ks := by
  intro k hk rs hrs
  have hold := hs k hk
  have hrel := rel_getElem?_of_forall₂ h.references k
  rw [hrs] at hrel
  generalize s.references[k]? = old at hold hrel
  cases hrel with
  | some hrs =>
    have hall := hold _ rfl
    rwa [SceneRef.eq_of_isResolved hrs hall]

/-- In a story that is linked, the references at whatever positions are resolved. -/
theorem allAt_isResolved_of_isLinked (h : s.isLinked = true) :
    s.AllAt (·.isResolved = true) ks :=
  fun _ _ rs hrs => isLinked_iff.1 h rs (List.mem_of_getElem? hrs)

/-- **A pass goes through where every reference that it comes to can be linked.** -/
theorem failure_linkAt_eq_none_iff (hs : s.registry.identifiers.Nodup) :
    (s.linkAt ks).failure = none ↔ s.AllAt (·.IsLinkable s.registry.contains) ks := by
  induction ks generalizing s with
  | nil => exact ⟨fun _ => nofun, fun _ => rfl⟩
  | cons k ks ih =>
    rw [allAt_cons]
    unfold linkAt
    split
    · rename_i hnone
      rw [ih hs, and_iff_right (allAt_of_getElem?_eq_none hnone)]
    · rename_i a ha
      have hidentifiers : (s.linkOne k a).registry.identifiers = s.registry.identifiers :=
        Adventure.identifiers_link
      have hrest : ((s.linkOne k a).linkAt ks).failure = none ↔
          s.AllAt (·.IsLinkable s.registry.contains) ks := by
        rw [ih (hidentifiers ▸ hs), Registry.contains_congr hidentifiers]
        exact (becomes_linkOne hs ha).allAt_isLinkable_iff
      rw [← hrest, allAt_of_getElem? ha, ← Adventure.failure_link_eq_none_iff hs]
      dsimp only
      split
      · rename_i d hd
        simp [hd]
      · rename_i hnone
        rw [and_iff_right hnone]
        rfl

/-- **A pass that nothing stops resolves every reference that it comes to.** -/
theorem isResolved_linkAt (hs : s.registry.identifiers.Nodup)
    (h : (s.linkAt ks).failure = none) : (s.linkAt ks).result.AllAt (·.isResolved = true) ks := by
  induction ks generalizing s with
  | nil => exact nofun
  | cons k ks ih =>
    rw [allAt_cons]
    unfold linkAt at h ⊢
    split at h
    · rename_i hnone
      have hk : s.AllAt (·.isResolved = true) [k] := allAt_of_getElem?_eq_none hnone
      exact ⟨(becomes_linkAt hs).allAt_isResolved hk, ih hs h⟩
    · rename_i a ha
      have hidentifiers : (s.linkOne k a).registry.identifiers = s.registry.identifiers :=
        Adventure.identifiers_link
      have hs' : (s.linkOne k a).registry.identifiers.Nodup := hidentifiers ▸ hs
      dsimp only at h ⊢
      split at h
      · contradiction
      · rename_i hone
        have hk : (s.linkOne k a).AllAt (·.isResolved = true) [k] := by
          have ha' : (s.linkOne k a).adventures[k]? = some (a.link s.registry).result.1 := by
            obtain ⟨hlt, -⟩ := List.getElem?_eq_some_iff.1 ha
            exact List.getElem?_set_self hlt
          exact (allAt_of_getElem? ha').2 (Adventure.isResolved_link hone)
        exact ⟨(becomes_linkAt hs').allAt_isResolved hk, ih hs' h⟩

/-- **A pass over all adventures that nothing stops resolves all references.** -/
theorem isLinked_link (hs : s.registry.identifiers.Nodup) (h : s.link.failure = none) :
    s.link.result.isLinked = true := by
  refine isLinked_iff.2 fun rs hrs r hr => ?_
  obtain ⟨k, hk⟩ := List.mem_iff_getElem?.1 hrs
  refine isResolved_linkAt hs h k (List.mem_range.2 ?_) rs hk r hr
  have hlength : s.adventures.length = s.link.result.adventures.length :=
    (becomes_linkAt hs).adventures.length_eq
  obtain ⟨hlt, -⟩ := List.getElem?_eq_some_iff.1 hk
  rwa [hlength, ← List.length_map (f := fun a : Adventure => a.references s.link.result.registry)]

/-- **A pass that is stopped leaves a reference unresolved.** -/
theorem isLinked_linkAt_eq_false (hs : s.registry.identifiers.Nodup) {d : Diagnostic}
    (h : (s.linkAt ks).failure = some d) : (s.linkAt ks).result.isLinked = false := by
  rw [Bool.eq_false_iff]
  intro hlinked
  have hresolved : (s.linkAt ks).result.AllAt (·.isResolved = true) ks :=
    allAt_isResolved_of_isLinked hlinked
  -- what the pass resolved could be linked before, so that nothing would have stopped it
  have hlinkable : (s.linkAt ks).result.AllAt (·.IsLinkable s.registry.contains) ks :=
    fun k hk rs hrs r hr => .inl (hresolved k hk rs hrs r hr)
  have hnone := (failure_linkAt_eq_none_iff hs).2
    ((becomes_linkAt hs).allAt_isLinkable_iff.1 hlinkable)
  exact absurd (h.symm.trans hnone) (by simp)

end Story
end Gamebook
