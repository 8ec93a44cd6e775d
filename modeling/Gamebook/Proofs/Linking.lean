/-
# Linking

Linking moves nothing: the adventures keep their names and scenes
(`Story.outline`), and the registry keeps its scenes, in order.  It only resolves
references, and a choice that is resolved stays so.  A pass over the adventures
that nothing stops resolves the choices of all their scenes
(`Story.settled_link`).
-/

import Gamebook.Story.Link

namespace Gamebook

/-- Whether a choice leads to a scene that was found. -/
def Choice.IsLinked (ch : Choice) : Prop := ch.target.isResolved = true

namespace Choice

variable {known : Identifier → Bool} {c : Context} {choices : List Choice}

/-- A pass that nothing stops links every choice. -/
theorem isLinked_of_mem_link (h : (link known c choices).failure = none) :
    ∀ ch ∈ (link known c choices).result, ch.IsLinked := by
  induction choices with
  | nil => exact nofun
  | cons ch choices ih =>
    cases htarget : ch.target with
    | resolved i =>
      simp only [link, htarget] at h ⊢
      rintro other (_ | ⟨_, hother⟩)
      · rw [IsLinked, htarget]
        rfl
      · exact ih h other hother
    | unresolved i =>
      cases hknown : known i with
      | false => exact absurd h (by simp [link, htarget, hknown])
      | true =>
        simp only [link, htarget, hknown, if_true] at h ⊢
        rintro other (_ | ⟨_, hother⟩)
        · rfl
        · exact ih h other hother

/-- Linked choices are left alone. -/
theorem result_link_of_isLinked (h : ∀ ch ∈ choices, ch.IsLinked) :
    (link known c choices).result = choices := by
  induction choices with
  | nil => rfl
  | cons ch choices ih =>
    have hrest := ih fun other hother => h other (List.mem_cons_of_mem _ hother)
    cases htarget : ch.target with
    | resolved i => simp only [link, htarget, hrest]
    | unresolved i =>
      have hlinked := h ch (List.mem_cons_self ..)
      rw [IsLinked, htarget] at hlinked
      contradiction

end Choice

namespace Registry

/-- Whether every choice of the scene with an identifier is linked. -/
def Settled (r : Registry) (i : Identifier) : Prop :=
  ∀ scene ∈ r.scenes, scene.identifier = i → ∀ ch ∈ scene.choices, ch.IsLinked

variable {r : Registry} {i j : Identifier} {choices : List Choice} {c : Context}
  {is : List Identifier}

/-- A scene gets the choices that are set for it, and keeps its own otherwise. -/
theorem exists_of_mem_setChoices {scene : Scene} (h : scene ∈ (r.setChoices i choices).scenes) :
    ∃ old ∈ r.scenes, scene.identifier = old.identifier ∧
      scene.choices = if old.identifier = i then choices else old.choices := by
  obtain ⟨old, hold, rfl⟩ := List.mem_map.1 h
  refine ⟨old, hold, ?_⟩
  by_cases hi : old.identifier = i
  · simp [hi]
  · simp [hi]

/-- Choices that are all linked settle the scene that they are set for. -/
theorem settled_setChoices (h : ∀ ch ∈ choices, ch.IsLinked) :
    (r.setChoices i choices).Settled i := by
  intro scene hscene hi
  obtain ⟨old, -, hidentifier, hchoices⟩ := exists_of_mem_setChoices hscene
  rw [hchoices, if_pos (hidentifier.symm.trans hi)]
  exact h

/-- Setting choices keeps a scene settled, if those that are set for it are linked. -/
theorem Settled.setChoices (h : r.Settled j) (hi : i = j → ∀ ch ∈ choices, ch.IsLinked) :
    (r.setChoices i choices).Settled j := by
  by_cases hij : i = j
  · exact hij ▸ settled_setChoices (hi hij)
  · intro scene hscene hj
    obtain ⟨old, hold, hidentifier, hchoices⟩ := exists_of_mem_setChoices hscene
    have hold' : old.identifier = j := hidentifier.symm.trans hj
    rw [hchoices, if_neg fun hi => hij (hi.symm.trans hold')]
    exact h old hold hold'

/-- Linking keeps the scenes in their places. -/
@[simp] theorem identifiers_link : (link c is r).result.identifiers = r.identifiers := by
  induction is generalizing r with
  | nil => rfl
  | cons i is ih =>
    unfold link
    split
    · exact ih
    · dsimp only
      split
      · exact identifiers_setChoices ..
      · exact ih.trans (identifiers_setChoices ..)

/-- Linking the choices of one scene unsettles none. -/
theorem Settled.linkScene {scene : Scene} {known : Identifier → Bool} (h : r.Settled j)
    (hscene : r.find? i = some scene) :
    (r.setChoices i (Choice.link known c scene.choices).result).Settled j := by
  refine h.setChoices fun hij => ?_
  have hidentifier : scene.identifier = i := by simpa using List.find?_some hscene
  have hlinked := h scene (List.mem_of_find?_eq_some hscene) (hidentifier.trans hij)
  rw [Choice.result_link_of_isLinked hlinked]
  exact hlinked

/-- A settled scene stays settled. -/
theorem Settled.link (h : r.Settled j) : (Registry.link c is r).result.Settled j := by
  induction is generalizing r with
  | nil => exact h
  | cons i is ih =>
    unfold Registry.link
    split
    · exact ih h
    · rename_i scene hscene
      dsimp only
      split
      · exact h.linkScene hscene
      · exact ih (h.linkScene hscene)

/-- A pass that nothing stops settles every scene that it comes to. -/
theorem settled_link (h : (link c is r).failure = none) :
    ∀ i ∈ is, (link c is r).result.Settled i := by
  induction is generalizing r with
  | nil => exact nofun
  | cons i is ih =>
    unfold link at h ⊢
    split at h
    · rename_i hnone
      rintro j (_ | ⟨_, hj⟩)
      · have habsent : r.Settled i := by
          intro scene hscene hi
          exact absurd hi (by simpa using List.find?_eq_none.1 hnone scene hscene)
        exact habsent.link
      · exact ih h j hj
    · rename_i scene hscene
      dsimp only at h ⊢
      split at h
      · exact absurd h (by simp)
      · rename_i hfailure
        rintro j (_ | ⟨_, hj⟩)
        · exact (settled_setChoices (Choice.isLinked_of_mem_link hfailure)).link
        · exact ih h j hj

end Registry

namespace Adventure

variable {a : Adventure} {r : Registry} {i : Identifier}

/-- Linking an adventure changes nothing of it but its starting reference. -/
theorem exists_start_link : ∃ start, (a.link r).result.1 = { a with start } := by
  have hstart : ∃ start, (a.linkStart r).result = { a with start } := by
    unfold linkStart
    split
    · exact ⟨a.start, rfl⟩
    · split
      · exact ⟨_, rfl⟩
      · exact ⟨a.start, rfl⟩
  unfold link
  dsimp only
  split <;> exact hstart

/-- Linking an adventure registers and drops no scene. -/
@[simp] theorem identifiers_link : (a.link r).result.2.identifiers = r.identifiers := by
  unfold link
  dsimp only
  split
  · rfl
  · exact Registry.identifiers_link

/-- A scene that is settled stays settled while an adventure is linked. -/
theorem settled_link_of_settled (h : r.Settled i) : (a.link r).result.2.Settled i := by
  unfold link
  dsimp only
  split
  · exact h
  · exact h.link

/-- A pass that nothing stops settles the scenes of the adventure. -/
theorem settled_link (h : (a.link r).failure = none) :
    ∀ i ∈ a.scenes, (a.link r).result.2.Settled i := by
  unfold link at h ⊢
  dsimp only at h ⊢
  split at h
  · exact absurd h (by simp)
  · exact Registry.settled_link h

end Adventure

namespace Story

/-- The names of the adventures with their scenes. -/
def outline (s : Story) : List (String × List Identifier) :=
  s.adventures.map fun a => (a.name, a.scenes)

variable {s : Story} {a : Adventure} {k : Nat} {ks : List Nat} {i : Identifier}

/-- The story with the adventure at a position linked. -/
def linkOne (s : Story) (k : Nat) (a : Adventure) : Story :=
  ⟨s.adventures.set k (a.link s.registry).result.1, (a.link s.registry).result.2⟩

section

variable {β : Type} {f : Adventure → β} (hf : ∀ a start, f { a with start } = f a)

include hf

/-- What does not depend on starting scenes is the same for all adventures after one is linked. -/
theorem map_linkOne (h : s.adventures[k]? = some a) :
    (s.linkOne k a).adventures.map f = s.adventures.map f := by
  obtain ⟨start, hstart⟩ : ∃ start, (a.link s.registry).result.1 = { a with start } :=
    Adventure.exists_start_link
  refine List.ext_getElem? fun n => ?_
  simp only [linkOne, hstart, List.map_set, hf, List.getElem?_set, List.getElem?_map,
    List.length_map]
  split
  · rename_i hn
    subst hn
    split
    · rw [h]
      rfl
    · rename_i hlen
      rw [List.getElem?_eq_none (Nat.not_lt.1 hlen)]
      rfl
  · rfl

/-- What does not depend on the starting references stays as it is. -/
theorem map_linkAt : (s.linkAt ks).result.adventures.map f = s.adventures.map f := by
  induction ks generalizing s with
  | nil => rfl
  | cons k ks ih =>
    unfold linkAt
    split
    · exact ih
    · rename_i a ha
      dsimp only
      split
      · exact map_linkOne hf ha
      · exact (ih (s := s.linkOne k a)).trans (map_linkOne hf ha)

end

/-- Linking one adventure leaves the names of adventures and their scenes as they are. -/
theorem outline_linkOne (h : s.adventures[k]? = some a) : (s.linkOne k a).outline = s.outline :=
  map_linkOne (fun _ _ => rfl) h

/-- Linking leaves the names of adventures and their scenes as they are. -/
theorem outline_linkAt : (s.linkAt ks).result.outline = s.outline := map_linkAt fun _ _ => rfl

/-- Linking registers and drops no scene. -/
theorem identifiers_linkAt :
    (s.linkAt ks).result.registry.identifiers = s.registry.identifiers := by
  induction ks generalizing s with
  | nil => rfl
  | cons k ks ih =>
    unfold linkAt
    split
    · exact ih
    · rename_i a ha
      dsimp only
      split
      · exact Adventure.identifiers_link
      · exact (ih (s := s.linkOne k a)).trans Adventure.identifiers_link

/-- A scene that is settled stays settled in a pass, wherever it stops. -/
theorem settled_linkAt_of_settled (h : s.registry.Settled i) :
    (s.linkAt ks).result.registry.Settled i := by
  induction ks generalizing s with
  | nil => exact h
  | cons k ks ih =>
    have hone (a : Adventure) : (s.linkOne k a).registry.Settled i :=
      Adventure.settled_link_of_settled h
    unfold linkAt
    split
    · exact ih h
    · rename_i a ha
      dsimp only
      split
      · exact hone a
      · exact ih (hone a)

/-- A pass that nothing stops settles all scenes of the adventures that it comes to. -/
theorem settled_linkAt (h : (s.linkAt ks).failure = none) (hk : k ∈ ks)
    {name : String} {scenes : List Identifier} (hat : s.outline[k]? = some (name, scenes)) :
    ∀ i ∈ scenes, (s.linkAt ks).result.registry.Settled i := by
  induction ks generalizing s with
  | nil => exact absurd hk List.not_mem_nil
  | cons k' ks ih =>
    unfold linkAt at h ⊢
    split at h
    · rename_i hnone
      rcases List.mem_cons.1 hk with rfl | hk
      · exact absurd hat (by simp [outline, hnone])
      · exact ih h hk hat
    · rename_i a ha
      dsimp only at h ⊢
      split at h
      · exact absurd h (by simp)
      · rename_i hfailure
        rcases List.mem_cons.1 hk with rfl | hk
        · obtain ⟨-, rfl⟩ : a.name = name ∧ a.scenes = scenes := by
            simpa [outline, ha] using hat
          intro i hi
          have hone : (s.linkOne k a).registry.Settled i := Adventure.settled_link hfailure i hi
          exact settled_linkAt_of_settled hone
        · rw [← outline_linkOne ha] at hat
          exact ih h hk hat

/-- **Linking keeps the adventures and the scenes in their places.** -/
theorem outline_link (s : Story) : s.link.result.outline = s.outline := outline_linkAt

/-- Linking a whole story registers and drops no scene. -/
theorem identifiers_link (s : Story) :
    s.link.result.registry.identifiers = s.registry.identifiers := identifiers_linkAt

/-- **A pass that nothing stops links the choices of every adventure's scenes.** -/
theorem settled_link (s : Story) (h : s.link.failure = none) {a : Adventure}
    (ha : a ∈ s.adventures) : ∀ i ∈ a.scenes, s.link.result.registry.Settled i := by
  obtain ⟨k, hk, rfl⟩ := List.getElem_of_mem ha
  have hat : s.outline[k]? = some (s.adventures[k].name, s.adventures[k].scenes) := by
    simp [outline, hk]
  exact settled_linkAt h (List.mem_range.2 hk) hat

end Story
end Gamebook
