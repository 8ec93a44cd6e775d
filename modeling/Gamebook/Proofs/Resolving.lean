/-
# The first missing reference

A story keeps its scenes in the registry, and linking changes them there.  For adventures at
different positions whose scenes are their own (`Story.Apart`), as in every story that holds
together (`Story.Coherent.apart`), this is linking the adventures with the scenes that they
hold (`Story.volumes_linkAt`), and it leaves all others alone.

So what is known of a pass over references is known of linking: it stops at the first that is
missing, in the order of the document, and names the place of it; the references before are
resolved, and those behind are left alone (`Story.linkAt_exact`).
-/

import Gamebook.Proofs.Interleaving
import Gamebook.Proofs.Passes

namespace Gamebook

namespace Registry

variable {r : Registry} {i j : Identifier} {is : List Identifier} {c : Context}
  {choices : List Choice}

/-- The scenes with some identifiers, as far as they are registered. -/
def scenesOf (r : Registry) (is : List Identifier) : List Scene := is.filterMap r.find?

/-- Scenes that are found alike in two registries are the same ones. -/
theorem scenesOf_congr {r' : Registry} (h : ∀ i ∈ is, r'.find? i = r.find? i) :
    r'.scenesOf is = r.scenesOf is :=
  List.filterMap_congr h

/-- Setting choices changes the scene that they are set for and leaves every scene where it was. -/
theorem find?_setChoices : (r.setChoices i choices).find? j =
    (r.find? j).map fun scene => if scene.identifier = i then { scene with choices } else scene := by
  rw [find?, setChoices, List.find?_map, find?]
  congr 2
  funext scene
  simp only [Function.comp_apply]
  split <;> rfl

/-- Setting choices leaves all other scenes as they are. -/
theorem find?_setChoices_of_ne (h : j ≠ i) : (r.setChoices i choices).find? j = r.find? j := by
  rw [find?_setChoices]
  cases hfind : r.find? j with
  | none => rfl
  | some scene =>
    rw [Option.map_some, if_neg fun hi => h ((mem_of_find? hfind).2.symm.trans hi)]

/-- The scene that choices are set for has these choices. -/
theorem find?_setChoices_self {scene : Scene} (h : r.find? i = some scene) :
    (r.setChoices i choices).find? i = some { scene with choices } := by
  rw [find?_setChoices, h, Option.map_some, if_pos (mem_of_find? h).2]

/-- **Linking scenes in the registry is linking them one by one**, and no other scene is
touched. -/
theorem map_link (his : is.Nodup) (c : Context) (r : Registry) :
    (link c is r).map (·.scenesOf is) = Pass.each (Scene.link r.contains c) (r.scenesOf is) ∧
      ∀ j ∉ is, (link c is r).result.find? j = r.find? j := by
  induction is generalizing r with
  | nil => exact ⟨rfl, fun _ _ => rfl⟩
  | cons i is ih =>
    obtain ⟨hi, his⟩ := List.nodup_cons.1 his
    unfold link
    split
    · rename_i hnone
      obtain ⟨hpass, hframe⟩ := ih his r
      have hscenes (r' : Registry) (h : r'.find? i = none) :
          r'.scenesOf (i :: is) = r'.scenesOf is := List.filterMap_cons_none h
      rw [hscenes r hnone, ← hpass]
      refine ⟨?_, fun j hj => hframe j fun hmem => hj (List.mem_cons_of_mem _ hmem)⟩
      simp only [Pass.map, hscenes _ ((hframe i hi).trans hnone)]
    · rename_i scene hscene
      obtain ⟨-, hidentifier⟩ := mem_of_find? hscene
      have hsceneLink : Scene.link r.contains c scene =
          (Choice.link r.contains { c with scene := i.name } scene.choices).map fun choices =>
            { scene with choices } := by rw [Scene.link, hidentifier]
      dsimp only
      generalize Choice.link r.contains { c with scene := i.name } scene.choices = p
        at hsceneLink ⊢
      have hframe : ∀ j, j ≠ i → (r.setChoices i p.result).find? j = r.find? j :=
        fun j hj => find?_setChoices_of_ne hj
      have hself : (r.setChoices i p.result).find? i = some { scene with choices := p.result } :=
        find?_setChoices_self hscene
      have hknown := contains_congr (identifiers_setChoices r i p.result)
      have hbehind : (r.setChoices i p.result).scenesOf is = r.scenesOf is :=
        scenesOf_congr fun j hj => hframe j fun he => hi (he ▸ hj)
      have hcons (r' : Registry) {found : Scene} (h : r'.find? i = some found) :
          r'.scenesOf (i :: is) = found :: r'.scenesOf is := List.filterMap_cons_some h
      rw [hcons r hscene, Pass.each, hsceneLink]
      cases hfailure : p.failure with
      | some d =>
        simp only [Pass.map, Pass.andThen, hfailure, hcons _ hself, hbehind, true_and]
        exact fun j hj => hframe j fun he => hj (he ▸ List.mem_cons_self ..)
      | none =>
        obtain ⟨hpass, hrest⟩ := ih his (r.setChoices i p.result)
        rw [hknown, hbehind] at hpass
        simp only [← hpass, Pass.map, Pass.andThen, hfailure, hcons _ ((hrest i hi).trans hself),
          true_and]
        intro j hj
        rw [List.mem_cons, not_or] at hj
        exact (hrest j hj.2).trans (hframe j hj.1)

/-- Setting the choices that a scene has changes nothing. -/
theorem setChoices_self (hr : r.identifiers.Nodup) {scene : Scene} (h : r.find? i = some scene) :
    r.setChoices i scene.choices = r := by
  have hscenes : r.scenes.map (fun s => if s.identifier = i then { s with choices := scene.choices }
      else s) = r.scenes := by
    refine map_eq_self fun other hother => ?_
    split
    · rename_i hi
      rw [eq_of_find? hr h hother hi]
    · rfl
  rw [setChoices, hscenes]

/-- Linking scenes whose choices are linked does nothing. -/
theorem link_of_isLinked (hr : r.identifiers.Nodup)
    (h : ∀ scene ∈ r.scenesOf is, ∀ ch ∈ scene.choices, ch.IsLinked) :
    link c is r = Pass.idle r := by
  induction is with
  | nil => rfl
  | cons i is ih =>
    unfold link
    split
    · rename_i hnone
      exact ih fun scene hscene => h scene (by rwa [scenesOf, List.filterMap_cons_none hnone])
    · rename_i scene hscene
      rw [scenesOf, List.filterMap_cons_some hscene, List.forall_mem_cons] at h
      simp only [Choice.link_of_isLinked h.1, Pass.idle, setChoices_self hr hscene]
      rw [ih h.2]
      rfl

end Registry

namespace Adventure

variable {a : Adventure} {r r' : Registry}

/-- A starting scene is linked alike where the same scenes are registered. -/
theorem linkStart_congr (h : r'.contains = r.contains) : a.linkStart r' = a.linkStart r := by
  simp only [linkStart, h]

/-- **Linking an adventure in the registry is linking it with its scenes.** -/
theorem map_link (ha : a.scenes.Nodup) :
    (a.link r).map (fun (b, r') => (b, r'.scenesOf a.scenes)) =
        Volume.link r (a, r.scenesOf a.scenes) ∧
      ∀ j ∉ a.scenes, (a.link r).result.2.find? j = r.find? j := by
  obtain ⟨hpass, hframe⟩ := Registry.map_link ha { adventure := a.name } r
  unfold link Volume.link
  dsimp only
  rw [← hpass, Pass.andThen]
  cases (a.linkStart r).failure with
  | some d => exact ⟨rfl, fun _ _ => rfl⟩
  | none => exact ⟨rfl, hframe⟩

end Adventure

/-- Adventures are linked alike where the same scenes are registered. -/
theorem Volume.linkAll_congr {r r' : Registry} (h : r'.contains = r.contains) :
    linkAll r' = linkAll r := by
  have hlink : link r' = link r := by
    funext v
    rw [link, link, Adventure.linkStart_congr h, h]
  rw [linkAll, linkAll, hlink]

namespace Story

variable {s : Story} {k : Nat} {ks : List Nat} {a : Adventure}

/-- The adventures at some positions with the scenes that they hold. -/
def volumes (s : Story) (ks : List Nat) : List Volume :=
  ks.filterMap fun k => s.adventures[k]?.map fun a => (a, s.registry.scenesOf a.scenes)

/-- The adventure at the first position comes first, with its scenes. -/
theorem volumes_cons_of_some (h : s.adventures[k]? = some a) (ks : List Nat) :
    s.volumes (k :: ks) = (a, s.registry.scenesOf a.scenes) :: s.volumes ks := by
  rw [volumes, List.filterMap_cons_some (by rw [h]; rfl)]
  rfl

/-- A position without an adventure adds nothing. -/
theorem volumes_cons_of_none (h : s.adventures[k]? = none) (ks : List Nat) :
    s.volumes (k :: ks) = s.volumes ks := by
  rw [volumes, List.filterMap_cons_none (by rw [h]; rfl)]
  rfl

/-- The adventures at some positions are different ones, and each has its scenes for itself. -/
structure Apart (s : Story) (ks : List Nat) : Prop where
  positions : ks.Nodup
  registered : s.registry.identifiers.Nodup
  scenes : ((ks.filterMap (s.adventures[·]?)).flatMap (·.scenes)).Nodup

/-- Linking an adventure leaves those at other positions alone, whose scenes are others. -/
theorem linkOne_frame (ha : s.adventures[k]? = some a) (hk : k ∉ ks)
    (hdisjoint : ∀ i ∈ a.scenes, ∀ j ∈ (ks.filterMap (s.adventures[·]?)).flatMap (·.scenes), i ≠ j)
    (hone : ∀ j ∉ a.scenes, (s.linkOne k a).registry.find? j = s.registry.find? j) :
    (s.linkOne k a).adventures[k]? = some (a.link s.registry).result.1 ∧
      (∀ k' ≠ k, (s.linkOne k a).adventures[k']? = s.adventures[k']?) ∧
      (s.linkOne k a).volumes ks = s.volumes ks := by
  obtain ⟨hlt, -⟩ := List.getElem?_eq_some_iff.1 ha
  have hother : ∀ k' ≠ k, (s.linkOne k a).adventures[k']? = s.adventures[k']? :=
    fun k' hne => List.getElem?_set_ne (Ne.symm hne)
  refine ⟨List.getElem?_set_self hlt, hother, List.filterMap_congr fun k' hk' => ?_⟩
  rw [hother k' fun he => hk (he ▸ hk')]
  cases hb : s.adventures[k']? with
  | none => rfl
  | some b =>
    have hmem : b ∈ ks.filterMap (s.adventures[·]?) := List.mem_filterMap.2 ⟨k', hk', hb⟩
    have hscenes : (s.linkOne k a).registry.scenesOf b.scenes = s.registry.scenesOf b.scenes :=
      Registry.scenesOf_congr fun i hi =>
        hone i fun hown => hdisjoint i hown i (List.mem_flatMap.2 ⟨b, hmem, hi⟩) rfl
    rw [Option.map_some, Option.map_some, hscenes]

/-- **Linking adventures in a story is linking them with their scenes**, and no others are
touched. -/
theorem volumes_linkAt (h : s.Apart ks) :
    (s.linkAt ks).map (·.volumes ks) = Volume.linkAll s.registry (s.volumes ks) ∧
      (∀ k ∉ ks, (s.linkAt ks).result.adventures[k]? = s.adventures[k]?) ∧
      ∀ j ∉ (ks.filterMap (s.adventures[·]?)).flatMap (·.scenes),
        (s.linkAt ks).result.registry.find? j = s.registry.find? j := by
  induction ks generalizing s with
  | nil => exact ⟨rfl, fun _ _ => rfl, fun _ _ => rfl⟩
  | cons k ks ih =>
    obtain ⟨hpositions, hregistered, hscenes⟩ := h
    obtain ⟨hk, hks⟩ := List.nodup_cons.1 hpositions
    unfold linkAt
    split
    · rename_i hnone
      rw [List.filterMap_cons_none hnone] at hscenes ⊢
      obtain ⟨hpass, hadventures, hframe⟩ := ih ⟨hks, hregistered, hscenes⟩
      rw [volumes_cons_of_none hnone, ← hpass]
      refine ⟨?_, fun k' hk' => hadventures k' fun hmem => hk' (.tail _ hmem), hframe⟩
      simp only [Pass.map, volumes_cons_of_none ((hadventures k hk).trans hnone)]
    · rename_i a ha
      rw [List.filterMap_cons_some ha, List.flatMap_cons] at hscenes ⊢
      obtain ⟨hown, hothers, hdisjoint⟩ := List.nodup_append.1 hscenes
      obtain ⟨hlink, hone⟩ := Adventure.map_link (r := s.registry) hown
      obtain ⟨start, hstart⟩ : ∃ start, (a.link s.registry).result.1 = { a with start } :=
        Adventure.exists_start_link
      obtain ⟨hat, hother, hbehind⟩ := linkOne_frame ha hk hdisjoint hone
      have hscenesOf : (a.link s.registry).result.1.scenes = a.scenes := by rw [hstart]
      have hadventures : ks.filterMap ((s.linkOne k a).adventures[·]?) =
          ks.filterMap (s.adventures[·]?) :=
        List.filterMap_congr fun k' hk' => hother k' fun he => hk (he ▸ hk')
      have hidentifiers : (s.linkOne k a).registry.identifiers = s.registry.identifiers :=
        Adventure.identifiers_link
      rw [volumes_cons_of_some ha, Volume.linkAll, Pass.each, ← hlink, ← Volume.linkAll]
      dsimp only
      cases hfailure : (a.link s.registry).failure with
      | some d =>
        refine ⟨?_, fun k' hk' => hother k' fun he => hk' (he ▸ List.mem_cons_self ..),
          fun j hj => hone j fun hmem => hj (List.mem_append_left _ hmem)⟩
        have hresult := volumes_cons_of_some hat ks
        rw [hbehind, hscenesOf] at hresult
        simp only [Pass.map, Pass.andThen, hfailure]
        exact congrArg (Pass.mk · _ (some d)) hresult
      | none =>
        have hapart : (s.linkOne k a).Apart ks := by
          refine ⟨hks, ?_, ?_⟩
          · rwa [hidentifiers]
          · rwa [hadventures]
        obtain ⟨hpass, hframe, hscenesFrame⟩ := ih hapart
        rw [hadventures] at hscenesFrame
        rw [Volume.linkAll_congr (Registry.contains_congr hidentifiers), hbehind] at hpass
        refine ⟨?_, fun k' hk' => ?_, fun j hj => ?_⟩
        · have hresult := volumes_cons_of_some ((hframe k hk).trans hat) ks
          have hheld : ((s.linkOne k a).linkAt ks).result.registry.scenesOf a.scenes =
              (s.linkOne k a).registry.scenesOf a.scenes :=
            Registry.scenesOf_congr fun i hi =>
              hscenesFrame i fun hmem => hdisjoint i hi i hmem rfl
          rw [hscenesOf, hheld] at hresult
          rw [← hpass]
          simp only [Pass.map, Pass.andThen, hfailure]
          exact congrArg (Pass.mk · _ _) hresult
        · obtain ⟨hne, hmem⟩ : k' ≠ k ∧ k' ∉ ks := by simpa using hk'
          exact (hframe k' hmem).trans (hother k' hne)
        · rw [List.mem_append, not_or] at hj
          exact (hscenesFrame j hj.2).trans (hone j hj.1)

/-- Linking adventures all of whose references are resolved does nothing. -/
theorem linkAt_of_isResolved (hr : s.registry.identifiers.Nodup)
    (h : ∀ x ∈ (s.volumes ks).flatMap Volume.sites, x.ref.isResolved = true) :
    s.linkAt ks = Pass.idle s := by
  induction ks with
  | nil => rfl
  | cons k ks ih =>
    unfold linkAt
    split
    · rename_i hnone
      exact ih (by rwa [volumes_cons_of_none hnone] at h)
    · rename_i a ha
      rw [volumes_cons_of_some ha, List.flatMap_cons, List.forall_mem_append] at h
      obtain ⟨hvolume, hrest⟩ := h
      obtain ⟨hstart, hchoices⟩ := List.forall_mem_cons.1 hvolume
      have hscenes : ∀ scene ∈ s.registry.scenesOf a.scenes, ∀ ch ∈ scene.choices, ch.IsLinked :=
        fun scene hscene ch hch =>
          List.forall_mem_flatMap.1 hchoices scene hscene _ (List.mem_map_of_mem hch)
      have hlink : a.link s.registry = Pass.idle (a, s.registry) := by
        rw [Adventure.link, Adventure.linkStart_of_isResolved hstart,
          Registry.link_of_isLinked hr hscenes]
        rfl
      have hset : s.adventures.set k a = s.adventures := by
        obtain ⟨hlt, rfl⟩ := List.getElem?_eq_some_iff.1 ha
        exact List.set_getElem_self hlt
      simp only [hlink, Pass.idle, hset]
      rw [ih hrest]
      rfl

/-- In a story that holds together, different adventures have their scenes for themselves. -/
theorem Coherent.apart (h : s.Coherent) (hks : ks.Nodup) : s.Apart ks := by
  refine ⟨hks, h.nodup, ?_⟩
  have hall : (s.adventures.flatMap (·.scenes)).Nodup := by
    have hnodup := h.nodup
    rwa [h.exact, outline, List.flatMap_map] at hnodup
  obtain ⟨hown, hpairs⟩ := List.nodup_flatMap.1 hall
  refine List.nodup_flatMap.2 ⟨fun a ha => ?_, List.pairwise_filterMap.2 ?_⟩
  · obtain ⟨k, -, hk⟩ := List.mem_filterMap.1 ha
    exact hown a (List.mem_of_getElem? hk)
  · refine hks.imp fun {k k'} hne a ha b hb => ?_
    obtain ⟨hlt, rfl⟩ := List.getElem?_eq_some_iff.1 ha
    obtain ⟨hlt', rfl⟩ := List.getElem?_eq_some_iff.1 hb
    rcases Nat.lt_or_gt_of_ne hne with hkk | hkk
    · exact List.pairwise_iff_getElem.1 hpairs k k' hlt hlt' hkk
    · have hdisjoint := List.pairwise_iff_getElem.1 hpairs k' k hlt' hlt hkk
      exact fun i hi hi' => hdisjoint hi' hi

/-- **Linking stops at the first missing reference, and nowhere else.**  For adventures with
their scenes and any registry, with the references in the order of the document: what stops a
pass is the first reference that is unresolved and names no registered scene, with its place.
Those before it are resolved, and it and those behind it are left alone; nothing else is
changed.  So a pass goes through if every unresolved reference names a registered scene, and
then it counts the references that were unresolved, all of which are resolved, and another
pass has nothing to do.  This is what linking makes of the adventures of a story. -/
theorem linkAt_exact (r : Registry) (vs : List Volume) :
    let refs := vs.flatMap Volume.sites
    let pass := Volume.linkAll r vs
    pass.failure = (refs.find? (Site.isMissing r.contains)).map Site.diagnostic ∧
    pass.result.flatMap Volume.sites =
      (refs.takeWhile (!Site.isMissing r.contains ·)).map Site.resolve ++
        refs.dropWhile (!Site.isMissing r.contains ·) ∧
    (∀ x ∈ refs, x.ref.isResolved = true → x.resolve = x) ∧
    pass.result.map Volume.unlinked = vs.map Volume.unlinked ∧
    (pass.failure = none ↔ ∀ x ∈ refs, x.ref.isResolved = false →
      ∃ scene, r.find? x.ref.identifier = some scene) ∧
    (pass.failure = none →
      pass.resolved = refs.countP (!·.ref.isResolved) ∧
      pass.result.flatMap Volume.sites = refs.map Site.resolve ∧
      Volume.linkAll r pass.result = Pass.idle pass.result) ∧
    ∀ (s : Story) (ks : List Nat), s.Apart ks → s.registry = r → s.volumes ks = vs →
      (s.linkAt ks).map (·.volumes ks) = pass ∧
      (pass.failure = none → (s.linkAt ks).result.linkAt ks = Pass.idle (s.linkAt ks).result) := by
  intro refs pass
  have hpass : pass.map (·.flatMap Volume.sites) = Pass.each (Site.link r.contains) refs :=
    Volume.map_linkAll vs
  rw [Site.each_link_eq] at hpass
  have hfailure : pass.failure = (refs.find? (Site.isMissing r.contains)).map Site.diagnostic :=
    congrArg Pass.failure hpass
  have hresult : pass.result.flatMap Volume.sites =
      (refs.takeWhile (!Site.isMissing r.contains ·)).map Site.resolve ++
        refs.dropWhile (!Site.isMissing r.contains ·) := congrArg Pass.result hpass
  have hcount : pass.resolved = (refs.takeWhile (!Site.isMissing r.contains ·)).countP
      (!·.ref.isResolved) := congrArg Pass.resolved hpass
  have hnone : pass.failure = none ↔ ∀ x ∈ refs, x.isMissing r.contains = false := by
    rw [hfailure, Option.map_eq_none_iff, List.find?_eq_none]
    simp
  have hsuccess (h : pass.failure = none) :
      pass.resolved = refs.countP (!·.ref.isResolved) ∧
        pass.result.flatMap Volume.sites = refs.map Site.resolve := by
    have hall : ∀ x ∈ refs, (!x.isMissing r.contains) = true := by simpa using hnone.1 h
    rw [hcount, hresult, List.takeWhile_eq_self_iff.2 hall, List.dropWhile_eq_nil_iff.2 hall,
      List.append_nil]
    exact ⟨rfl, rfl⟩
  have hresolved (h : pass.failure = none) :
      ∀ x ∈ pass.result.flatMap Volume.sites, x.ref.isResolved = true := by
    rw [(hsuccess h).2, List.forall_mem_map]
    exact fun x _ => rfl
  refine ⟨hfailure, hresult, fun x _ => x.resolve_eq_self, Volume.unlinked_linkAll vs, ?_,
    fun h => ?_, ?_⟩
  · rw [hnone]
    refine forall₂_congr fun x _ => ?_
    rw [← Option.isSome_iff_exists, Registry.isSome_find?]
    simp [Site.isMissing]
  · exact ⟨(hsuccess h).1, (hsuccess h).2, Volume.linkAll_of_isResolved (hresolved h)⟩
  · rintro s ks hapart rfl hvolumes
    obtain ⟨hlink, -⟩ := volumes_linkAt hapart
    rw [hvolumes] at hlink
    refine ⟨hlink, fun h => linkAt_of_isResolved ?_ ?_⟩
    · rw [identifiers_linkAt]
      exact hapart.registered
    · have hheld : (s.linkAt ks).result.volumes ks = pass.result := congrArg Pass.result hlink
      rw [hheld]
      exact hresolved h

/-- An adventure whose scene has a choice that is resolved already, one that can be, and one
without a label that leads nowhere. -/
theorem linkAt_exact_unlabelled :
    let start : Identifier := ⟨"a", "start", by decide, by decide⟩
    let nowhere : Identifier := ⟨"a", "nowhere", by decide, by decide⟩
    let choice (label : String) (target : SceneRef) : Choice :=
      { label := ⟨label, []⟩, target, condition := none, alwaysVisible := false, actions := [] }
    let scene : Scene :=
      { identifier := start, title := ⟨"S", []⟩, content := [], actions := [],
        choices := [choice "Stay" (.resolved start), choice "Return" (.unresolved start),
          choice "" (.unresolved nowhere)],
        header := none, footer := none }
    let a : Adventure :=
      { name := "a", title := ⟨"T", []⟩, version := 1, start := .unresolved start, author := none,
        requires := [], actions := [], header := none, footer := none, scenes := [start] }
    let s : Story := ⟨[a], ⟨[scene]⟩⟩
    s.Apart [0] ∧
    (s.linkAt [0]).failure = some ⟨.option, .unknownScene "a:nowhere",
      { adventure := "a", scene := "start", option := "(unlabelled)",
        identifier := .string "a:nowhere" }⟩ ∧
    (((s.linkAt [0]).result.volumes [0]).flatMap Volume.sites).map (·.ref) =
      [.resolved start, .resolved start, .resolved start, .unresolved nowhere] := by
  intro start nowhere choice scene a s
  have hapart : s.Apart [0] := ⟨by decide, by decide, by decide⟩
  obtain ⟨hfailure, hresult, -, -, -, -, hstory⟩ := linkAt_exact s.registry (s.volumes [0])
  obtain ⟨hlink, -⟩ := hstory s [0] hapart rfl rfl
  refine ⟨hapart, ?_, ?_⟩
  · exact (congrArg Pass.failure hlink).trans hfailure
  · have hheld := congrArg (fun p => (p.result.flatMap Volume.sites).map (·.ref)) hlink
    exact hheld.trans (congrArg (List.map (·.ref)) hresult)

end Story
end Gamebook
