/-
# Building and linking in turns

Adventures are built one after the other into one registry, and passes of linking
may come anywhere between them, over any adventures that are built, and may be
stopped (`Story.Event`).  None of this shows in what is built: with its references
unlinked, a story is the one that the same adventures give without any pass
(`Story.unlinked_after`).

So a reference keeps the identifier that it was built with, and an adventure the
document that it is shown as; a resolved reference stays resolved, to a scene that
stays registered; and a pass over all adventures that nothing stops leaves behind
what a single pass does (`Story.link_confluent`).
-/

import Gamebook.Proofs.Registration
import Gamebook.Proofs.Unlinked

namespace Gamebook

/-! ## Adventures as they are built -/

namespace Adventure

variable {record : AdventureRecord} {a : Adventure} {scenes : List Scene} {r : Registry}

/-- An adventure has the identifiers of its scenes, in their order. -/
theorem CompiledFromRecord.scenes_eq (h : a.CompiledFromRecord record scenes) :
    a.scenes = scenes.map (·.identifier) :=
  (compiledFromRecord_iff.1 h).identifiers

/-- No reference is resolved when it is built. -/
theorem CompiledFromRecord.unresolved (h : a.CompiledFromRecord record scenes) :
    a.start.isResolved = false ∧
      ∀ scene ∈ scenes, ∀ ch ∈ scene.choices, ch.target.isResolved = false := by
  have hcompiles := compiledFromRecord_iff.1 h
  constructor
  · obtain ⟨i, -, hstart⟩ := hcompiles.start
    rw [hstart]
    rfl
  · intro scene hscene ch hch
    obtain ⟨s, -, hs⟩ := exists_mem_of_forall₂ hcompiles.scenes hscene
    obtain ⟨o, -, ho⟩ := exists_mem_of_forall₂ hs.choices hch
    obtain ⟨i, -, htarget⟩ := ho.target
    rw [htarget]
    rfl

/-- What is built is built unlinked. -/
theorem CompiledFromRecord.unlinked_eq (h : a.CompiledFromRecord record scenes) :
    a.mapRef .unlinked = a ∧ scenes.map (·.mapRefs .unlinked) = scenes := by
  obtain ⟨hstart, hchoices⟩ := h.unresolved
  refine ⟨mapRef_eq_self (SceneRef.unlinked_eq_self hstart), map_eq_self fun scene hscene => ?_⟩
  exact Scene.mapRefs_eq_self fun ch hch => SceneRef.unlinked_eq_self (hchoices scene hscene ch hch)

/-- The references of an adventure that was just built are unresolved. -/
theorem CompiledFromRecord.references_unresolved (h : a.CompiledFromRecord record scenes)
    (hfresh : r.Fresh scenes) :
    ∀ ref ∈ a.references (r.append scenes), ref.isResolved = false := by
  obtain ⟨hstart, hchoices⟩ := h.unresolved
  rw [references, List.forall_mem_cons, List.forall_mem_map]
  refine ⟨hstart, fun ch hch => ?_⟩
  obtain ⟨i, hi, scene, hfound, hch⟩ := Registry.exists_of_mem_choicesOf hch
  obtain ⟨hmem, rfl⟩ := Registry.mem_of_find? hfound
  refine (List.mem_append.1 hmem).elim (fun hold => ?_) fun hnew => hchoices scene hnew ch hch
  rw [h.scenes_eq] at hi
  obtain ⟨other, hother, hidentifier⟩ := List.mem_map.1 hi
  exact absurd (hidentifier ▸ List.mem_map_of_mem hold) (hfresh.not_mem other hother)

end Adventure

namespace Registry

variable {r : Registry} {scenes : List Scene} {a : Adventure}

/-- Where a scene is registered, scenes behind the others change nothing. -/
theorem find?_append_of_mem {i : Identifier} (h : i ∈ r.identifiers) :
    (r.append scenes).find? i = r.find? i := by
  have hfound : (r.find? i).isSome = true := (r.isSome_find? i).trans ((r.contains_iff i).2 h)
  rw [find?, append, List.find?_append, ← find?, Option.or_of_isSome hfound]

/-- An adventure whose scenes are registered keeps its references and its document. -/
theorem view_append (h : ∀ i ∈ a.scenes, i ∈ r.identifiers) :
    a.references (r.append scenes) = a.references r ∧ a.toJson (r.append scenes) = a.toJson r := by
  have hscenes : a.scenes.filterMap (r.append scenes).find? = a.scenes.filterMap r.find? :=
    List.filterMap_congr fun i hi => find?_append_of_mem (h i hi)
  constructor
  · rw [Adventure.references, Adventure.references, Adventure.choices, Adventure.choices, hscenes]
  · rw [Adventure.toJson, Adventure.toJson, hscenes]

/-- References are changed in scenes one by one, whether before or after the scenes are appended. -/
theorem mapRefs_append {f : SceneRef → SceneRef} :
    (r.append scenes).mapRefs f = (r.mapRefs f).append (scenes.map (·.mapRefs f)) := by
  simp [append, mapRefs]

/-- Scenes can be registered or not without regard to references. -/
theorem fresh_mapRefs {f : SceneRef → SceneRef} : (r.mapRefs f).Fresh scenes ↔ r.Fresh scenes := by
  constructor
  · rintro ⟨hnodup, hnew⟩
    exact ⟨hnodup, by simpa using hnew⟩
  · rintro ⟨hnodup, hnew⟩
    exact ⟨hnodup, by simpa using hnew⟩

end Registry

namespace Story

variable {s : Story}

/-! ## Events -/

/-- What happens to a story: an adventure is built, or some are linked. -/
inductive Event where
  | build (record : AdventureRecord)
  | link (positions : List Nat)

/-- Whether an adventure is built. -/
def Event.isBuild : Event → Bool
  | build _ => true
  | link _ => false

/-- The story after an event.  An adventure that cannot be built changes nothing. -/
def next (s : Story) : Event → Story
  | .build record =>
    match s.registry.assemble record with
    | .ok (a, registry) => ⟨s.adventures ++ [a], registry⟩
    | .error _ => s
  | .link positions => (s.linkAt positions).result

/-- The story after some events. -/
def after (s : Story) (events : List Event) : Story := events.foldl next s

/-- What every event keeps, all of them keep. -/
theorem after_induction {P : Story → Prop} {events : List Event} (h : P s)
    (hstep : ∀ s e, P s → P (s.next e)) : P (s.after events) :=
  List.foldlRecOn events next h fun s hs e _ => hstep s e hs

/-- Events happen one after the other. -/
theorem after_append (s : Story) (es es' : List Event) :
    s.after (es ++ es') = (s.after es).after es' := List.foldl_append

/-- A story that holds together: no two scenes share an identifier, the registered
scenes are those of the adventures, and resolved references lead to such scenes. -/
structure Coherent (s : Story) : Prop where
  nodup : s.registry.identifiers.Nodup
  exact : s.Exact
  registered : ∀ rs ∈ s.references, ∀ r ∈ rs, r.isResolved = true →
    r.identifier ∈ s.registry.identifiers

/-- A story without adventures holds together. -/
theorem coherent_empty : ({} : Story).Coherent := ⟨List.nodup_nil, rfl, nofun⟩

/-- The scenes of the adventures are registered. -/
theorem Exact.mem_identifiers (h : s.Exact) {a : Adventure} (ha : a ∈ s.adventures) :
    ∀ i ∈ a.scenes, i ∈ s.registry.identifiers := by
  intro i hi
  rw [h]
  exact List.mem_flatMap.2 ⟨(a.name, a.scenes), List.mem_map.2 ⟨a, ha, rfl⟩, hi⟩

/-- A story with an adventure and its scenes behind the others. -/
def add (s : Story) (a : Adventure) (scenes : List Scene) : Story :=
  ⟨s.adventures ++ [a], s.registry.append scenes⟩

/-- What an event makes of a story: an adventure is built, or it cannot be, or some
are linked. -/
inductive Happens (s : Story) : Event → Story → Prop
  | built {record : AdventureRecord} {a : Adventure} {scenes : List Scene}
      (compiled : a.CompiledFromRecord record scenes) (fresh : s.registry.Fresh scenes) :
      Happens s (.build record) (s.add a scenes)
  | refused {record : AdventureRecord} (not_fresh : ∀ (a : Adventure) (scenes : List Scene),
      a.CompiledFromRecord record scenes → ¬s.registry.Fresh scenes) :
      Happens s (.build record) s
  | linked {ks : List Nat} : Happens s (.link ks) (s.linkAt ks).result

/-- An event makes of a story what it can make of it, and nothing else. -/
theorem happens (s : Story) (e : Event) : s.Happens e (s.next e) := by
  cases e with
  | link ks => exact .linked
  | build record =>
    rw [next.eq_def]
    dsimp only
    cases hassemble : s.registry.assemble record with
    | error d =>
      refine .refused fun a scenes hcompiled hfresh => ?_
      have hok := Registry.assemble_eq_ok.2 ⟨scenes, hcompiled, hfresh, rfl⟩
      exact absurd (hassemble.symm.trans hok) (by simp)
    | ok built =>
      obtain ⟨a, registry⟩ := built
      obtain ⟨scenes, hcompiled, hfresh, rfl⟩ := Registry.assemble_eq_ok.1 hassemble
      exact .built hcompiled hfresh

/-- The events that a story can be built by. -/
theorem next_build {record : AdventureRecord} {a : Adventure} {scenes : List Scene}
    (hcompiled : a.CompiledFromRecord record scenes) (hfresh : s.registry.Fresh scenes) :
    s.next (.build record) = s.add a scenes := by
  rw [next, Registry.assemble_eq_ok.2 ⟨scenes, hcompiled, hfresh, rfl⟩]
  rfl

section

variable {record : AdventureRecord} {a : Adventure} {scenes : List Scene}

/-- The references of an adventure that is added stand behind the others, which its scenes leave
alone. -/
theorem references_add (h : s.Exact) :
    (s.add a scenes).references = s.references ++ [a.references (s.registry.append scenes)] := by
  have hold : s.adventures.map (fun a => a.references (s.registry.append scenes)) =
      s.references :=
    List.map_congr_left fun b hb => (Registry.view_append (h.mem_identifiers hb)).1
  rw [references, add, List.map_append, hold]
  rfl

/-- An adventure that is added is shown behind the others, which its scenes leave alone. -/
theorem payloads_add (h : s.Exact) :
    (s.add a scenes).payloads = s.payloads ++ [a.toJson (s.registry.append scenes)] := by
  have hold : s.adventures.map (fun a => a.toJson (s.registry.append scenes)) = s.payloads :=
    List.map_congr_left fun b hb => (Registry.view_append (h.mem_identifiers hb)).2
  rw [payloads, add, List.map_append, hold]
  rfl

/-- Adding an adventure with all of its scenes leaves no scene without an adventure. -/
theorem exact_add (h : s.Exact) (hscenes : a.scenes = scenes.map (·.identifier)) :
    (s.add a scenes).Exact := by
  have houtline : (s.add a scenes).outline = s.outline ++ [(a.name, a.scenes)] := by
    simp [outline, add]
  rw [Exact, houtline, List.flatMap_append, ← h, hscenes]
  simp [add]

/-- A story holds together with an adventure whose scenes can be registered. -/
theorem coherent_add (h : s.Coherent) (hcompiled : a.CompiledFromRecord record scenes)
    (hfresh : s.registry.Fresh scenes) : (s.add a scenes).Coherent := by
  refine ⟨hfresh.nodup_append h.nodup, exact_add h.exact hcompiled.scenes_eq, ?_⟩
  rw [references_add h.exact]
  intro rs hrs r hr hresolved
  rcases List.mem_append.1 hrs with hrs | hrs
  · have hold := h.registered rs hrs r hr hresolved
    exact (Registry.identifiers_append ..).symm ▸ List.mem_append_left _ hold
  · obtain rfl := List.mem_singleton.1 hrs
    rw [hcompiled.references_unresolved hfresh r hr] at hresolved
    contradiction

end

/-- A story holds together in a pass, wherever the pass stops. -/
theorem coherent_linkAt {ks : List Nat} (h : s.Coherent) : (s.linkAt ks).result.Coherent := by
  have hidentifiers : (s.linkAt ks).result.registry.identifiers = s.registry.identifiers :=
    identifiers_linkAt
  refine ⟨hidentifiers ▸ h.nodup, h.exact.of_outline outline_linkAt hidentifiers, ?_⟩
  rw [hidentifiers]
  intro rs' hrs' r' hr' hresolved
  obtain ⟨rs, hrs, hbecomes⟩ := exists_mem_of_forall₂ (becomes_linkAt h.nodup).references hrs'
  obtain ⟨r, hr, hbecomes⟩ := exists_mem_of_forall₂ hbecomes hr'
  cases hbecomes with
  | same => exact h.registered rs hrs r' hr hresolved
  | resolved hknown => exact (s.registry.contains_iff _).1 hknown

/-- **Every event keeps a story coherent.** -/
theorem coherent_next (h : s.Coherent) (e : Event) : (s.next e).Coherent := by
  have hhappens := s.happens e
  generalize s.next e = t at hhappens
  cases hhappens with
  | built compiled fresh => exact coherent_add h compiled fresh
  | refused => exact h
  | linked => exact coherent_linkAt h

/-- Whatever happens, a story that was opened empty holds together. -/
theorem coherent_after (events : List Event) : (after {} events).Coherent :=
  after_induction coherent_empty fun _ e h => coherent_next h e

/-- An adventure that is added is taken back to how it is built apart from the story. -/
theorem unlinked_add (s : Story) (a : Adventure) (scenes : List Scene) :
    (s.add a scenes).unlinked =
      s.unlinked.add (a.mapRef .unlinked) (scenes.map (·.mapRefs .unlinked)) := by
  simp [unlinked, mapRefs, add, Registry.mapRefs_append]

/-- Linking does not show in what is built next. -/
theorem unlinked_next (s : Story) (record : AdventureRecord) :
    (s.next (.build record)).unlinked = s.unlinked.next (.build record) := by
  have hhappens := s.happens (.build record)
  generalize s.next (.build record) = t at hhappens
  cases hhappens with
  | @built _ a scenes compiled fresh =>
    obtain ⟨ha, hscenes⟩ := compiled.unlinked_eq
    have hbuilt := s.unlinked.next_build compiled (Registry.fresh_mapRefs.2 fresh)
    rw [hbuilt, unlinked_add, ha, hscenes]
  | refused not_fresh =>
    have hhappens := s.unlinked.happens (.build record)
    generalize s.unlinked.next (.build record) = t at hhappens
    cases hhappens with
    | built compiled fresh => exact absurd (Registry.fresh_mapRefs.1 fresh) (not_fresh _ _ compiled)
    | refused => rfl

/-- **Linking does not show in what is built.** -/
theorem unlinked_after (events : List Event) :
    (after {} events).unlinked = after {} (events.filter (·.isBuild)) := by
  induction events using List.reverseRecOn with
  | nil => rfl
  | append_singleton events e ih =>
    rw [List.filter_append, after_append, after_append, ← ih]
    cases e with
    | build record => exact (after {} events).unlinked_next record
    | link ks => exact (becomes_linkAt (coherent_after events).nodup).unlinked_eq

/-- **What is built stays in its place.** -/
theorem prefix_after_build (h : s.Coherent) (events : List Event)
    (hbuild : ∀ e ∈ events, e.isBuild = true) :
    s.payloads <+: (s.after events).payloads ∧
      s.registry.scenes <+: (s.after events).registry.scenes := by
  induction events generalizing s with
  | nil => exact ⟨List.prefix_rfl, List.prefix_rfl⟩
  | cons e events ih =>
    obtain ⟨he, hevents⟩ := List.forall_mem_cons.1 hbuild
    obtain ⟨hpayloads, hscenes⟩ := ih (coherent_next h e) hevents
    have hone : s.payloads <+: (s.next e).payloads ∧
        s.registry.scenes <+: (s.next e).registry.scenes := by
      have hhappens := s.happens e
      generalize s.next e = t at hhappens
      cases hhappens with
      | built compiled fresh =>
        rw [payloads_add h.exact]
        exact ⟨List.prefix_append .., List.prefix_append ..⟩
      | refused => exact ⟨List.prefix_rfl, List.prefix_rfl⟩
      | linked => contradiction
    exact ⟨hone.1.trans hpayloads, hone.2.trans hscenes⟩

/-- **What was built stays in its place**, whatever is linked. -/
theorem prefix_after (events more : List Event) :
    (after {} events).payloads <+: (after {} (events ++ more)).payloads ∧
      (after {} events).unlinked.registry.scenes <+:
        (after {} (events ++ more)).unlinked.registry.scenes := by
  rw [← payloads_unlinked, ← payloads_unlinked (after {} (events ++ more)), unlinked_after,
    unlinked_after, List.filter_append, after_append]
  exact prefix_after_build (coherent_after _) _ fun e he => (List.mem_filter.1 he).2

/-- A registered scene is not replaced. -/
theorem exists_find?_after {events : List Event} (more : List Event) {i : Identifier}
    {scene : Scene} (h : (after {} events).registry.find? i = some scene) :
    ∃ later, (after {} (events ++ more)).registry.find? i = some later ∧
      later.mapRefs .unlinked = scene.mapRefs .unlinked := by
  have hfind (s : Story) : s.unlinked.registry.find? i =
      (s.registry.find? i).map (·.mapRefs .unlinked) := congrFun s.registry.find?_mapRefs i
  have hbefore := hfind (after {} events)
  rw [h, Option.map_some] at hbefore
  obtain ⟨rest, hrest⟩ := (prefix_after events more).2
  have hafter := hfind (after {} (events ++ more))
  rw [Registry.find?, ← hrest, List.find?_append, ← Registry.find?, hbefore, Option.some_or] at hafter
  exact Option.map_eq_some_iff.1 hafter.symm

/-- The reference in a place of the adventure at a position. -/
def ref? (s : Story) (k n : Nat) : Option SceneRef := s.references[k]?.bind (·[n]?)

/-- The reference in a place is changed where it stands. -/
theorem ref?_mapRefs {f : SceneRef → SceneRef} (s : Story) (k n : Nat) :
    (s.mapRefs f).ref? k n = (s.ref? k n).map f := by
  rw [ref?, ref?, references_mapRefs, List.getElem?_map]
  cases s.references[k]? <;> simp

/-- What linking makes of a story, it makes of the reference in each place. -/
theorem Becomes.ref? {t : Story} {known : Identifier → Bool} (h : s.Becomes known t) (k n : Nat) :
    Option.Rel (SceneRef.Becomes known) (s.ref? k n) (t.ref? k n) := by
  have hrel := rel_getElem?_of_forall₂ h.references k
  rw [Story.ref?, Story.ref?]
  generalize s.references[k]? = old at hrel ⊢
  generalize t.references[k]? = new at hrel ⊢
  cases hrel with
  | none => exact .none
  | some hrs => exact rel_getElem?_of_forall₂ hrs n

/-- A resolved reference is not changed by what happens next. -/
theorem ref?_next_of_resolved (h : s.Coherent) {e : Event} {k n : Nat} {i : Identifier}
    (hi : s.ref? k n = some (.resolved i)) : (s.next e).ref? k n = some (.resolved i) := by
  have hhappens := s.happens e
  generalize s.next e = t at hhappens
  cases hhappens with
  | refused => exact hi
  | built compiled fresh =>
    obtain ⟨rs, hrs, hr⟩ := Option.bind_eq_some_iff.1 hi
    obtain ⟨hlt, -⟩ := List.getElem?_eq_some_iff.1 hrs
    rw [ref?, references_add h.exact, List.getElem?_append_left hlt, hrs]
    exact hr
  | @linked ks =>
    have hbecomes : s.Becomes s.registry.contains (s.linkAt ks).result := becomes_linkAt h.nodup
    have hrel := hbecomes.ref? k n
    rw [hi] at hrel
    generalize (s.linkAt ks).result.ref? k n = new at hrel ⊢
    cases hrel with
    | some hr => rw [hr.eq_of_isResolved rfl]

/-- **A resolved reference never changes again.** -/
theorem ref?_after_of_resolved (h : s.Coherent) (events : List Event) {k n : Nat} {i : Identifier}
    (hi : s.ref? k n = some (.resolved i)) : (s.after events).ref? k n = some (.resolved i) :=
  (after_induction (P := fun t => t.Coherent ∧ t.ref? k n = some (.resolved i)) ⟨h, hi⟩
    fun _ e ht => ⟨coherent_next ht.1 e, ref?_next_of_resolved ht.1 ht.2⟩).2

/-- A resolved reference leads to a registered scene. -/
theorem Coherent.exists_find? (h : s.Coherent) {k n : Nat} {i : Identifier}
    (hi : s.ref? k n = some (.resolved i)) : ∃ scene, s.registry.find? i = some scene := by
  obtain ⟨rs, hrs, hr⟩ := Option.bind_eq_some_iff.1 hi
  have hmem := h.registered rs (List.mem_of_getElem? hrs) _ (List.mem_of_getElem? hr) rfl
  refine Option.isSome_iff_exists.1 ?_
  rw [Registry.isSome_find?, Registry.contains_iff]
  exact hmem

/-- The choices of registered scenes refer to what adventures refer to. -/
theorem Coherent.exists_mem_references (h : s.Coherent) {scene : Scene}
    (hscene : scene ∈ s.registry.scenes) {ch : Choice} (hch : ch ∈ scene.choices) :
    ∃ rs ∈ s.references, ch.target ∈ rs := by
  have hi : scene.identifier ∈ s.registry.identifiers := List.mem_map_of_mem hscene
  obtain ⟨e, he, hie⟩ := List.mem_flatMap.1 (h.exact ▸ hi)
  obtain ⟨a, ha, rfl⟩ := List.mem_map.1 he
  obtain ⟨found, hfound⟩ := Option.isSome_iff_exists.1
    ((s.registry.isSome_find? _).trans ((s.registry.contains_iff _).2 hi))
  obtain rfl := Registry.eq_of_find? h.nodup hfound hscene rfl
  have hmem : ch ∈ a.choices s.registry :=
    List.mem_flatMap.2 ⟨scene, List.mem_filterMap.2 ⟨_, hie, hfound⟩, hch⟩
  exact ⟨_, List.mem_map_of_mem ha, List.mem_cons_of_mem _ (List.mem_map_of_mem hmem)⟩

/-- Where all references are resolved, those of every registered scene are. -/
theorem Coherent.isLinked_choices (h : s.Coherent) (hlinked : s.isLinked = true) :
    ∀ scene ∈ s.registry.scenes, ∀ ch ∈ scene.choices, ch.IsLinked := by
  intro scene hscene ch hch
  obtain ⟨rs, hrs, hmem⟩ := h.exists_mem_references hscene hch
  exact isLinked_iff.1 hlinked rs hrs _ hmem

/-- **A pass over all adventures that nothing stops resolves all references.** -/
theorem linkAt_eq_linked (h : s.Coherent) {ks : List Nat}
    (hall : ∀ k < s.adventures.length, k ∈ ks) (hnone : (s.linkAt ks).failure = none) :
    (s.linkAt ks).result = s.linked := by
  have hbecomes : s.Becomes s.registry.contains (s.linkAt ks).result := becomes_linkAt h.nodup
  have hlinked : (s.linkAt ks).result.isLinked = true := by
    refine isLinked_iff.2 fun rs hrs => ?_
    obtain ⟨k, hk⟩ := List.mem_iff_getElem?.1 hrs
    obtain ⟨hlt, -⟩ := List.getElem?_eq_some_iff.1 hk
    rw [references, List.length_map, ← hbecomes.adventures.length_eq] at hlt
    exact isResolved_linkAt h.nodup hnone k (hall k hlt) rs hk
  have hresult : (s.linkAt ks).result.linked = (s.linkAt ks).result := by
    refine linked_eq_self (fun a ha => ?_) ((coherent_linkAt h).isLinked_choices hlinked)
    exact isLinked_iff.1 hlinked _ (List.mem_map_of_mem ha) _ (List.mem_cons_self ..)
  -- both are the same story unlinked, and with every reference resolved
  rw [← hresult, ← linked_unlinked, hbecomes.unlinked_eq, linked_unlinked]

/-- A pass goes through a story where it goes through the story without links. -/
theorem failure_linkAt_unlinked (h : s.Coherent) {ks : List Nat} :
    (s.unlinked.linkAt ks).failure = none ↔ (s.linkAt ks).failure = none := by
  have hidentifiers : s.unlinked.registry.identifiers = s.registry.identifiers :=
    s.registry.identifiers_mapRefs
  have hlinkable {rs : List SceneRef} (hrs : rs ∈ s.references) {r : SceneRef} (hr : r ∈ rs) :
      r.unlinked.IsLinkable s.registry.contains ↔ r.IsLinkable s.registry.contains := by
    constructor
    · rintro (hresolved | hknown)
      · contradiction
      · exact .inr hknown
    · rintro (hresolved | hknown)
      -- coherence is needed here alone: a resolved reference leads to a registered scene
      · exact .inr ((s.registry.contains_iff _).2 (h.registered rs hrs r hr hresolved))
      · exact .inr hknown
  rw [failure_linkAt_eq_none_iff h.nodup, failure_linkAt_eq_none_iff (hidentifiers ▸ h.nodup),
    Registry.contains_congr hidentifiers]
  refine forall₂_congr fun k _ => ?_
  rw [unlinked, references_mapRefs, List.getElem?_map]
  cases hk : s.references[k]? with
  | none => simp
  | some rs =>
    simp only [Option.map_some, Option.some.injEq, forall_eq', List.forall_mem_map]
    exact forall₂_congr fun r hr => hlinkable (List.mem_of_getElem? hk) hr

end Story

/-! ## Sessions -/

namespace Session

variable {s : Session} {library : Option Library} {new : List (Adventure × List Scene)}

/-- An adventure that a session admits can be built. -/
theorem exists_story_extend {document : Json} {a : Adventure} {scenes : List Scene}
    (h : s.Admits document a scenes) :
    ∃ record, (s.extend [(a, scenes)]).story = s.story.next (.build record) := by
  obtain ⟨record, c, -, hcompiled⟩ := h.compiled
  refine ⟨record, ?_⟩
  rw [Story.next_build ⟨c, hcompiled⟩ h.fresh]
  simp [extend, Story.add]

/-- What a session grows by, its story comes to by events. -/
theorem Grows.exists_story_after (h : s.Grows library new) :
    ∃ events, (s.extend new).story = s.story.after events := by
  induction h with
  | nil => exact ⟨[], by rw [extend_nil]; rfl⟩
  | cons found admitted rest ih =>
    obtain ⟨record, hrecord⟩ := exists_story_extend admitted
    obtain ⟨events, hevents⟩ := ih
    exact ⟨.build record :: events, by rw [extend_cons, hevents, hrecord]; rfl⟩

/-- A call that does not fail to load builds, links, or leaves the story alone. -/
theorem exists_story_answer (c : Call) (s : Session)
    (hload : ∀ l, c = .load l → ∃ a, (l.request.answer s).1 = .ok a) :
    ∃ events, (c.answer s).2.story = s.story.after events := by
  cases c with
  | link =>
    refine ⟨[.link (List.range s.story.adventures.length)], ?_⟩
    exact (Request.story_link s).1
  | run name answers => exact ⟨[], (s.story_run name answers).1⟩
  | load l =>
    obtain ⟨a, ha⟩ := hload l rfl
    have hanswers := l.answers s
    rw [Call.answer, Request.answer_discard]
    generalize l.request.answer s = answered at ha hanswers
    cases hanswers with
    | loaded => exact ⟨[], rfl⟩
    | notFound => contradiction
    | found _ loads =>
      cases loads with
      | refused | strayed => contradiction
      | entered admitted explored _ _ =>
        obtain ⟨record, hrecord⟩ := exists_story_extend admitted
        obtain ⟨events, hevents⟩ := explored.grows.exists_story_after
        refine ⟨.build record :: events, ?_⟩
        show (s.extend _).story = _
        rw [extend_cons, hevents, hrecord]
        rfl

/-- **Calls whose loads succeed build and link in turns.** -/
theorem exists_story_after (calls : List Call) (s : Session)
    (hload : ∀ before l behind, calls = before ++ .load l :: behind →
      ∃ a, (l.request.answer (s.after before)).1 = .ok a) :
    ∃ events, (s.after calls).story = s.story.after events := by
  induction calls generalizing s with
  | nil => exact ⟨[], rfl⟩
  | cons c calls ih =>
    obtain ⟨events, hevents⟩ := exists_story_answer c s fun l hl => hload [] l calls (hl ▸ rfl)
    obtain ⟨more, hmore⟩ := ih (c.answer s).2 fun before l behind hcalls =>
      hload (c :: before) l behind (hcalls ▸ rfl)
    refine ⟨events ++ more, ?_⟩
    rw [Story.after_append, ← hevents]
    exact hmore

end Session

namespace Story

/-- A session starts with the control scenes' adventure built. -/
theorem opening_eq : opening = after {} [.build Control.adventure] := by
  show opening = match Registry.empty.assemble Control.adventure with
    | .ok (a, registry) => ⟨[] ++ [a], registry⟩
    | .error _ => {}
  rw [opening]
  cases Registry.empty.assemble Control.adventure <;> rfl

/-- **Failed and repeated passes do no harm.**  Let adventures be built and linked in
turns, in any order, and let a later story be compared with an earlier one.  A
resolved reference is still the same.  It leads to the scene that is registered under
the identifier that it was built with, and a scene that is registered stays so.  The
adventures are shown as the same documents.  And when a pass over all adventures goes
through, it would go through a story that was only built, and leave the same story
behind.  Sessions are such stories if their loads succeed. -/
theorem link_confluent (events more : List Event) :
    let s := after {} events
    let t := s.after more
    let built := after {} ((events ++ more).filter (·.isBuild))
    (∀ k n i, s.ref? k n = some (.resolved i) → t.ref? k n = some (.resolved i)) ∧
    (∀ k n i, t.ref? k n = some (.resolved i) →
      built.ref? k n = some (.unresolved i) ∧ ∃ scene, t.registry.find? i = some scene) ∧
    (∀ i scene, s.registry.find? i = some scene → ∃ later, t.registry.find? i = some later ∧
      later.mapRefs .unlinked = scene.mapRefs .unlinked) ∧
    s.payloads <+: t.payloads ∧
    (∀ ks, (∀ k < t.adventures.length, k ∈ ks) → (t.linkAt ks).failure = none →
      (built.linkAt ks).failure = none ∧ (t.linkAt ks).result = (built.linkAt ks).result) ∧
    ∀ (settings : Settings) (library : Option Library) (disk : Disk) (calls : List Call),
      (∀ before l behind, calls = before ++ .load l :: behind →
        ∃ a, (l.request.answer ((Session.start settings library disk).after before)).1 = .ok a) →
      ∃ es, ((Session.start settings library disk).after calls).story = after {} es := by
  intro s t built
  have hs : s.Coherent := coherent_after events
  have ht : t.Coherent := after_induction hs fun _ e h => coherent_next h e
  have htail : t = after {} (events ++ more) := (after_append {} events more).symm
  have hbuilt : t.unlinked = built := by rw [htail, unlinked_after]
  refine ⟨fun k n i hi => ref?_after_of_resolved hs more hi, fun k n i hi => ⟨?_, ?_⟩, ?_, ?_, ?_, ?_⟩
  · rw [← hbuilt, unlinked, ref?_mapRefs, hi]
    rfl
  · exact ht.exists_find? hi
  · intro i scene hscene
    rw [htail]
    exact exists_find?_after more hscene
  · rw [htail]
    exact (prefix_after events more).1
  · intro ks hall hnone
    have hbuiltCoherent : built.Coherent := coherent_after _
    have hlen : built.adventures.length = t.adventures.length := by
      rw [← hbuilt, unlinked, mapRefs, List.length_map]
    have hbuiltNone : (built.linkAt ks).failure = none :=
      hbuilt ▸ (failure_linkAt_unlinked ht).2 hnone
    refine ⟨hbuiltNone, ?_⟩
    rw [linkAt_eq_linked ht hall hnone, linkAt_eq_linked hbuiltCoherent (hlen ▸ hall) hbuiltNone,
      ← hbuilt, linked_unlinked]
  · intro settings library disk calls hload
    obtain ⟨es, hes⟩ := Session.exists_story_after calls (.start settings library disk) hload
    refine ⟨[.build Control.adventure] ++ es, ?_⟩
    rw [hes, after_append, ← opening_eq]
    rfl

/-- A pass that is stopped halfway, at a scene that is built later. -/
theorem link_confluent_stopped :
    let first : AdventureRecord :=
      { name := "a", title := "T", version := 1, startingScene := "hall", scenes :=
        [{ name := "hall", title := "S", content := ["c"], options :=
          [{ label := "stay", target := "hall" }, { label := "leave", target := "b:yard" }] }] }
    let second : AdventureRecord :=
      { name := "b", title := "T", version := 1, startingScene := "yard", scenes :=
        [{ name := "yard", title := "S", content := ["c"] }] }
    let events : List Event := [.build first, .link [0]]
    let t := after {} (events ++ [.build second])
    ((after {} [.build first]).linkAt [0]).failure.isSome = true ∧
      (after {} events).references.flatten.map (·.isResolved) = [true, true, false] ∧
      (t.linkAt [1, 0]).failure = none ∧
      (t.linkAt [1, 0]).result =
        ((after {} [.build first, .build second]).linkAt [1, 0]).result := by
  intro first second events t
  obtain ⟨hstopped, hpartly, hlen, hnone⟩ :
      ((after {} [.build first]).linkAt [0]).failure.isSome = true ∧
      (after {} events).references.flatten.map (·.isResolved) = [true, true, false] ∧
      t.adventures.length = 2 ∧ (t.linkAt [1, 0]).failure = none := by
    decide +kernel
  obtain ⟨-, -, -, -, hconfluent, -⟩ := link_confluent events [.build second]
  rw [← after_append] at hconfluent
  have hall : ∀ k < t.adventures.length, k ∈ [1, 0] := by
    rw [hlen]
    decide
  exact ⟨hstopped, hpartly, hnone, (hconfluent [1, 0] hall hnone).2⟩

end Story
end Gamebook
