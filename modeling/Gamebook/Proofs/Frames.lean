/-
# What a call does to the variables

Only actions assign numbers, and they erase none.  So a store keeps its variables through
any actions, and where the number of a variable has changed, one of the actions has this
variable as its target (`Store.Frame`).  A call that loads runs no actions, one that links
runs load-time actions, unless it is stopped at a reference, and a play runs actions of
scenes and of their choices (`Call.frame_answer`).

All these actions were compiled from documents by calls that load, in the session that runs
them (`Session.exists_load_later`).
-/

import Gamebook.Proofs.Choosing
import Gamebook.Proofs.Initialising

namespace Gamebook

/-! ## Frames -/

/-- A store has a number for each of its keys and for nothing else. -/
theorem Store.contains_iff_mem_keys {s : Store} {i : Identifier} :
    s.contains i = true ↔ i ∈ s.keys := by
  obtain ⟨es⟩ := s
  simp only [contains, get?, keys]
  induction es with
  | nil => simp
  | cons e es ih =>
    obtain ⟨j, y⟩ := e
    by_cases hj : i = j
    · simp [hj]
    · have hbeq : (i == j) = false := beq_eq_false_iff_ne.2 hj
      simp [List.lookup_cons, hbeq, hj, ih]

/-- What some actions may have made of a store: its variables stay in their places, and
where a number has changed, an action has its variable as target. -/
structure Store.Frame (actions : List Action) (s t : Store) : Prop where
  keys : s.keys <+: t.keys
  target : ∀ i, t.get? i ≠ s.get? i → ∃ a ∈ actions, a.target = i

namespace Store.Frame

variable {actions : List Action} {s t u : Store}

/-- Nothing happens in a frame without assignments. -/
theorem refl (actions : List Action) (s : Store) : Frame actions s s :=
  ⟨List.prefix_rfl, fun _ h => absurd rfl h⟩

/-- Frames can be put one after the other. -/
theorem trans (h : Frame actions s t) (h' : Frame actions t u) : Frame actions s u where
  keys := h.keys.trans h'.keys
  target i hi := by
    by_cases ht : t.get? i = s.get? i
    · exact h'.target i (ht ▸ hi)
    · exact h.target i ht

/-- What is assigned stays assigned. -/
theorem contains (h : Frame actions s t) {i : Identifier} (hi : s.contains i = true) :
    t.contains i = true :=
  contains_iff_mem_keys.2 (h.keys.subset (contains_iff_mem_keys.1 hi))

/-- An assignment to the target of an action. -/
theorem insert {a : Action} (ha : a ∈ actions) (s : Store) (x : Float) :
    Frame actions s (s.insert a.target x) where
  keys := by
    rw [keys_insert]
    split
    · exact List.prefix_rfl
    · exact List.prefix_append _ _
  target i hi := by
    by_contra hnone
    refine hi (get?_insert_of_ne s x fun htarget => hnone ⟨a, ha, htarget.symm⟩)

/-- What every step of a row keeps, the row keeps. -/
theorem foldl {β : Type} {f : Store → β → Store} {bs : List β}
    (h : ∀ b ∈ bs, ∀ s, Frame actions s (f s b)) (s : Store) :
    Frame actions s (bs.foldl f s) :=
  List.foldlRecOn bs f (refl actions s) fun _ ht b hb => ht.trans (h b hb _)

end Store.Frame

namespace Action

/-- An action that assigns its number stays in the frame of the actions that it is among. -/
theorem frame_evaluate {actions : List Action} {a : Action} (ha : a ∈ actions) {s t : Store}
    {x : Float} (h : a.evaluate s = .ok (x, t)) : Store.Frame actions s t := by
  obtain ⟨y, -, h⟩ := Grammar.exists_of_bind_eq_ok h
  obtain ⟨rfl, rfl⟩ := Prod.mk.inj (Except.ok.inj h)
  exact .insert ha s y

/-- An action stays in the frame of the actions that it is among, also where it has no number. -/
theorem frame_perform {actions : List Action} {a : Action} (ha : a ∈ actions) (s : Store) :
    Store.Frame actions s (perform s a) := by
  rw [perform]
  cases hvalue : a.evaluate s with
  | error e => exact .refl actions s
  | ok result => exact frame_evaluate ha hvalue

/-- **Actions that are run assign to their targets**, also where one of them stops the
others. -/
theorem frame_runAll {actions : List Action} (as : List Action) (has : as ⊆ actions)
    (s : Store) : Store.Frame actions s (runAll as s).2 := by
  induction as generalizing s with
  | nil => exact .refl actions s
  | cons a as ih =>
    obtain ⟨ha, has⟩ := List.cons_subset.1 has
    cases hvalue : a.evaluate s with
    | error e => exact runAll_cons_of_error hvalue as ▸ .refl actions s
    | ok result =>
      rw [runAll_cons_of_ok hvalue]
      exact (frame_evaluate ha hvalue).trans (ih has result.2)

end Action

/-! ## Plays -/

/-- The actions of a scene and of its choices. -/
def Scene.allActions (scene : Scene) : List Action :=
  scene.actions ++ scene.choices.flatMap (·.actions)

/-- The actions of the registered scenes and of their choices. -/
def Registry.actions (r : Registry) : List Action := r.scenes.flatMap Scene.allActions

/-- The actions of a scene are among those of the registry that has the scene. -/
theorem Scene.actions_subset {r : Registry} {scene : Scene} (h : scene ∈ r.scenes) :
    scene.actions ⊆ r.actions := fun _ ha =>
  List.mem_flatMap.2 ⟨scene, h, List.mem_append_left _ ha⟩

/-- The actions of a choice are among those of the registry that has its scene. -/
theorem Choice.actions_subset {r : Registry} {scene : Scene} (h : scene ∈ r.scenes) {c : Choice}
    (hc : c ∈ scene.choices) : c.actions ⊆ r.actions := fun _ ha =>
  List.mem_flatMap.2 ⟨scene, h, List.mem_append_right _ (List.mem_flatMap.2 ⟨c, hc, ha⟩)⟩

namespace Stage

variable {g : Stage} {history : History Identifier} {s : Store} {scene : Scene} {i : Identifier}

/-- Offering choices assigns nothing. -/
theorem store_offer : (g.offer history s scene).store = s := by
  unfold offer
  dsimp only
  split
  · rfl
  · split <;> rfl
  · split
    · rfl
    · rfl
    · split <;> rfl

/-- Entering a scene runs its actions. -/
theorem store_enter : (g.enter history s scene).store = (Action.runAll scene.actions s).2 := by
  unfold enter
  split
  · rename_i e t hrun
    rw [hrun]
    rfl
  · rename_i t hrun
    rw [hrun]
    dsimp only
    split
    · rfl
    · exact store_offer

/-- Arriving at a scene runs actions of the registry only. -/
theorem frame_arrive (history : History Identifier) (s : Store) (target : Identifier) :
    Store.Frame g.registry.actions s (g.arrive history s target).store := by
  unfold arrive
  dsimp only
  split
  · exact .refl _ s
  · split
    · rename_i control _
      cases control <;> exact .refl _ s
    · rename_i j _ _ _ _
      rw [Registry.resolve]
      cases hscene : g.registry.find? j with
      | none => exact .refl _ s
      | some scene =>
        have hmem := (Registry.mem_of_find? hscene).1
        exact store_enter ▸ Action.frame_runAll _ (Scene.actions_subset hmem) s

/-- Taking a choice runs actions of the registry only, first those of the choice. -/
theorem frame_take {p : Play} {c : Choice} (hc : c.actions ⊆ g.registry.actions) :
    Store.Frame g.registry.actions s (g.take p s c).store := by
  have hactions := Action.frame_runAll c.actions hc s
  unfold take
  split
  · rename_i e t hrun
    rw [hrun] at hactions
    exact hactions
  · rename_i t hrun
    rw [hrun] at hactions
    split
    · exact hactions
    · exact hactions.trans (frame_arrive _ _ _)

/-- **A line assigns to targets of the registered scenes.** -/
theorem frame_answer {p : Passage} {w : Play} (h : p.OffersScene g.registry)
    (hw : p.progress = .waiting w) (line : String) :
    Store.Frame g.registry.actions p.store (g.answer w p.store line).store := by
  cases htakes : w.prompt.takes? line with
  | none =>
    obtain ⟨lines, hanswer⟩ := answer_of_not_takes (g := g) (s := p.store) htakes
    rw [hanswer]
    exact .refl _ p.store
  | some c =>
    obtain ⟨scene, hscene, hoffers⟩ := h w hw
    have hmem := (Registry.mem_of_find? hscene).1
    rw [answer_of_takes htakes]
    exact frame_take (Choice.actions_subset hmem (hoffers.of_takes htakes).1)

end Stage

namespace Session

variable {s : Session} {a : Adventure}

/-- The beginning of a play runs actions of the registry only. -/
theorem frame_begin (s : Session) (a : Adventure) :
    Store.Frame s.story.registry.actions s.store (s.begin a).store := by
  unfold begin
  split
  · exact .refl _ s.store
  · split
    · exact .refl _ s.store
    · split
      · exact .refl _ s.store
      · exact Stage.frame_arrive (g := s.stage a) _ _ _

/-- **All passages of a play are framed by the registered scenes**, wherever it is
stopped. -/
theorem frame_of_mem_passages (s : Session) (a : Adventure) (answers : List String) :
    ∀ p ∈ s.passages a answers, Store.Frame s.story.registry.actions s.store p.store := by
  have hall : ∀ p ∈ s.passages a answers, p.OffersScene s.story.registry ∧
      Store.Frame s.story.registry.actions s.store p.store :=
    Stage.passages_induction ⟨s.offersScene_begin a, s.frame_begin a⟩
      fun p w line ⟨hoffers, hframe⟩ hw =>
        ⟨Stage.OffersScene.answer (g := s.stage a) hoffers hw line,
          hframe.trans (Stage.frame_answer (g := s.stage a) hoffers hw line)⟩
  exact fun p hp => (hall p hp).2

/-- A whole play runs actions of the registry only, for whatever lines and however it ends. -/
theorem frame_run (s : Session) (name : String) (answers : List String) :
    Store.Frame s.story.registry.actions s.store (s.run name answers).2.store := by
  cases ha : s.story.find? name with
  | none =>
    rw [run, ha]
    exact .refl _ s.store
  | some a =>
    rw [run_eq ha, Stage.play_eq]
    exact s.frame_of_mem_passages a answers _ (Stage.reach_mem_passages ..)

end Session

/-! ## Calls -/

/-- The load-time actions of the adventures of a story. -/
def Story.actions (s : Story) : List Action := s.adventures.flatMap (·.actions)

/-- Linking changes no load-time actions. -/
theorem Story.actions_link (s : Story) : s.link.result.actions = s.actions := by
  have hmap : s.link.result.adventures.map (·.actions) = s.adventures.map (·.actions) :=
    map_linkAt fun _ _ => rfl
  rw [actions, actions, List.flatMap_def, List.flatMap_def, hmap]

/-- The attempts that linking makes run load-time actions. -/
theorem Session.frame_attempts (s : Session) :
    Store.Frame s.story.actions s.store (s.attempts.foldl Attempt.perform s.store) := by
  refine .foldl (fun t ht => ?_) s.store
  obtain ⟨-, -, hroster⟩ := of_mem_attemptsOf (d := .call .link) ht
  obtain ⟨a, ha, heq⟩ := List.mem_map.1 hroster
  have hactions : t.actions ⊆ s.story.actions := by
    rw [← s.story.actions_link, ← (Prod.mk.inj heq).2]
    exact fun _ hmem => List.mem_flatMap.2 ⟨a, ha, hmem⟩
  exact .foldl fun action haction =>
    Action.frame_perform (hactions (t.done_prefix.subset haction))

namespace Call

/-- The actions that a call may run. -/
def actions (s : Session) : Call → List Action
  | load _ => []
  | link => s.story.actions
  | run _ _ => s.story.registry.actions

/-- A call that loads leaves the variables alone. -/
theorem store_answer_load (l : LoadCall) (s : Session) : ((load l).answer s).2.store = s.store := by
  rw [answer, Request.answer_discard]
  have hanswers := l.answers s
  generalize l.request.answer s = answered at hanswers
  cases hanswers with
  | loaded | notFound => rfl
  | found _ loads => cases loads <;> rfl

/-- A call that is stopped at a reference leaves the variables alone. -/
theorem store_answer_link {s : Session} {d : Diagnostic}
    (h : (link.answer s).1 = .error (.document d)) : (link.answer s).2.store = s.store := by
  have hlinks := Request.links s
  rw [answer] at h ⊢
  generalize Request.link.answer s = answered at h hlinks
  cases hlinks with
  | unknown => rfl
  | tried _ ends => cases ends <;> cases h

/-- **What a call makes of the variables.** -/
theorem frame_answer (c : Call) (s : Session) :
    Store.Frame (c.actions s) s.store (c.answer s).2.store := by
  cases c with
  | load l =>
    rw [store_answer_load]
    exact .refl _ s.store
  | link => exact s.next_link.1 ▸ s.frame_attempts
  | run name answers => exact s.frame_run name answers

end Call

/-! ## Where actions come from -/

/-- The load-time actions of an adventure, and the actions of its scenes. -/
def Adventure.allActions (a : Adventure) (scenes : List Scene) : List Action :=
  a.actions ++ scenes.flatMap Scene.allActions

/-- All actions that a story has. -/
def Story.allActions (s : Story) : List Action := s.actions ++ s.registry.actions

/-- The control scenes that a story opens with have no actions. -/
theorem Story.allActions_opening : opening.allActions = [] := by
  have hnone : opening.allActions.isEmpty = true := by decide +kernel
  exact List.isEmpty_iff.1 hnone

/-- Linking changes no actions of scenes. -/
theorem Scene.Becomes.allActions_eq {known : Identifier → Bool} {scene scene' : Scene}
    (h : scene.Becomes known scene') : scene'.allActions = scene.allActions := by
  obtain ⟨choices, hchoices, rfl⟩ := h
  have hmap : choices.map (·.actions) = scene.choices.map (·.actions) :=
    map_eq_of_forall₂ hchoices fun c c' ⟨r, _, hc⟩ => hc ▸ rfl
  rw [allActions, allActions, List.flatMap_def, List.flatMap_def, hmap]

/-- Linking changes no actions. -/
theorem Story.allActions_link {s : Story} (h : s.Sound) :
    s.link.result.allActions = s.allActions := by
  have hbecomes : s.Becomes _ s.link.result := becomes_linkAt h.identifiers_nodup
  have hmap : s.link.result.registry.scenes.map Scene.allActions =
      s.registry.scenes.map Scene.allActions :=
    map_eq_of_forall₂ hbecomes.registry fun _ _ => Scene.Becomes.allActions_eq
  rw [allActions, allActions, actions_link, Registry.actions, Registry.actions,
    List.flatMap_def, List.flatMap_def, hmap]

namespace Session

variable {s : Session} {library : Option Library} {new : List (Adventure × List Scene)}
  {action : Action}

/-- Whether an action is one that a document was compiled to, under the name of an
adventure that is loaded. -/
def HasCompiled (s : Session) (action : Action) : Prop :=
  ∃ (document : Json) (a : Adventure) (scenes : List Scene),
    a.CompiledFrom document scenes ∧ a.name ∈ s.names ∧ action ∈ a.allActions scenes

/-- A session that is extended has its own actions and those of what it is extended by. -/
theorem mem_allActions_extend : action ∈ (s.extend new).story.allActions ↔
    action ∈ s.story.allActions ∨ ∃ x ∈ new, action ∈ x.1.allActions x.2 := by
  simp only [Story.allActions, Story.actions, Registry.actions, Registry.append, extend,
    Adventure.allActions, List.flatMap_append, List.flatMap_map, List.flatMap_assoc,
    List.mem_append, List.mem_flatMap, and_or_left, exists_or]
  exact or_or_or_comm

/-- Scenes that no adventure has bring their actions with them. -/
theorem mem_allActions_withStray {scenes : List Scene} :
    action ∈ (s.withStray scenes).story.allActions ↔
      action ∈ s.story.allActions ∨ action ∈ scenes.flatMap Scene.allActions := by
  simp only [Story.allActions, Story.actions, Registry.actions, Registry.append, withStray,
    List.flatMap_append, List.mem_append, or_assoc]

/-- What stands behind the adventures of a session was compiled from documents. -/
theorem Grows.compiledFrom (h : s.Grows library new) :
    ∀ x ∈ new, ∃ document, x.1.CompiledFrom document x.2 := by
  induction h with
  | nil => exact nofun
  | cons found admitted rest ih => exact List.forall_mem_cons.2 ⟨⟨_, admitted.compiled⟩, ih⟩

end Session

/-- A document that is loaded brings actions that were compiled. -/
theorem Request.Loads.hasCompiled {library : Option Library} {s : Session} {document : Json}
    {answered : Except Fault Adventure × Session} (h : Loads library s document answered)
    {action : Action} (haction : action ∈ answered.2.story.allActions) :
    action ∈ s.story.allActions ∨ answered.2.HasCompiled action := by
  cases h with
  | refused => exact .inl haction
  | @entered a scenes new _ _ admitted explored =>
    refine (Session.mem_allActions_extend.1 haction).imp_right fun ⟨x, hx, hmem⟩ => ?_
    obtain ⟨d, hd⟩ : ∃ d, x.1.CompiledFrom d x.2 :=
      List.forall_mem_cons.2 ⟨⟨_, admitted.compiled⟩, explored.grows.compiledFrom⟩ x hx
    refine ⟨d, x.1, x.2, hd, ?_, hmem⟩
    exact s.names_extend _ ▸ List.mem_append_right _ (List.mem_map_of_mem hx)
  | @strayed a scenes compiled _ old =>
    refine (Session.mem_allActions_withStray.1 haction).imp_right fun hmem => ?_
    exact ⟨_, a, scenes, compiled, old, List.mem_append_right _ hmem⟩

/-- **Only a call that loads brings actions**, and it compiles them. -/
theorem Session.hasCompiled_next {s : Session} (hsound : s.story.Sound) {d : Deed}
    {action : Action} (h : action ∈ (s.next d).story.allActions) :
    action ∈ s.story.allActions ∨
      ∃ l, d = .call (.load l) ∧ (s.next d).HasCompiled action := by
  cases d with
  | write store => exact .inl h
  | call c =>
    have hleaves := (c.leaves s).1
    rw [next] at h ⊢
    generalize (c.answer s).2 = t at h hleaves
    cases hleaves with
    | same hstory => exact .inl (hstory ▸ h)
    | linked hstory => exact .inl (Story.allActions_link hsound ▸ hstory ▸ h)
    | @loaded l _ _ _ found loads =>
      exact (loads.hasCompiled h).imp_right fun hcompiled => ⟨l, rfl, hcompiled⟩

namespace Session

/-- **The actions of a session were compiled by calls that load**, each when its adventure
was. -/
theorem exists_load_later (settings : Settings) (library : Option Library) (disk : Disk)
    (deeds : List Deed) {action : Action}
    (h : action ∈ ((start settings library disk).later deeds).story.allActions) :
    ∃ before l behind, deeds = before ++ .call (.load l) :: behind ∧
      ((start settings library disk).later (before ++ [.call (.load l)])).HasCompiled action := by
  induction deeds using List.reverseRecOn with
  | nil =>
    have hnone : action ∈ Story.opening.allActions := h
    rw [Story.allActions_opening] at hnone
    contradiction
  | append_singleton deeds d ih =>
    have hsound : ((start settings library disk).later deeds).story.Sound :=
      sound_later Story.sound_opening
    rw [later_append] at h
    obtain hold | ⟨l, rfl, hcompiled⟩ := hasCompiled_next hsound h
    · obtain ⟨before, l, behind, rfl, hcompiled⟩ := ih hold
      exact ⟨before, l, behind ++ [d], by simp, hcompiled⟩
    · exact ⟨deeds, l, [], rfl, later_append .. ▸ hcompiled⟩

end Session

/-- A call runs actions of the story. -/
theorem Call.actions_subset (c : Call) (s : Session) : c.actions s ⊆ s.story.allActions := by
  cases c with
  | load l => exact List.nil_subset _
  | link => exact List.subset_append_left ..
  | run name answers => exact List.subset_append_right ..

namespace Session

/-- **Variables are never lost.**  Whatever a call ends with, the variables stay in their
places.  One that loads leaves them alone, and so does one that is stopped at a reference.
Where a number has changed, or is new, an action that the call may run has its variable as
target; and when the calls began with a new session, this action was compiled by one of them
that loads. -/
theorem variables_kept (s : Session) (c : Call) :
    let t := (c.answer s).2
    s.store.keys <+: t.store.keys ∧
    (∀ i, s.store.contains i = true → t.store.contains i = true) ∧
    (∀ l, c = .load l → t.store = s.store) ∧
    (∀ d, c = .link → (c.answer s).1 = .error (.document d) → t.store = s.store) ∧
    (∀ i, t.store.get? i ≠ s.store.get? i → ∃ a ∈ c.actions s, a.target = i) ∧
    ∀ (settings : Settings) (library : Option Library) (disk : Disk) (deeds : List Deed),
      s = (start settings library disk).later deeds → ∀ a ∈ c.actions s,
        ∃ before l behind, deeds = before ++ .call (.load l) :: behind ∧
          ((start settings library disk).later (before ++ [.call (.load l)])).HasCompiled a := by
  intro t
  have hframe := c.frame_answer s
  refine ⟨hframe.keys, fun i => hframe.contains, ?_, ?_, hframe.target, ?_⟩
  · rintro l rfl
    exact Call.store_answer_load l s
  · rintro d rfl
    exact Call.store_answer_link
  · rintro settings library disk deeds rfl a ha
    exact exists_load_later settings library disk deeds (c.actions_subset _ ha)

end Session
end Gamebook
