/-
# Play and readiness

A play begins only when all references are resolved.  That is looked up in the
references alone, not in what linking does then: a call that fails at a load-time
action has resolved them.

A session whose references are all resolved owes this to the call that linked it last,
and nothing was loaded since.  All its adventures are ready if that call succeeded, and
otherwise it failed at a load-time action (`Session.ready_iff_linked`); then a play
begins although an adventure is not ready (`Session.run_unready`).
-/

import Gamebook.Proofs.Initialising
import Gamebook.Proofs.Interleaving
import Gamebook.Proofs.Passages

namespace Gamebook
namespace Session

variable {s : Session} {document : Json} {a : Adventure} {scenes : List Scene}

/-- Scenes that belong to no adventure change no reference of one. -/
theorem isLinked_withStray (h : s.story.Sound) : (s.withStray scenes).isLinked = s.isLinked := by
  have hreferences : (s.withStray scenes).story.references = s.story.references := by
    refine List.map_congr_left fun a ha => (Registry.view_append fun i hi => ?_).1
    exact (h.registered (a.name, a.scenes) (List.mem_map_of_mem ha) i hi).1
  rw [Bool.eq_iff_iff, isLinked, isLinked, Story.isLinked_iff, Story.isLinked_iff, hreferences]

/-- A session with a new adventure is not linked. -/
theorem isLinked_extend_eq_false (h : a.CompiledFrom document scenes)
    (more : List (Adventure × List Scene)) :
    (s.extend ((a, scenes) :: more)).isLinked = false := by
  obtain ⟨record, c, -, hcompiled⟩ := h
  obtain ⟨hstart, -⟩ := Adventure.CompiledFromRecord.unresolved ⟨c, hcompiled⟩
  rw [Bool.eq_false_iff]
  intro hlinked
  have ha : a ∈ (s.extend ((a, scenes) :: more)).story.adventures :=
    List.mem_append_right _ (List.mem_cons_self ..)
  have hresolved := Story.isLinked_iff.1 hlinked _ (List.mem_map_of_mem ha) a.start
    (List.mem_cons_self ..)
  rw [hstart] at hresolved
  contradiction

end Session

/-- A call that leaves a session linked without linking it found it linked and loaded
nothing. -/
theorem Call.Leaves.isLinked {c : Call} {s t : Session} (h : c.Leaves s t) (hne : c ≠ .link)
    (hs : s.story.Sound) (ht : t.isLinked = true) : s.isLinked = true ∧ t.names = s.names := by
  cases h with
  | linked => contradiction
  | same hstory =>
    rw [Session.isLinked, hstory] at ht
    exact ⟨ht, by rw [Session.names, Session.names, hstory]⟩
  | loaded found loads =>
    cases loads with
    | refused => exact ⟨ht, rfl⟩
    | strayed => exact ⟨Session.isLinked_withStray hs ▸ ht, rfl⟩
    | entered admitted =>
      rw [Session.isLinked_extend_eq_false admitted.compiled] at ht
      contradiction

namespace Session

variable {s : Session}

/-- Whether the load-time actions of all adventures are completed. -/
def Initialised (s : Session) : Prop := ∀ name ∈ s.names, name ∈ s.ready

/-- A deed that does not link has to find a session linked to leave it so, and it
completes no load-time actions. -/
theorem isLinked_of_next {d : Deed} (hne : d ≠ .call .link) (hs : s.story.Sound)
    (h : (s.next d).isLinked = true) :
    s.isLinked = true ∧ ((s.next d).Initialised ↔ s.Initialised) := by
  cases d with
  | write store => exact ⟨h, .rfl⟩
  | call c =>
    have hc : c ≠ .link := fun hc => hne (hc ▸ rfl)
    obtain ⟨hlinked, hnames⟩ := (c.leaves s).1.isLinked hc hs h
    refine ⟨hlinked, ?_⟩
    rw [Initialised, Initialised, next, hnames, Call.ready_answer hc]

/-- A call that leaves a session linked has resolved all references.  It has succeeded
just if all adventures are ready, and otherwise failed at a load-time action. -/
theorem initialised_next_link (hs : s.story.Sound)
    (h : (s.next (.call .link)).isLinked = true) :
    ((s.next (.call .link)).Initialised ↔ s.stopsAtAction (.call .link) = false) ∧
      (s.stopsAtAction (.call .link) = false ↔ (Request.link.answer s).1 = .ok ()) := by
  have hlinks := Request.links s
  rw [next, Call.answer] at h ⊢
  rw [stopsAtAction]
  generalize Request.link.answer s = answered at hlinks h ⊢
  cases hlinks with
  | unknown failure =>
    have hunlinked := Story.isLinked_linkAt_eq_false hs.identifiers_nodup failure
    exact absurd (hunlinked.symm.trans h) (by simp)
  | tried failure ends =>
    have hattempts : s.attempts =
        Attempt.all s.ready s.story.link.result.adventures s.store := by
      rw [attempts, failure]
    cases ends with
    | through complete =>
      refine ⟨iff_of_true (fun name hname => ?_) rfl, iff_of_true rfl rfl⟩
      obtain ⟨a, (ha : a ∈ s.story.link.result.adventures), rfl⟩ := List.mem_map.1 hname
      have hready := Attempt.mem_ready_of_all (hattempts ▸ complete) a ha
      rwa [← hattempts] at hready
    | stopped mem incomplete =>
      refine ⟨iff_of_false (fun hall => ?_) (by simp), iff_of_false (by simp) (by simp)⟩
      rw [hattempts] at mem
      obtain ⟨-, a, ha, heq⟩ := Attempt.of_mem_all mem
      have hnot := Attempt.not_mem_ready_of_all mem incomplete
      rw [← hattempts, (Prod.mk.inj heq).1] at hnot
      exact hnot (hall a.name (List.mem_map_of_mem ha))

/-- The last call that linked, and all adventures were there already. -/
theorem exists_link_of_isLinked (s : Session) (deeds : List Deed) (hs : s.story.Sound)
    (hfirst : s.isLinked = false) (h : (s.later deeds).isLinked = true) :
    ∃ before behind, deeds = before ++ .call .link :: behind ∧ .call .link ∉ behind ∧
      ((s.later deeds).Initialised ↔ (s.later before).stopsAtAction (.call .link) = false) ∧
      ((s.later before).stopsAtAction (.call .link) = false ↔
        (Request.link.answer (s.later before)).1 = .ok ()) := by
  -- from the last deed backwards: it has linked, or it has found the session linked
  induction deeds using List.reverseRecOn with
  | nil => exact absurd (hfirst.symm.trans h) (by simp)
  | append_singleton deeds d ih =>
    rw [later_append] at h ⊢
    have hsound : (s.later deeds).story.Sound := sound_later hs
    by_cases hd : d = .call .link
    · obtain rfl := hd
      exact ⟨deeds, [], rfl, List.not_mem_nil, initialised_next_link hsound h⟩
    · obtain ⟨hlinked, hnext⟩ := isLinked_of_next hd hsound h
      obtain ⟨before, behind, rfl, hbehind, hinitialised, hanswer⟩ := ih hlinked
      refine ⟨before, behind ++ [d], by simp, ?_, hnext.trans hinitialised, hanswer⟩
      simp [hbehind, Ne.symm hd]

/-- A session that starts is not linked. -/
theorem isLinked_start (settings : Settings) (library : Option Library) (disk : Disk) :
    (start settings library disk).isLinked = false := by
  show Story.opening.isLinked = false
  decide +kernel

/-- A play that the check stops shows nothing, reads nothing and assigns nothing. -/
theorem run_of_not_isLinked {name : String} {a : Adventure} (ha : s.story.find? name = some a)
    (h : s.isLinked = false) (answers : List String) :
    s.run name answers = (⟨[], 0, .error (.impasse .notLinked), s.store⟩, s) := by
  have hbegin : s.begin a = .fault s.store (.impasse .notLinked) := by
    rw [begin, h]
    rfl
  rw [run_eq ha, hbegin, Stage.play_fault]

/-- Where no deed fails, each one goes through when its turn comes. -/
theorem stopsAtAction_of_failures_eq_zero {before behind : List Deed} {d : Deed}
    (h : s.failures (before ++ d :: behind) = 0) : (s.later before).stopsAtAction d = false := by
  induction before generalizing s with
  | nil => exact Bool.toNat_eq_zero.1 (Nat.add_eq_zero_iff.1 h).1
  | cons _ before ih => exact ih (Nat.add_eq_zero_iff.1 h).2

/-- **A play begins after the last call that linked.**  Let a host do whatever it likes,
and then play a loaded adventure.  If a reference is unresolved, the play fails, and
nothing is shown, read or assigned.  Otherwise some call has linked, nothing was loaded
behind the last such call, and it has succeeded or failed at a load-time action.  In the
first case the load-time actions of all adventures are completed, in the second they are
not.  So they are completed before any play, as long as no call fails at a load-time
action. -/
theorem ready_iff_linked (settings : Settings) (library : Option Library) (disk : Disk)
    (deeds : List Deed) :
    let s := start settings library disk
    let t := s.later deeds
    (t.isLinked = false → ∀ name answers a, t.story.find? name = some a →
      t.run name answers = (⟨[], 0, .error (.impasse .notLinked), t.store⟩, t)) ∧
    (t.isLinked = true → ∃ before behind,
      deeds = before ++ .call .link :: behind ∧ .call .link ∉ behind ∧
      (t.Initialised ↔ (s.later before).stopsAtAction (.call .link) = false) ∧
      ((s.later before).stopsAtAction (.call .link) = false ↔
        (Request.link.answer (s.later before)).1 = .ok ())) ∧
    (t.isLinked = true → s.failures deeds = 0 → t.Initialised) := by
  intro s t
  have hlast := s.exists_link_of_isLinked deeds Story.sound_opening
    (isLinked_start settings library disk)
  refine ⟨fun h name answers a ha => run_of_not_isLinked ha h answers, hlast, fun h hnone => ?_⟩
  obtain ⟨before, behind, rfl, -, hinitialised, -⟩ := hlast h
  exact hinitialised.2 (stopsAtAction_of_failures_eq_zero hnone)

/-- Linking fails at the action of an adventure, and a play of it begins. -/
theorem run_unready :
    let document : Json := AdventureRecord.toJson
      { name := "a", title := "T", version := 1, actions := ["x = y"], startingScene := "start",
        scenes := [{ name := "start", title := "S", content := ["c"], options :=
          [{ label := "leave", target := "inkspire:pass" }] }] }
    let s : Session := .start { sceneSpacing := 0 } none {}
    let t := s.later [.call (.load (.given document none)), .call .link]
    t.ready = ["inkspire"] ∧ t.isLinked = true ∧
      (t.run "a" [""]).1.lines =
        ["S", "c", "You leave", "Press enter to continue...", "You win"] ∧
      (t.run "a" [""]).1.result.toOption = some .passed := by
  decide +kernel

end Session
end Gamebook
