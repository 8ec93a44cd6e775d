/-
# Taking a choice

A play that waits has offered the choices of a registered scene (`Offers`): the only
one, which any line takes, or a menu.  The menu has the open choices apart from the
others, by the variables that the play still has when a line takes one of them.  So what
is taken from a menu is open (`Stage.taken_open_unless_only`).

A scene with several choices of which none is open ends the play before a line is read.
The condition of an only choice is not looked at: it is offered and taken whether it is
open or not (`Session.takes_closed_choice`).
-/

import Gamebook.Proofs.Deeds
import Gamebook.Proofs.Passages

namespace Gamebook

/-! ## Open choices -/

namespace Choice

variable {s : Store} {choices available unavailable : List Choice}

/-- What is set apart as available is open. -/
theorem of_mem_available (h : partition s choices = .ok (available, unavailable)) :
    ∀ c ∈ available, c ∈ choices ∧ c.isOpen s = .ok true := by
  induction choices generalizing available unavailable with
  | nil =>
    obtain ⟨rfl, rfl⟩ : [] = available ∧ [] = unavailable := by simpa [partition] using h
    exact nofun
  | cons c choices ih =>
    rw [partition] at h
    obtain ⟨isOpen, hopen, h⟩ := Grammar.exists_of_bind_eq_ok h
    obtain ⟨⟨opened, closed⟩, hrest, h⟩ := Grammar.exists_of_bind_eq_ok h
    have hold : ∀ other ∈ opened, other ∈ c :: choices ∧ other.isOpen s = .ok true :=
      fun other hother =>
        ⟨List.mem_cons_of_mem _ (ih hrest other hother).1, (ih hrest other hother).2⟩
    cases isOpen with
    | true =>
      obtain ⟨rfl, -⟩ : c :: opened = available ∧ closed = unavailable :=
        Prod.mk.inj (Except.ok.inj h)
      exact List.forall_mem_cons.2 ⟨⟨List.mem_cons_self .., hopen⟩, hold⟩
    | false =>
      obtain ⟨rfl, -⟩ : opened = available ∧ c :: closed = unavailable :=
        Prod.mk.inj (Except.ok.inj h)
      exact hold

/-- Where the conditions of choices can be evaluated, they are set apart by them. -/
theorem partition_eq {isOpen : Choice → Bool} (h : ∀ c ∈ choices, c.isOpen s = .ok (isOpen c)) :
    partition s choices = .ok (choices.filter isOpen, choices.filter fun c => !isOpen c) := by
  induction choices with
  | nil => rfl
  | cons c choices ih =>
    obtain ⟨hc, hrest⟩ := List.forall_mem_cons.1 h
    rw [partition, hc, ih hrest]
    cases hopen : isOpen c <;> simp [hopen, bind, Except.bind, pure, Except.pure]

/-- Where no choice is open, none is available. -/
theorem partition_of_closed (h : ∀ c ∈ choices, c.isOpen s = .ok false) :
    partition s choices = .ok ([], choices) := by
  rw [partition_eq h]
  simp

end Choice

/-! ## Offers -/

/-- The choice that a line takes. -/
def Prompt.takes? : Prompt → String → Option Choice
  | .anyLine c, _ => some c
  | .number m, line => m.choose? line

/-- What a scene is offered as: its only choice, or a menu of several of which some are
open. -/
inductive Offers (s : Store) (scene : Scene) : Prompt → Prop
  | only {c : Choice} (only : scene.choices = [c]) : Offers s scene (.anyLine c)
  | menu {m : Menu} (several : 2 ≤ scene.choices.length)
      (apart : Choice.partition s scene.choices = .ok (m.available, m.unavailable))
      (some_open : m.available ≠ []) : Offers s scene (.number m)

/-- What a line takes is the only choice or an open one. -/
theorem Offers.of_takes {s : Store} {scene : Scene} {prompt : Prompt} {line : String} {c : Choice}
    (h : Offers s scene prompt) (hc : prompt.takes? line = some c) :
    c ∈ scene.choices ∧ (c.isOpen s = .ok true ∨ scene.choices = [c]) := by
  cases h with
  | only only =>
    obtain rfl := Option.some.inj hc
    exact ⟨only ▸ List.mem_singleton_self _, .inr only⟩
  | menu _ apart _ =>
    obtain ⟨hmem, hopen⟩ := Choice.of_mem_available apart c (Menu.mem_available_of_choose? hc)
    exact ⟨hmem, .inl hopen⟩

/-- Whether a passage, if it waits, has offered a registered scene. -/
def Passage.OffersScene (r : Registry) (p : Passage) : Prop :=
  ∀ w, p.progress = .waiting w → ∃ scene, r.find? w.scene = some scene ∧ Offers p.store scene w.prompt

namespace Passage

variable {r : Registry}

/-- A passage that a fault stops offers nothing. -/
theorem offersScene_fault (s : Store) (f : Fault) : (fault s f).OffersScene r := nofun

/-- Lines in front of a passage do not change what it offers. -/
theorem OffersScene.after {p : Passage} (h : p.OffersScene r) (lines : List String) :
    (p.after lines).OffersScene r := h

end Passage

namespace Stage

variable {g : Stage} {history : History Identifier} {s : Store} {scene : Scene} {i : Identifier}

/-- Where the choices of a scene are offered, it is a registered scene that offers them. -/
theorem offersScene_offer (h : g.registry.find? i = some scene) :
    (g.offer history s scene).OffersScene g.registry := by
  obtain ⟨-, rfl⟩ := Registry.mem_of_find? h
  unfold offer
  dsimp only
  split
  · exact Passage.offersScene_fault _ _
  · rename_i c hchoices
    split
    · exact Passage.offersScene_fault _ _
    · rintro w ⟨⟩
      exact ⟨scene, h, .only hchoices⟩
  · rename_i hnone hone
    have hseveral : 2 ≤ scene.choices.length := by
      rcases hchoices : scene.choices with _ | ⟨c, _ | ⟨c', rest⟩⟩
      · exact absurd hchoices hnone
      · exact absurd hchoices (hone c)
      · simp
    split
    · exact Passage.offersScene_fault _ _
    · exact Passage.offersScene_fault _ _
    · rename_i available unavailable hsome hapart
      split
      · exact (Passage.offersScene_fault _ _).after _
      -- the menu waits with the same store that the choices were set apart by
      · rintro w ⟨⟩
        exact ⟨scene, h, .menu hseveral hapart hsome⟩

/-- Entering a registered scene offers its choices, or those of no scene. -/
theorem offersScene_enter (h : g.registry.find? i = some scene) :
    (g.enter history s scene).OffersScene g.registry := by
  unfold enter
  split
  · exact Passage.offersScene_fault _ _
  · dsimp only
    split
    · exact (Passage.offersScene_fault _ _).after _
    · exact (offersScene_offer h).after _

/-- Arriving somewhere offers the choices of a registered scene, or none. -/
theorem offersScene_arrive (history : History Identifier) (s : Store) (target : Identifier) :
    (g.arrive history s target).OffersScene g.registry := by
  unfold arrive
  dsimp only
  split
  · exact Passage.offersScene_fault _ _
  · split
    · rename_i control _
      cases control <;> exact nofun
    · rename_i j _ _ _ _
      rw [Registry.resolve]
      cases hscene : g.registry.find? j with
      | none => exact Passage.offersScene_fault _ _
      | some scene => exact offersScene_enter hscene

/-- Taking a choice offers the choices of a registered scene, or none. -/
theorem offersScene_take (p : Play) (s : Store) (c : Choice) :
    (g.take p s c).OffersScene g.registry := by
  unfold take
  split
  · exact Passage.offersScene_fault _ _
  · split
    · exact Passage.offersScene_fault _ _
    · exact offersScene_arrive _ _ _

/-- A line that takes a choice leads where the choice leads. -/
theorem answer_of_takes {p : Play} {line : String} {c : Choice} (h : p.prompt.takes? line = some c) :
    g.answer p s line = g.take p s c := by
  unfold answer
  cases hprompt : p.prompt with
  | anyLine only =>
    rw [hprompt] at h
    rw [Option.some.inj h]
  | number menu =>
    rw [hprompt] at h
    simp only [show menu.choose? line = some c from h]

/-- A line that takes no choice changes nothing. -/
theorem answer_of_not_takes {p : Play} {line : String} (h : p.prompt.takes? line = none) :
    ∃ lines, g.answer p s line = ⟨lines, s, .waiting p⟩ := by
  unfold answer
  cases hprompt : p.prompt with
  | anyLine only =>
    rw [hprompt] at h
    contradiction
  | number menu =>
    rw [hprompt] at h
    simp only [show menu.choose? line = none from h]
    exact ⟨_, rfl⟩

/-- A line leads to a passage that has offered a scene. -/
theorem OffersScene.answer {p : Passage} {w : Play} (h : p.OffersScene g.registry)
    (hw : p.progress = .waiting w) (line : String) :
    (g.answer w p.store line).OffersScene g.registry := by
  cases htakes : w.prompt.takes? line with
  | some c => exact answer_of_takes htakes ▸ offersScene_take w p.store c
  | none =>
    obtain ⟨lines, hanswer⟩ := answer_of_not_takes (g := g) (s := p.store) htakes
    rw [hanswer]
    rintro _ ⟨⟩
    exact h w hw

end Stage

namespace Session

variable {s : Session} {a : Adventure}

/-- The beginning of a play offers the choices of a registered scene, or none. -/
theorem offersScene_begin (s : Session) (a : Adventure) :
    (s.begin a).OffersScene s.story.registry := by
  unfold begin
  split
  · exact Passage.offersScene_fault _ _
  · split
    · exact Passage.offersScene_fault _ _
    · split
      · exact Passage.offersScene_fault _ _
      · exact Stage.offersScene_arrive (g := s.stage a) _ _ _

/-- **Where a play waits, it has offered a registered scene.** -/
theorem offersScene_of_mem_passages (s : Session) (a : Adventure) (answers : List String) :
    ∀ p ∈ s.passages a answers, p.OffersScene s.story.registry :=
  Stage.passages_induction (s.offersScene_begin a) fun _ _ line h hw =>
    Stage.OffersScene.answer (g := s.stage a) h hw line

end Session

/-! ## Scenes without open choices -/

namespace Stage

variable {g : Stage} {history : History Identifier} {s : Store} {scene : Scene}

/-- The fault of a scene that has no open choice. -/
def noWayOn (scene : Scene) : Fault :=
  if scene.choices.isEmpty then .impasse (.noChoice scene.identifier.canonical)
  else .impasse (.noOpenChoice scene.identifier.canonical)

/-- Choices of which none is open, and that are not a single one, are not offered. -/
theorem offer_of_closed (hclosed : ∀ c ∈ scene.choices, c.isOpen s = .ok false)
    (hlength : scene.choices.length ≠ 1) : g.offer history s scene = .fault s (noWayOn scene) := by
  have hpartition := Choice.partition_of_closed hclosed
  unfold offer noWayOn
  rcases hchoices : scene.choices with _ | ⟨c, _ | ⟨c', rest⟩⟩
  · rfl
  · exact absurd (congrArg List.length hchoices) hlength
  · rw [hchoices] at hpartition
    simp only [hpartition]
    rfl

/-- The lines that a scene is entered with. -/
def entrance (g : Stage) (lines : List String) : List String :=
  List.replicate g.settings.sceneSpacing.toNat "" ++ lines

/-- A scene that can be shown is shown before its choices are offered. -/
theorem enter_of_ok {t : Store} {lines : List String}
    (hactions : Action.runAll scene.actions s = (none, t))
    (hlines : scene.narration g.placeholder t = .ok lines) :
    g.enter history s scene = (g.offer history t scene).after (g.entrance lines) := by
  simp only [enter, hactions, hlines]
  rfl

/-- An only choice waits for any line, open or not. -/
theorem offer_of_only {c : Choice} {label : String} (hchoices : scene.choices = [c])
    (hlabel : c.label.render g.placeholder s = .ok label) :
    g.offer history s scene =
      ⟨Menu.single label, s, .waiting ⟨scene.identifier, history, .anyLine c⟩⟩ := by
  simp only [offer, hchoices, hlabel]

end Stage

namespace Session

/-- **What is taken is open, or there is nothing else.**  Let any adventure of a session
be played with any lines.  Where the play waits, it has offered a registered scene.  A
line that takes nothing leaves all as it is, so the variables are still those by which
the choices were offered when a line takes one; that is a choice of the scene, and it is
open unless it is the only one.  A scene with several choices or none does not wait when
none of them is open: when it is shown, the play ends, and nothing is read.  An only
choice is offered to any line, whatever its condition. -/
theorem taken_open_unless_only (s : Session) (a : Adventure) (answers : List String) :
    (∀ name, s.story.find? name = some a → ∃ last ∈ s.passages a answers,
      (s.run name answers).1 =
        ⟨(s.passages a answers).flatMap (·.lines),
          (s.passages a answers).countP (·.progress.isWaiting), last.progress.result,
          last.store⟩) ∧
    (∀ p ∈ s.passages a answers, ∀ w, p.progress = .waiting w →
      ∃ scene, s.story.registry.find? w.scene = some scene ∧ ∀ line,
        (w.prompt.takes? line = none →
          ∃ lines, (s.stage a).answer w p.store line = ⟨lines, p.store, .waiting w⟩) ∧
        ∀ c, w.prompt.takes? line = some c →
          (s.stage a).answer w p.store line = (s.stage a).take w p.store c ∧
          c ∈ scene.choices ∧ (c.isOpen p.store = .ok true ∨ scene.choices = [c])) ∧
    ∀ (g : Stage) (history : History Identifier) (store after : Store) (scene : Scene)
      (lines : List String), Action.runAll scene.actions store = (none, after) →
      scene.narration g.placeholder after = .ok lines →
      ((∀ c ∈ scene.choices, c.isOpen after = .ok false) → scene.choices.length ≠ 1 →
        g.play answers (g.enter history store scene) =
          ⟨g.entrance lines, 0, .error (Stage.noWayOn scene), after⟩) ∧
      ∀ c label, scene.choices = [c] → c.label.render g.placeholder after = .ok label →
        g.enter history store scene =
          ⟨g.entrance lines ++ Menu.single label, after,
            .waiting ⟨scene.identifier, history, .anyLine c⟩⟩ := by
  refine ⟨fun name ha => ?_, fun p hp w hw => ?_,
    fun g history store after scene lines hactions hlines => ⟨?_, ?_⟩⟩
  · refine ⟨_, (s.stage a).reach_mem_passages answers (s.begin a), ?_⟩
    rw [run_eq ha, Stage.play_eq]
    rfl
  · obtain ⟨scene, hscene, hoffers⟩ := s.offersScene_of_mem_passages a answers p hp w hw
    refine ⟨scene, hscene, fun line => ⟨Stage.answer_of_not_takes, fun c hc => ?_⟩⟩
    exact ⟨Stage.answer_of_takes hc, hoffers.of_takes hc⟩
  · intro hclosed hlength
    rw [Stage.enter_of_ok hactions hlines, Stage.play_after,
      Stage.offer_of_closed hclosed hlength, Stage.play_fault, List.append_nil]
  · intro c label hchoices hlabel
    rw [Stage.enter_of_ok hactions hlines, Stage.offer_of_only hchoices hlabel]
    rfl

/-- The only choice of a scene is taken, and its condition does not hold. -/
theorem takes_closed_choice :
    let document : Json := AdventureRecord.toJson
      { name := "a", title := "T", version := 1, startingScene := "start",
        scenes := [{ name := "start", title := "S", content := ["c"], options :=
          [{ label := "leave", target := "inkspire:pass", condition := some "1 > 2" }] }] }
    let s : Session := .start { sceneSpacing := 0 } none {}
    let t := s.later [.call (.load (.given document none)), .call .link]
    (t.story.registry.scenes.getLast?.map fun scene =>
        (scene.identifier.canonical, scene.choices.map fun c => (c.isOpen t.store).toOption)) =
      some ("a:start", [some false]) ∧
    (t.run "a" [""]).1.lines = ["S", "c", "You leave", "Press enter to continue...", "You win"] ∧
    (t.run "a" [""]).1.result.toOption = some .passed := by
  decide +kernel

end Session
end Gamebook
