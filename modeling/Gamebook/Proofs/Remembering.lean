/-
# Histories of two sizes

How much is remembered shows in a play only where it goes back and nothing is left to go
back to.  Of two histories of one play, the smaller one holds the latest entries of the
larger one (`History.Recalls`), whatever is visited, forgotten and gone back to.  So two
plays that differ in their capacities go the same way, move by move, until the smaller
history has run out (`Session.same_until_lost`).
-/

import Gamebook.Proofs.Moves
import Mathlib.Data.List.Infix

namespace Gamebook

/-- Whether the play goes back and nothing is left to go back to. -/
def Moment.isLost : Moment → Bool
  | goesBack none => true
  | _ => false

/-! ## Two histories -/

/-- A history recalls another one that holds its latest entries only. -/
structure History.Recalls (many few : History Identifier) : Prop where
  capacity : few.capacity ≤ many.capacity
  latest : few.latest <+: many.latest

/-- A visit keeps the larger history the larger one, whatever both forget. -/
theorem History.Recalls.push {many few : History Identifier} (h : many.Recalls few)
    (i : Identifier) : (many.push i).Recalls (few.push i) where
  capacity := h.capacity
  latest := by
    have hcons : i :: few.latest <+: i :: many.latest := List.cons_prefix_cons.2 ⟨rfl, h.latest⟩
    exact (hcons.take few.capacity).trans (List.take_prefix_take_left h.capacity)

/-- Where plays stand that differ in what they remember. -/
inductive Standing.Recalls : Standing → Standing → Prop
  | before {target : Identifier} {many few : History Identifier} (history : many.Recalls few) :
      Recalls (.before target many) (.before target few)
  | waiting {scene : Identifier} {prompt : Prompt} {many few : History Identifier}
      (history : many.Recalls few) :
      Recalls (.waiting ⟨scene, many, prompt⟩) (.waiting ⟨scene, few, prompt⟩)
  | ended {result : Except Fault Outcome} : Recalls (.ended result) (.ended result)

/-- A play that is over recalls one that is over, with the same result. -/
theorem Standing.Recalls.eq_ended {standing : Standing} {result : Except Fault Outcome}
    (h : standing.Recalls (.ended result)) : standing = .ended result := by
  cases h
  rfl

/-- Plays that differ in what they remember. -/
structure Course.Recalls (many few : Course) : Prop where
  standing : many.standing.Recalls few.standing
  store : many.store = few.store
  answers : many.answers = few.answers

/-- A passage that remembers another history. -/
def Passage.recalling (history : History Identifier) (p : Passage) : Passage :=
  { p with
    progress :=
      match p.progress with
      | .waiting w => .waiting { w with history }
      | .ended o => .ended o
      | .failed f => .failed f }

namespace Stage

variable {g : Stage} {many few : Course} {moments : List Moment} {s : Store} {scene : Scene}
  {history : History Identifier}

/-- What is remembered does not show where a scene is offered. -/
theorem offer_eq_recalling (history other : History Identifier) :
    g.offer other s scene = (g.offer history s scene).recalling other := by
  unfold offer
  dsimp only
  split
  · rfl
  · split <;> rfl
  · split
    · rfl
    · rfl
    · split <;> rfl

/-- What is remembered does not show where a scene is entered. -/
theorem enter_eq_recalling (history other : History Identifier) :
    g.enter other s scene = (g.enter history s scene).recalling other := by
  unfold enter
  split
  · rfl
  · dsimp only
    split
    · rfl
    · rw [offer_eq_recalling history other]
      rfl

/-- Behind an entry, the larger history is still the larger one. -/
theorem recalls_enter {larger smaller : History Identifier} (h : larger.Recalls smaller) :
    (g.enter larger s scene).progress.standing.Recalls
      (g.enter smaller s scene).progress.standing := by
  rw [enter_eq_recalling smaller larger]
  cases hprogress : (g.enter smaller s scene).progress with
  | ended o | failed f =>
    simp [Passage.recalling, hprogress, Progress.standing, Standing.Recalls.ended]
  | waiting p =>
    obtain ⟨-, rfl⟩ := of_waiting_enter hprogress
    simp only [Passage.recalling, hprogress, Progress.standing]
    exact .waiting h

/-- Behind a choice, the larger history is still the larger one. -/
theorem recalls_leave {i : Identifier} {prompt : Prompt} {larger smaller : History Identifier}
    (h : larger.Recalls smaller) (ch : Choice) :
    (leave ⟨i, larger, prompt⟩ s ch).2.Recalls (leave ⟨i, smaller, prompt⟩ s ch).2 ∧
      (leave ⟨i, larger, prompt⟩ s ch).1 = (leave ⟨i, smaller, prompt⟩ s ch).1 := by
  unfold leave
  obtain ⟨e | _, after⟩ := Action.runAll ch.actions s
  · cases ch.target.target with
    | error d => exact ⟨.ended, rfl⟩
    | ok target =>
      refine ⟨.before ?_, rfl⟩
      split
      · exact h
      · exact h.push i
  · exact ⟨.ended, rfl⟩

/-- **The larger history goes along**, unless the smaller one has run out. -/
theorem recalls_makes {d : Course} (h : many.Recalls few) (hmakes : g.Makes few moments d)
    (hkept : ∀ m ∈ moments, m.isLost = false) :
    ∃ e, g.Makes many moments e ∧ e.Recalls d := by
  obtain ⟨standing, s, answers⟩ := many
  obtain ⟨hstanding, hstore, hanswers⟩ := h
  dsimp only at hstanding hstore hanswers
  subst hstore hanswers
  cases hmakes with
  | returns back latest =>
    cases hstanding with
    | before history =>
      obtain ⟨rest, hrest⟩ := history.latest
      rw [latest] at hrest
      refine ⟨_, .returns back hrest.symm, .before ⟨history.capacity, ?_⟩, rfl, rfl⟩
      exact List.prefix_append ..
  | restarts | strands =>
    exact absurd (hkept _ (List.mem_singleton_self _)) (by simp [Moment.isLost])
  | @finishes target smaller s answers control isControl forth =>
    obtain ⟨result, hended⟩ := standing_finish s control
    cases hstanding with
    | before history => exact ⟨_, .finishes isControl forth, hended ▸ .ended, rfl, rfl⟩
  | misses noControl unknown =>
    cases hstanding with
    | before history => exact ⟨_, .misses noControl unknown, .ended, rfl, rfl⟩
  | @enters target smaller s answers scene noControl found =>
    cases hstanding with
    | @before _ larger _ history =>
      have hmakes := @Makes.enters g target larger s answers scene noControl found
      have hrecalls := @recalls_enter g s scene _ _ history
      rw [enter_eq_recalling smaller larger] at hmakes hrecalls
      exact ⟨_, hmakes, hrecalls, rfl, rfl⟩
  | quits =>
    cases hstanding with
    | waiting history => exact ⟨_, .quits, .ended, rfl, rfl⟩
  | repeats nothing =>
    cases hstanding with
    | waiting history => exact ⟨_, .repeats nothing, .waiting history, rfl, rfl⟩
  | @leaves p s line answers ch taken =>
    cases hstanding with
    | @waiting i prompt larger smaller history =>
      obtain ⟨hrecalls, hstore⟩ := @recalls_leave s i prompt _ _ history ch
      have hmakes := @Makes.leaves g ⟨i, larger, prompt⟩ s line answers ch taken
      rw [hstore] at hmakes
      exact ⟨_, hmakes, hrecalls, rfl, rfl⟩

/-- **The larger history goes along until the smaller one has run out.** -/
theorem recalls_moves (h : many.Recalls few) (n : Nat) :
    (g.moves n few).1.takeWhile (fun m => !m.isLost) <+: (g.moves n many).1 ∧
      ((∀ m ∈ (g.moves n few).1, m.isLost = false) →
        (g.moves n many).1 = (g.moves n few).1 ∧ (g.moves n many).2.Recalls (g.moves n few).2) := by
  induction n generalizing many few with
  | zero => exact ⟨List.prefix_rfl, fun _ => ⟨rfl, h⟩⟩
  | succ n ih =>
    cases hmove : g.move few with
    | none =>
      obtain ⟨result, hended⟩ := exists_ended_of_move hmove
      have hmany := (hended ▸ h.standing).eq_ended
      rw [moves_of_ended hended, moves_of_ended hmany]
      exact ⟨List.prefix_rfl, fun _ => ⟨rfl, h⟩⟩
    | some made =>
      obtain ⟨moments, d⟩ := made
      have hmakes := makes_of_move hmove
      rw [moves_succ_of_move hmove]
      by_cases hkept : ∀ m ∈ moments, m.isLost = false
      · obtain ⟨e, hmany, hrecalls⟩ := recalls_makes h hmakes hkept
        obtain ⟨hstart, hsame⟩ := ih hrecalls
        rw [moves_succ_of_move (move_of_makes hmany)]
        constructor
        · rw [List.takeWhile_append_of_pos fun m hm => by simp [hkept m hm]]
          exact (List.prefix_append_right_inj moments).2 hstart
        · intro hall
          obtain ⟨hlog, hlast⟩ := hsame fun m hm => hall m (List.mem_append_right _ hm)
          exact ⟨congrArg (moments ++ ·) hlog, hlast⟩
      -- a move that is lost is nothing else, so that the smaller history agrees on nothing
      · have hlost : moments = [.goesBack none] := by
          cases hmakes with
          | restarts | strands => rfl
          | _ => exact absurd (by simp [Moment.isLost]) hkept
        subst hlost
        refine ⟨List.nil_prefix, fun hall => ?_⟩
        exact absurd (hall _ (List.mem_cons_self ..)) (by simp [Moment.isLost])

/-- Moves depend on what one move does. -/
theorem moves_congr {g' : Stage} (h : ∀ c, g'.move c = g.move c) (n : Nat) (c : Course) :
    g'.moves n c = g.moves n c := by
  induction n generalizing c with
  | zero => rfl
  | succ n ih =>
    rw [moves, moves, h]
    cases g.move c with
    | none => rfl
    | some made => simp only [ih]

end Stage

namespace Session

variable {s : Session} {a : Adventure} {name : String}

/-- A session that remembers another number of scenes. -/
def withCapacity (s : Session) (n : Int) : Session :=
  { s with settings := { s.settings with historyCapacity := n } }

/-- A move does not look at the capacity. -/
theorem moves_withCapacity (s : Session) (a : Adventure) (k : Int) (n : Nat) (c : Course) :
    ((s.withCapacity k).stage a).moves n c = (s.stage a).moves n c := by
  have hmove : ∀ c, ((s.withCapacity k).stage a).move c = (s.stage a).move c := fun _ => rfl
  exact Stage.moves_congr hmove n c

/-- Before the first move, plays differ in how much they can remember. -/
theorem recalls_outset (s : Session) (a : Adventure) (answers : List String) {few many : Int}
    (hpos : 1 ≤ few) (hle : few ≤ many) (hlt : many.toNat < History.capacityLimit) :
    ((s.withCapacity many).outset a answers).Recalls ((s.withCapacity few).outset a answers) := by
  have hfew : History.ofCapacity few = .ok (⟨few.toNat, []⟩ : History Identifier) :=
    History.ofCapacity_eq_ok hpos (by omega)
  have hmany : History.ofCapacity many = .ok (⟨many.toNat, []⟩ : History Identifier) :=
    History.ofCapacity_eq_ok (by omega) hlt
  refine ⟨?_, rfl, rfl⟩
  simp only [outset, withCapacity, isLinked, hfew, hmany]
  split
  · exact .ended
  · split
    · exact .ended
    · exact .before ⟨by simp only; omega, List.nil_prefix⟩

/-- **A capacity matters only when it runs out.**  Let an adventure of a session be played
with any lines, once with one capacity and once with a larger one.  What happens in the two
plays is what they show and read, and the scenes that they enter and the variables that
they leave.  All of this is the same up to the moment when the play with the smaller
capacity goes back and has nothing left to go back to.  Where that moment never comes, all
of it is the same, and the two plays end alike. -/
theorem same_until_lost (answers : List String) (few many : Int)
    (ha : s.story.find? name = some a) (hpos : 1 ≤ few) (hle : few ≤ many)
    (hlt : many.toNat < History.capacityLimit) :
    let small := s.withCapacity few
    let large := s.withCapacity many
    (small.stage a).Completes (3 * answers.length + 3) (small.outset a answers)
      (small.run name answers).1 ∧
    (large.stage a).Completes (3 * answers.length + 3) (large.outset a answers)
      (large.run name answers).1 ∧
    (small.moments a answers).takeWhile (fun m => !m.isLost) <+: large.moments a answers ∧
    ((∀ m ∈ small.moments a answers, m.isLost = false) →
      large.moments a answers = small.moments a answers ∧
      (large.run name answers).1 = (small.run name answers).1) := by
  intro small large
  have hsmall := completes_run (s := small) ha answers
  have hlarge := completes_run (s := large) ha answers
  have hrecalls := s.recalls_outset a answers hpos hle hlt
  have hmoves := Stage.recalls_moves (g := s.stage a) hrecalls (3 * answers.length + 3)
  rw [← s.moves_withCapacity a few, ← s.moves_withCapacity a many] at hmoves
  obtain ⟨hstart, hsame⟩ := hmoves
  refine ⟨hsmall, hlarge, hstart, fun hkept => ?_⟩
  obtain ⟨hlog, hlast⟩ := hsame hkept
  have hstanding := (hsmall.ended ▸ hlast.standing).eq_ended
  exact ⟨hlog, hsmall.eq_of hlarge hlog (hstanding.trans hsmall.ended.symm) hlast.store⟩

/-- Two steps on and two back, which is one step too far for the smaller history. -/
theorem same_until_lost_two_back :
    let on (name target : String) : SceneRecord :=
      { name, title := "S", content := ["c"], options :=
        [{ label := "on", target }, { label := "back", target := "inkspire:back" }] }
    let document : Json := AdventureRecord.toJson
      { name := "a", title := "T", version := 1, startingScene := "attic",
        scenes := [on "attic" "hall", on "hall" "yard", on "yard" "attic"] }
    let s : Session := (Session.start { sceneSpacing := 0 } none {}).later
      [.call (.load (.given document none)), .call .link]
    let answers := ["1", "1", "2", "2", "2"]
    ∃ a, s.story.find? "a" = some a ∧
      ((s.withCapacity 1).moments a answers).countP Moment.isLost = 2 ∧
      ((s.withCapacity 2).moments a answers).countP Moment.isLost = 1 ∧
      (((s.withCapacity 1).moments a answers).takeWhile (fun m => !m.isLost)).countP
        Moment.isEntry = 4 ∧
      ((s.withCapacity 1).moments a answers).takeWhile (fun m => !m.isLost) <+:
        (s.withCapacity 2).moments a answers := by
  intro on document s answers
  have hcounts : (s.story.find? "a").map (fun a =>
      (((s.withCapacity 1).moments a answers).countP Moment.isLost,
        ((s.withCapacity 2).moments a answers).countP Moment.isLost,
        (((s.withCapacity 1).moments a answers).takeWhile (fun m => !m.isLost)).countP
          Moment.isEntry)) = some (2, 1, 4) := by
    decide +kernel
  obtain ⟨a, ha, hcounts⟩ := Option.map_eq_some_iff.1 hcounts
  obtain ⟨hone, hrest⟩ := Prod.mk.inj hcounts
  obtain ⟨htwo, hentries⟩ := Prod.mk.inj hrest
  have hsame := same_until_lost answers 1 2 ha (by decide) (by decide) (by decide)
  exact ⟨a, ha, hone, htwo, hentries, hsame.2.2.1⟩

end Session
end Gamebook
