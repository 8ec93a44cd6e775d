/-
# The pace of a play

A play that enters a scene waits there, or fails; and a line that it then reads takes it
back at most once before it enters the next scene.  Going back leads to no scene that
leads back: those that are remembered were entered, and so is the start, or the play is
over.

So between two entries a line is read, and the play enters one scene more at most than it
reads lines (`Session.entries_le_reads`).
-/

import Gamebook.Proofs.Moves

namespace Gamebook

/-- What happens before a scene is entered. -/
def Moment.stretch (log : List Moment) : List Moment := log.takeWhile fun m => !m.isEntry

/-- Behind an entry a line is read before the next one, or the play fails; and the play
goes back at most once. -/
structure Moment.Followed (log : List Moment) (result : Except Fault Outcome) : Prop where
  read : (∃ m ∈ stretch log, m.isRead) ∨ (∀ m ∈ log, m.isEntry = false) ∧ ∃ f, result = .error f
  back : (stretch log).countP Moment.isBack ≤ 1

/-- All entries of a log are followed. -/
def Moment.Paced (log : List Moment) (result : Except Fault Outcome) : Prop :=
  ∀ before i behind, log = before ++ .enters i :: behind → Followed behind result

namespace Moment

variable {m : Moment} {moments log : List Moment} {result : Except Fault Outcome}

/-- Moments without an entry lengthen the stretch before the first entry. -/
theorem stretch_append (h : ∀ m ∈ moments, m.isEntry = false) :
    stretch (moments ++ log) = moments ++ stretch log :=
  List.takeWhile_append_of_pos fun m hm => by simp [h m hm]

/-- In an empty log no entry is left alone. -/
theorem paced_nil : Paced [] result := fun before i behind h => by simp at h

/-- A moment in front of a log leaves it paced, if the moment is no entry or is followed. -/
theorem Paced.cons (h : Paced log result) (hm : ∀ i, m = .enters i → Followed log result) :
    Paced (m :: log) result := by
  intro before i behind hlog
  rcases List.cons_eq_append_iff.1 hlog with ⟨rfl, hlog⟩ | ⟨before, rfl, hrest⟩
  · obtain ⟨rfl, rfl⟩ := List.cons.inj hlog
    exact hm i rfl
  · exact h before i behind hrest

/-- Moments without an entry leave a log paced that comes behind them. -/
theorem Paced.append (h : Paced log result) (hmoments : ∀ m ∈ moments, m.isEntry = false) :
    Paced (moments ++ log) result := by
  induction moments with
  | nil => exact h
  | cons m moments ih =>
    obtain ⟨hm, hmoments⟩ := List.forall_mem_cons.1 hmoments
    refine (ih hmoments).cons fun i hi => ?_
    rw [hi] at hm
    contradiction

end Moment

/-- How often a play can still go back before it enters a scene. -/
def Standing.backs : Standing → Nat
  | .before target _ => if Control.of? target = some .back then 1 else 0
  | .waiting _ => 1
  | .ended _ => 0

/-- How many scenes a play can still enter before it reads a line. -/
def Standing.entries : Standing → Nat
  | .before _ _ => 1
  | .waiting _ | .ended _ => 0

/-- A play can go back once at most before it enters a scene. -/
theorem Standing.backs_le_one (standing : Standing) : standing.backs ≤ 1 := by
  cases standing with
  | before target history =>
    rw [backs]
    split <;> decide
  | waiting p => exact Nat.le_refl 1
  | ended result => exact Nat.zero_le 1

/-- A play can enter one scene at most before it reads a line. -/
theorem Standing.entries_le_one (standing : Standing) : standing.entries ≤ 1 := by
  cases standing <;> simp [entries]

namespace Stage

variable {g : Stage} {c d : Course} {moments log : List Moment}
  {result : Except Fault Outcome} {history : History Identifier} {s : Store} {scene : Scene}

/-- No play ends where a scene is offered. -/
theorem progress_offer (g : Stage) (history : History Identifier) (s : Store) (scene : Scene) :
    (∃ p, (g.offer history s scene).progress = .waiting p) ∨
      ∃ f, (g.offer history s scene).progress = .failed f := by
  unfold offer
  dsimp only
  split
  · exact .inr ⟨_, rfl⟩
  · split
    · exact .inr ⟨_, rfl⟩
    · exact .inl ⟨_, rfl⟩
  · split
    · exact .inr ⟨_, rfl⟩
    · exact .inr ⟨_, rfl⟩
    · split
      · exact .inr ⟨_, rfl⟩
      · exact .inl ⟨_, rfl⟩

/-- A play that enters a scene waits there, or fails. -/
theorem progress_enter (g : Stage) (history : History Identifier) (s : Store) (scene : Scene) :
    (∃ p, (g.enter history s scene).progress = .waiting p) ∨
      ∃ f, (g.enter history s scene).progress = .failed f := by
  unfold enter
  split
  · exact .inr ⟨_, rfl⟩
  · dsimp only
    split
    · exact .inr ⟨_, rfl⟩
    · exact progress_offer ..

/-- What is known of a log by where the play stands. -/
structure Steady (c : Course) (log : List Moment) (result : Except Fault Outcome) : Prop where
  ended : ∀ r, c.standing = .ended r → log = [] ∧ result = r
  waiting : ∀ p, c.standing = .waiting p → ∃ m ∈ Moment.stretch log, m.isRead
  backs : (Moment.stretch log).countP Moment.isBack ≤ c.standing.backs
  entries : log.countP Moment.isEntry ≤ log.countP Moment.isRead + c.standing.entries
  paced : Moment.Paced log result

/-- Behind the end of a play nothing happens. -/
theorem steady_of_ended {r : Except Fault Outcome} (h : c.standing = .ended r) : Steady c [] r where
  ended r' hr' := ⟨rfl, Standing.ended.inj (h.symm.trans hr')⟩
  waiting p hp := by rw [h] at hp; contradiction
  backs := Nat.zero_le _
  entries := Nat.zero_le _
  paced := Moment.paced_nil

/-- What happens without an entry keeps the pace, if it pays for what can still come. -/
theorem Steady.prepend (h : Steady d log result) (hmoments : ∀ m ∈ moments, m.isEntry = false)
    (hended : ∀ r, c.standing ≠ .ended r)
    (hwaiting : ∀ p, c.standing = .waiting p → ∃ m ∈ moments, m.isRead)
    (hbacks : moments.countP Moment.isBack + d.standing.backs ≤ c.standing.backs)
    (hentries : d.standing.entries ≤ moments.countP Moment.isRead + c.standing.entries) :
    Steady c (moments ++ log) result where
  ended r hr := absurd hr (hended r)
  waiting p hp := by
    obtain ⟨m, hm, hread⟩ := hwaiting p hp
    rw [Moment.stretch_append hmoments]
    exact ⟨m, List.mem_append_left _ hm, hread⟩
  backs := by
    have := h.backs
    rw [Moment.stretch_append hmoments, List.countP_append]
    omega
  entries := by
    have hnone : moments.countP Moment.isEntry = 0 :=
      List.countP_eq_zero.2 fun m hm => by simp [hmoments m hm]
    have := h.entries
    rw [List.countP_append, List.countP_append, hnone]
    omega
  paced := h.paced.append hmoments

/-- Showing lines enters no scene. -/
theorem isEntry_of_mem_shows {lines : List String} :
    ∀ m ∈ lines.map Moment.shows, m.isEntry = false := by
  simp [Moment.isEntry]

/-- Showing lines goes back nowhere. -/
theorem countP_isBack_shows (lines : List String) :
    (lines.map Moment.shows).countP Moment.isBack = 0 := by
  simp [Moment.isBack]

/-- What an entry shows is followed by a line that is read, or by nothing. -/
theorem Steady.followed_enter {answers : List String}
    (h : Steady ⟨(g.enter history s scene).progress.standing,
      (g.enter history s scene).store, answers⟩ log result)
    (hmoments : ∀ m ∈ moments, m.isEntry = false) (hbacks : moments.countP Moment.isBack = 0) :
    Moment.Followed (moments ++ log) result := by
  constructor
  · obtain ⟨p, hp⟩ | ⟨f, hf⟩ := progress_enter g history s scene
    · obtain ⟨m, hm, hread⟩ := h.waiting p (congrArg Progress.standing hp)
      rw [Moment.stretch_append hmoments]
      exact .inl ⟨m, List.mem_append_right _ hm, hread⟩
    · obtain ⟨rfl, rfl⟩ := h.ended (.error f) (congrArg Progress.standing hf)
      rw [List.append_nil]
      exact .inr ⟨hmoments, f, rfl⟩
  · have hone := h.backs.trans (Standing.backs_le_one _)
    rw [Moment.stretch_append hmoments, List.countP_append, hbacks, Nat.zero_add]
    exact hone

/-- **A move keeps the pace.** -/
theorem Steady.of_makes (h : Steady d log result) (hmakes : g.Makes c moments d)
    (hclear : c.IsClear) : Steady c (moments ++ log) result := by
  cases hmakes with
  | returns back latest =>
    have hlast := hclear _ (latest ▸ List.mem_cons_self ..)
    refine h.prepend (List.forall_mem_singleton.2 rfl) (by simp) (by simp) ?_ ?_
    · simp [Standing.backs, Moment.isBack, back, hlast]
    · simp [Standing.entries]
  | restarts back latest start =>
    refine h.prepend (List.forall_mem_singleton.2 rfl) (by simp) (by simp) ?_ ?_
    · simp [Standing.backs, Moment.isBack, back, start]
    · simp [Standing.entries]
  | strands back latest start =>
    refine h.prepend (List.forall_mem_singleton.2 rfl) (by simp) (by simp) ?_ ?_
    · simp [Standing.backs, Moment.isBack, back]
    · simp [Standing.entries]
  | @finishes target history s answers control isControl forth =>
    obtain ⟨r, hended⟩ := standing_finish s control
    refine h.prepend isEntry_of_mem_shows (by simp) (by simp) ?_ ?_
    · rw [countP_isBack_shows, hended]
      exact Nat.zero_le _
    · rw [hended]
      exact Nat.zero_le _
  | misses noControl unknown =>
    refine h.prepend (List.forall_mem_nil _) (by simp) (by simp) ?_ ?_
    · simp [Standing.backs]
    · simp [Standing.entries]
  | @enters target history s answers scene noControl found =>
    have hquiet : ∀ m ∈ .assigns (g.enter history s scene).store ::
        (g.enter history s scene).lines.map Moment.shows, m.isEntry = false :=
      List.forall_mem_cons.2 ⟨rfl, isEntry_of_mem_shows⟩
    have hfollowed := h.followed_enter hquiet (countP_isBack_shows _)
    have hnone := List.countP_eq_zero.2 fun m hm => Bool.eq_false_iff.1 (hquiet m hm)
    have hentries : (g.enter history s scene).progress.standing.entries = 0 := by
      obtain ⟨p, hp⟩ | ⟨f, hf⟩ := progress_enter g history s scene
      · rw [hp]
        rfl
      · rw [hf]
        rfl
    exact {
      ended := by simp
      waiting := by simp
      backs := Nat.zero_le _
      entries := by
        have := h.entries
        rw [hentries] at this
        rw [List.countP_append, List.countP_append, List.countP_cons, hnone]
        simp only [Standing.entries, Moment.isEntry, if_true]
        omega
      paced := (h.paced.append hquiet).cons fun i _ => hfollowed }
  | quits =>
    refine h.prepend (List.forall_mem_singleton.2 rfl) (by simp) ?_ (Nat.zero_le _) (Nat.zero_le _)
    exact fun p hp => ⟨_, List.mem_singleton_self _, rfl⟩
  | @repeats p s line answers nothing =>
    refine h.prepend (List.forall_mem_cons.2 ⟨rfl, isEntry_of_mem_shows⟩) (by simp) ?_ ?_ ?_
    · exact fun p hp => ⟨_, List.mem_cons_self .., rfl⟩
    · rw [List.countP_cons, countP_isBack_shows]
      exact Nat.le_refl _
    · exact Nat.zero_le _
  | @leaves p s line answers ch taken =>
    refine h.prepend (by simp [Moment.isEntry]) (by simp) ?_ ?_ ?_
    · exact fun p hp => ⟨_, List.mem_cons_self .., rfl⟩
    · exact (Nat.zero_add _).symm ▸ (leave p s ch).2.backs_le_one
    · exact (leave p s ch).2.entries_le_one

end Stage

namespace Session

variable {s : Session} {a : Adventure} {name : String}

/-- **A play keeps its pace.** -/
theorem steady_moments (ha : s.story.find? name = some a) (answers : List String) :
    Stage.Steady (s.outset a answers) (s.moments a answers) (s.run name answers).1.result :=
  moments_induction (fun _ _ => Stage.steady_of_ended)
    (fun _ _ _ _ _ hclear hmakes h => h.of_makes hmakes hclear) ha answers

/-- **A play always gets on.**  Let an adventure of a session be played with any lines,
whatever its scenes are and wherever they lead.  The play is over after three moves for
each line and three more, and it has shown and read what happened in them.  When it enters
a scene, it reads a line before it enters the next one, or else it fails and enters no
other; and it goes back once at most in between.  So it enters one scene more at most than
it reads lines. -/
theorem entries_le_reads (answers : List String) (ha : s.story.find? name = some a) :
    let log := s.moments a answers
    let t := (s.run name answers).1
    (s.stage a).Completes (3 * answers.length + 3) (s.outset a answers) t ∧
    (∀ before i behind, log = before ++ .enters i :: behind →
      ((∃ m ∈ Moment.stretch behind, m.isRead) ∨
        (∀ m ∈ behind, m.isEntry = false) ∧ ∃ f, t.result = .error f) ∧
      (Moment.stretch behind).countP Moment.isBack ≤ 1) ∧
    log.countP Moment.isEntry ≤ t.reads + 1 := by
  intro log t
  have hcompletes : (s.stage a).Completes _ _ t := completes_run ha answers
  have hsteady := steady_moments ha answers
  refine ⟨hcompletes, fun before i behind hlog => ?_, ?_⟩
  · obtain ⟨read, back⟩ := hsteady.paced before i behind hlog
    exact ⟨read, back⟩
  · rw [← hcompletes.reads]
    exact hsteady.entries.trans (Nat.add_le_add_left (Standing.entries_le_one _) _)

/-- A play that goes round, then back, then back to its start, and takes no choice. -/
theorem entries_le_reads_round :
    let document : Json := AdventureRecord.toJson
      { name := "a", title := "T", version := 1, startingScene := "hall",
        scenes := [{ name := "hall", title := "S", content := ["c"], options :=
          [{ label := "round", target := "hall" },
            { label := "back", target := "inkspire:back" }] }] }
    let s : Session := (Session.start { sceneSpacing := 0 } none {}).later
      [.call (.load (.given document none)), .call .link]
    let answers := ["1", "2", "2", "leave"]
    ∃ a, s.story.find? "a" = some a ∧ s.isLinked = true ∧
      (s.moments a answers).countP Moment.isBack = 2 ∧
      (s.moments a answers).countP Moment.isEntry = 4 ∧ (s.run "a" answers).1.reads = 5 ∧
      (s.moments a answers).countP Moment.isEntry ≤ (s.run "a" answers).1.reads + 1 := by
  intro document s answers
  obtain ⟨hlinked, hcounts, hreads⟩ : s.isLinked = true ∧
      (s.story.find? "a").map (fun a => ((s.moments a answers).countP Moment.isBack,
        (s.moments a answers).countP Moment.isEntry)) = some (2, 4) ∧
      (s.run "a" answers).1.reads = 5 := by
    decide +kernel
  obtain ⟨a, ha, hcounts⟩ := Option.map_eq_some_iff.1 hcounts
  obtain ⟨hbacks, hentries⟩ := Prod.mk.inj hcounts
  exact ⟨a, ha, hlinked, hbacks, hentries, hreads, (entries_le_reads answers ha).2.2⟩

end Session
end Gamebook
