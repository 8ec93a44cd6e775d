/-
# The passages of a play

A play is a row of passages: a line from the player leads from a passage that waits to
the next one.  What a play shows is what its passages show, and it has read one line
for each of them that waits.  It ends as the last one does, with its variables
(`Stage.play_eq`), and what a line preserves holds of all of them
(`Stage.passages_induction`).
-/

import Gamebook.Play.Turn

namespace Gamebook

/-- How a play ends that stops here. -/
def Progress.result : Progress → Except Fault Outcome
  | waiting _ => .error .endOfInput
  | ended o => .ok o
  | failed f => .error f

/-- Whether a play waits for a line. -/
def Progress.isWaiting : Progress → Bool
  | waiting _ => true
  | ended _ | failed _ => false

namespace Stage

/-- The passage after some lines. -/
def reach (g : Stage) : List String → Passage → Passage
  | [], p => p
  | line :: rest, p =>
    match p.progress with
    | .waiting w => reach g rest (g.answer w p.store line)
    | .ended _ | .failed _ => p

/-- The passages that some lines lead through. -/
def passages (g : Stage) : List String → Passage → List Passage
  | [], p => [p]
  | line :: rest, p =>
    match p.progress with
    | .waiting w => p :: passages g rest (g.answer w p.store line)
    | .ended _ | .failed _ => [p]

variable {g : Stage} {answers : List String} {p q : Passage}

/-- What the first passage has and every line preserves, all passages have. -/
theorem passages_induction {P : Passage → Prop} (h : P p)
    (hstep : ∀ q w line, P q → q.progress = .waiting w → P (g.answer w q.store line)) :
    ∀ q ∈ g.passages answers p, P q := by
  induction answers generalizing p with
  | nil => exact List.forall_mem_singleton.2 h
  | cons line rest ih =>
    rw [passages]
    cases hprogress : p.progress with
    | waiting w => exact List.forall_mem_cons.2 ⟨h, ih (hstep p w line h hprogress)⟩
    | ended o => exact List.forall_mem_singleton.2 h
    | failed f => exact List.forall_mem_singleton.2 h

/-- What a play comes to is one of its passages. -/
theorem reach_mem_passages (g : Stage) (answers : List String) (p : Passage) :
    g.reach answers p ∈ g.passages answers p := by
  induction answers generalizing p with
  | nil => exact List.mem_singleton_self p
  | cons line rest ih =>
    rw [reach, passages]
    cases p.progress with
    | waiting w => exact List.mem_cons_of_mem _ (ih _)
    | ended o => exact List.mem_singleton_self p
    | failed f => exact List.mem_singleton_self p

/-- **A play is its row of passages.** -/
theorem play_eq (g : Stage) (answers : List String) (p : Passage) :
    g.play answers p =
      ⟨(g.passages answers p).flatMap (·.lines),
        (g.passages answers p).countP (·.progress.isWaiting),
        (g.reach answers p).progress.result, (g.reach answers p).store⟩ := by
  induction answers generalizing p with
  | nil =>
    obtain ⟨lines, store, progress⟩ := p
    cases progress <;> simp [play, passages, reach, Progress.result, Progress.isWaiting]
  | cons line rest ih =>
    obtain ⟨lines, store, progress⟩ := p
    cases progress with
    | ended o => simp [play, passages, reach, Progress.result, Progress.isWaiting]
    | failed f => simp [play, passages, reach, Progress.result, Progress.isWaiting]
    | waiting w =>
      rw [play, ih]
      simp [passages, reach, Progress.isWaiting]

/-- A passage that fails is the whole play. -/
theorem play_fault (g : Stage) (answers : List String) (s : Store) (f : Fault) :
    g.play answers (.fault s f) = ⟨[], 0, .error f, s⟩ := by
  cases answers <;> rfl

/-- Lines before a passage come before the play. -/
theorem play_after (g : Stage) (answers lines : List String) (p : Passage) :
    g.play answers (p.after lines) =
      { g.play answers p with lines := lines ++ (g.play answers p).lines } := by
  obtain ⟨shown, store, progress⟩ := p
  cases answers <;> cases progress <;> simp [play, Passage.after]

end Stage

namespace Session

variable {s : Session} {name : String} {a : Adventure}

/-- The passages that a play of an adventure goes through. -/
def passages (s : Session) (a : Adventure) (answers : List String) : List Passage :=
  (s.stage a).passages answers (s.begin a)

/-- Playing a loaded adventure leaves a session with the variables that the play leaves, and
otherwise as it was. -/
theorem run_eq (ha : s.story.find? name = some a) (answers : List String) :
    s.run name answers = ((s.stage a).play answers (s.begin a),
      { s with store := ((s.stage a).play answers (s.begin a)).store }) := by
  rw [run, ha]

end Session
end Gamebook
