/-
# The moves of a play

A play proceeds by moves.  Where a scene comes next, a move goes back if the scene
stands for that, ends the play at any other control scene, and enters a scene of an
adventure.  Where a line is awaited, a move reads one, and then the same choices wait
again or the scene that a choice leads to comes next.

| stands | move | stands then |
| --- | --- | --- |
| before a scene that leads back | `goBack` | before the scene visited last, or the start |
| before another scene | `visit` | waiting, or over |
| waiting | reads a line | waiting, before a scene, or over |
| over | none | |

What happens in the moves, in order, is the log of a play.  Three moves for each line
that the player gives, and three more, take a play to its end, and what it shows and
reads is what its log says (`Session.completes_run`).
-/

import Gamebook.Proofs.Choosing

namespace Gamebook

/-- What happens in a play. -/
inductive Moment where
  | enters (scene : Identifier)
  /-- Actions leave these variables behind. -/
  | assigns (store : Store)
  | shows (line : String)
  /-- A line is read; without one, the player answers no more. -/
  | reads (line : Option String)
  /-- The play goes back to the scene visited last; without one, to the start. -/
  | goesBack (last : Option Identifier)

namespace Moment

/-- The line that is shown. -/
def line? : Moment → Option String
  | shows line => some line
  | _ => none

/-- Whether a scene is entered. -/
def isEntry : Moment → Bool
  | enters _ => true
  | _ => false

/-- Whether a line is read. -/
def isRead : Moment → Bool
  | reads _ => true
  | _ => false

/-- Whether the play goes back. -/
def isBack : Moment → Bool
  | goesBack _ => true
  | _ => false

end Moment

/-- Where a play stands between two moves. -/
inductive Standing where
  /-- A scene comes next. -/
  | before (target : Identifier) (history : History Identifier)
  | waiting (p : Play)
  | ended (result : Except Fault Outcome)

/-- A play under way, with the lines that the player will give. -/
structure Course where
  standing : Standing
  store : Store
  answers : List String

/-- Where a play stands behind a passage. -/
def Progress.standing : Progress → Standing
  | waiting p => .waiting p
  | ended o => .ended (.ok o)
  | failed f => .ended (.error f)

/-- Whether the scenes that a play remembers, and the one that it is in, have a
property. -/
def Standing.Remembers (P : Identifier → Prop) : Standing → Prop
  | .before _ history => ∀ i ∈ history.latest, P i
  | .waiting p => P p.scene ∧ ∀ i ∈ p.history.latest, P i
  | .ended _ => True

/-- What holds of all that is remembered may be weakened. -/
theorem Standing.Remembers.mono {P Q : Identifier → Prop} {standing : Standing}
    (h : standing.Remembers P) (hPQ : ∀ i, P i → Q i) : standing.Remembers Q := by
  cases standing with
  | before target history => exact fun i hi => hPQ i (h i hi)
  | waiting p => exact ⟨hPQ _ h.1, fun i hi => hPQ i (h.2 i hi)⟩
  | ended result => trivial

/-- Whether no control scene is remembered. -/
def Course.IsClear (c : Course) : Prop := c.standing.Remembers fun i => Control.of? i = none

/-- The transcript of a play in which some moments come first. -/
def Transcript.behind (moments : List Moment) (t : Transcript) : Transcript :=
  { t with
    lines := moments.filterMap Moment.line? ++ t.lines
    reads := moments.countP Moment.isRead + t.reads }

/-- What happens first comes first. -/
theorem Transcript.behind_cons (m : Moment) (moments : List Moment) (t : Transcript) :
    t.behind (m :: moments) =
      { t.behind moments with
        lines := m.line?.toList ++ (t.behind moments).lines
        reads := (t.behind moments).reads + if m.isRead then 1 else 0 } := by
  cases hline : m.line? <;>
    simp [behind, List.countP_cons, hline, Nat.add_right_comm]

/-- Nothing happens first in front of a transcript without moments. -/
@[simp] theorem Transcript.behind_nil (t : Transcript) : t.behind [] = t := by simp [behind]

/-- How many moves a play can still make. -/
def Course.bound (c : Course) : Nat :=
  3 * c.answers.length +
    match c.standing with
    | .before target _ => if Control.of? target = some .back then 3 else 2
    | .waiting _ => 1
    | .ended _ => 0

/-- A new history of a capacity that is accepted. -/
theorem History.ofCapacity_eq_ok {n : Int} (hpos : 1 ≤ n) (hlt : n.toNat < capacityLimit) :
    ofCapacity n = .ok (⟨n.toNat, []⟩ : History Identifier) := by
  rw [ofCapacity, if_neg (by omega), if_pos hlt]

/-- A new history has no entries. -/
theorem History.latest_of_ofCapacity {n : Int} {history : History Identifier}
    (h : ofCapacity n = .ok history) : history.latest = [] := by
  rw [ofCapacity] at h
  split at h
  · contradiction
  · split at h
    · exact Except.ok.inj h ▸ rfl
    · contradiction

/-- What is shown for a line that takes no choice. -/
def Prompt.hint : Prompt → List String
  | .anyLine _ => []
  | .number m => [m.hint, Menu.question]

namespace Stage

/-- Go back to the scene visited last or, without one, to the starting scene. -/
def goBack (g : Stage) (history : History Identifier) : Moment × Standing :=
  match history.pop? with
  | some (last, history) => (.goesBack (some last), .before last history)
  | none =>
    let start := g.adventure.start.identifier
    (.goesBack none,
      if Control.of? start = some .back then
        .ended (.error (.impasse (.backAtStart g.adventure.name start.canonical)))
      else .before start history)

/-- End the play at a control scene, or enter a scene. -/
def visit (g : Stage) (history : History Identifier) (s : Store) (target : Identifier) :
    List Moment × Passage :=
  match Control.of? target with
  | some control => ((finish s control).lines.map .shows, finish s control)
  | none =>
    match g.registry.resolve target .identifier {} with
    | .error d => ([], .fault s (.document d))
    | .ok scene =>
      let p := g.enter history s scene
      (.enters target :: .assigns p.store :: p.lines.map .shows, p)

/-- Leave a scene by a choice: run its actions, and remember the scene unless the choice
leads back. -/
def leave (p : Play) (s : Store) (c : Choice) : Store × Standing :=
  match Action.runAll c.actions s with
  | (some e, s) => (s, .ended (.error (.evaluation e)))
  | (none, s) =>
    match c.target.target with
    | .error d => (s, .ended (.error (.document d)))
    | .ok target =>
      let back := Control.of? target = some .back
      (s, .before target (if back then p.history else p.history.push p.scene))

/-- The next move of a play, unless it is over. -/
def move (g : Stage) (c : Course) : Option (List Moment × Course) :=
  match c.standing with
  | .ended _ => none
  | .before target history =>
    if Control.of? target = some .back then
      let (moment, standing) := g.goBack history
      some ([moment], { c with standing })
    else
      let (moments, p) := g.visit history c.store target
      some (moments, ⟨p.progress.standing, p.store, c.answers⟩)
  | .waiting p =>
    match c.answers with
    | [] => some ([.reads none], { c with standing := .ended (.error .endOfInput) })
    | line :: answers =>
      match p.prompt.takes? line with
      | none => some (.reads (some line) :: p.prompt.hint.map .shows, { c with answers })
      | some choice =>
        let (store, standing) := leave p c.store choice
        some ([.reads (some line), .assigns store], ⟨standing, store, answers⟩)

/-- What happens in at most a number of moves, and the play behind them. -/
def moves (g : Stage) : Nat → Course → List Moment × Course
  | 0, c => ([], c)
  | n + 1, c =>
    match g.move c with
    | none => ([], c)
    | some (moments, d) => (moments ++ (moves g n d).1, (moves g n d).2)

/-- What a move does, by where it starts. -/
inductive Makes (g : Stage) : Course → List Moment → Course → Prop
  | returns {target last : Identifier} {history : History Identifier} {before : List Identifier}
      {s : Store} {answers : List String} (back : Control.of? target = some .back)
      (latest : history.latest = last :: before) :
      Makes g ⟨.before target history, s, answers⟩ [.goesBack (some last)]
        ⟨.before last { history with latest := before }, s, answers⟩
  | restarts {target : Identifier} {history : History Identifier} {s : Store}
      {answers : List String} (back : Control.of? target = some .back)
      (latest : history.latest = [])
      (start : Control.of? g.adventure.start.identifier ≠ some .back) :
      Makes g ⟨.before target history, s, answers⟩ [.goesBack none]
        ⟨.before g.adventure.start.identifier history, s, answers⟩
  | strands {target : Identifier} {history : History Identifier} {s : Store}
      {answers : List String} (back : Control.of? target = some .back)
      (latest : history.latest = [])
      (start : Control.of? g.adventure.start.identifier = some .back) :
      Makes g ⟨.before target history, s, answers⟩ [.goesBack none]
        ⟨.ended (.error (.impasse (.backAtStart g.adventure.name
          g.adventure.start.identifier.canonical))), s, answers⟩
  | finishes {target : Identifier} {history : History Identifier} {s : Store}
      {answers : List String} {control : Control} (isControl : Control.of? target = some control)
      (forth : control ≠ .back) :
      Makes g ⟨.before target history, s, answers⟩ ((finish s control).lines.map .shows)
        ⟨(finish s control).progress.standing, s, answers⟩
  | misses {target : Identifier} {history : History Identifier} {s : Store}
      {answers : List String} {d : Diagnostic} (noControl : Control.of? target = none)
      (unknown : g.registry.resolve target .identifier {} = .error d) :
      Makes g ⟨.before target history, s, answers⟩ [] ⟨.ended (.error (.document d)), s, answers⟩
  | enters {target : Identifier} {history : History Identifier} {s : Store}
      {answers : List String} {scene : Scene} (noControl : Control.of? target = none)
      (found : g.registry.find? target = some scene) :
      Makes g ⟨.before target history, s, answers⟩
        (.enters target :: .assigns (g.enter history s scene).store ::
          (g.enter history s scene).lines.map .shows)
        ⟨(g.enter history s scene).progress.standing, (g.enter history s scene).store, answers⟩
  | quits {p : Play} {s : Store} :
      Makes g ⟨.waiting p, s, []⟩ [.reads none] ⟨.ended (.error .endOfInput), s, []⟩
  | repeats {p : Play} {s : Store} {line : String} {answers : List String}
      (nothing : p.prompt.takes? line = none) :
      Makes g ⟨.waiting p, s, line :: answers⟩
        (.reads (some line) :: p.prompt.hint.map .shows) ⟨.waiting p, s, answers⟩
  | leaves {p : Play} {s : Store} {line : String} {answers : List String} {c : Choice}
      (taken : p.prompt.takes? line = some c) :
      Makes g ⟨.waiting p, s, line :: answers⟩ [.reads (some line), .assigns (leave p s c).1]
        ⟨(leave p s c).2, (leave p s c).1, answers⟩

variable {g : Stage} {c d : Course} {moments : List Moment} {t : Transcript}
  {history : History Identifier} {s : Store} {target : Identifier} {answers : List String}

/-- A move to a scene other than the one visited last is a visit. -/
theorem move_before (h : Control.of? target ≠ some .back) :
    g.move ⟨.before target history, s, answers⟩ = some ((g.visit history s target).1,
      ⟨(g.visit history s target).2.progress.standing, (g.visit history s target).2.store,
        answers⟩) := by
  simp only [move, h, if_false]

/-- Going back is a control, so what is no control is no going back. -/
theorem ne_back_of_noControl (h : Control.of? target = none) : Control.of? target ≠ some .back := by
  simp [h]

/-- Ending a play changes no variables. -/
theorem store_finish (s : Store) (control : Control) : (finish s control).store = s := by
  cases control <;> rfl

/-- **What a move can do.** -/
theorem makes_of_move (h : g.move c = some (moments, d)) : g.Makes c moments d := by
  obtain ⟨standing, s, answers⟩ := c
  cases standing with
  | ended result => contradiction
  | before target history =>
    by_cases hback : Control.of? target = some .back
    · simp only [move, hback, if_true, goBack, History.pop?, Option.some.injEq, Prod.mk.injEq] at h
      cases hlatest : history.latest with
      | cons last before =>
        rw [hlatest] at h
        obtain ⟨rfl, rfl⟩ := h
        exact .returns hback hlatest
      | nil =>
        rw [hlatest] at h
        obtain ⟨rfl, rfl⟩ := h
        dsimp only
        split
        · rename_i hstart
          exact .strands hback hlatest hstart
        · rename_i hstart
          exact .restarts hback hlatest hstart
    · simp only [move_before hback, visit, Option.some.injEq, Prod.mk.injEq] at h
      split at h
      · rename_i control hcontrol
        obtain ⟨rfl, rfl⟩ := h
        have hforth : control ≠ .back := fun hc => hback (hc ▸ hcontrol)
        rw [store_finish]
        exact .finishes hcontrol hforth
      · rename_i hcontrol
        rw [Registry.resolve] at h
        cases hscene : g.registry.find? target with
        | none =>
          rw [hscene] at h
          obtain ⟨rfl, rfl⟩ := h
          exact .misses hcontrol (by rw [Registry.resolve, hscene])
        | some scene =>
          rw [hscene] at h
          obtain ⟨rfl, rfl⟩ := h
          exact .enters hcontrol hscene
  | waiting p =>
    cases answers with
    | nil =>
      obtain ⟨rfl, rfl⟩ := Prod.mk.inj (Option.some.inj h)
      exact .quits
    | cons line answers =>
      simp only [move] at h
      split at h
      · rename_i hnothing
        obtain ⟨rfl, rfl⟩ := Prod.mk.inj (Option.some.inj h)
        exact .repeats hnothing
      · rename_i choice htaken
        obtain ⟨rfl, rfl⟩ := Prod.mk.inj (Option.some.inj h)
        exact .leaves htaken

/-- A move is what can be made of where it starts. -/
theorem move_of_makes (h : g.Makes c moments d) : g.move c = some (moments, d) := by
  cases h with
  | returns back latest => simp only [move, back, if_true, goBack, History.pop?, latest]
  | restarts back latest start | strands back latest start =>
    simp only [move, back, if_true, goBack, History.pop?, latest, start, if_false]
  | @finishes target history s answers control isControl forth =>
    have hne : Control.of? target ≠ some .back := by simpa [isControl] using forth
    rw [move_before hne]
    simp only [visit, isControl, store_finish]
  | misses noControl unknown =>
    rw [move_before (ne_back_of_noControl noControl)]
    simp only [visit, noControl, unknown]
    rfl
  | enters noControl found =>
    rw [move_before (ne_back_of_noControl noControl)]
    simp only [visit, noControl, Registry.resolve, found]
  | quits => rfl
  | repeats nothing => simp only [move, nothing]
  | leaves taken => simp only [move, taken]

/-- Only a play that is over makes no move. -/
theorem exists_ended_of_move (h : g.move c = none) : ∃ result, c.standing = .ended result := by
  obtain ⟨standing, s, answers⟩ := c
  cases standing with
  | ended result => exact ⟨result, rfl⟩
  | before target history =>
    simp only [move] at h
    split at h <;> contradiction
  | waiting p =>
    cases answers with
    | nil => contradiction
    | cons line answers =>
      simp only [move] at h
      split at h <;> contradiction

/-- At a control scene a play is over. -/
theorem standing_finish (s : Store) (control : Control) :
    ∃ result, (finish s control).progress.standing = .ended result := by
  cases control <;> exact ⟨_, rfl⟩

/-- Where a choice leads. -/
theorem leave_cases (p : Play) (s : Store) (c : Choice) :
    (∃ e, (Action.runAll c.actions s).1 = some e ∧
      (leave p s c).2 = .ended (.error (.evaluation e))) ∨
    (∃ d, c.target.target = .error d ∧ (leave p s c).2 = .ended (.error (.document d))) ∨
    ∃ target, c.target.target = .ok target ∧ (leave p s c).2 =
      .before target
        (if Control.of? target = some .back then p.history else p.history.push p.scene) := by
  rw [leave]
  split
  · rename_i e after hactions
    exact .inl ⟨e, by rw [hactions], rfl⟩
  · split
    · rename_i d htarget
      exact .inr (.inl ⟨d, htarget, rfl⟩)
    · rename_i target htarget
      exact .inr (.inr ⟨target, htarget, by simp⟩)

/-! ## What is remembered -/

/-- What waits behind an offer is in the scene that was offered. -/
theorem of_waiting_offer {scene : Scene} {p : Play}
    (h : (g.offer history s scene).progress = .waiting p) :
    p.scene = scene.identifier ∧ p.history = history := by
  unfold offer at h
  dsimp only at h
  split at h
  · contradiction
  · split at h
    · contradiction
    · obtain rfl := Progress.waiting.inj h
      exact ⟨rfl, rfl⟩
  · split at h
    · contradiction
    · contradiction
    · split at h
      · contradiction
      · obtain rfl := Progress.waiting.inj h
        exact ⟨rfl, rfl⟩

/-- What waits behind an entry is in the scene that was entered. -/
theorem of_waiting_enter {scene : Scene} {p : Play}
    (h : (g.enter history s scene).progress = .waiting p) :
    p.scene = scene.identifier ∧ p.history = history := by
  unfold enter at h
  split at h
  · contradiction
  · dsimp only at h
    split at h
    · contradiction
    · exact of_waiting_offer h

/-- A scene that is entered is registered, and no control scene. -/
theorem of_enters_mem {i : Identifier} (h : g.Makes c moments d) (hi : .enters i ∈ moments) :
    Control.of? i = none ∧ ∃ scene, g.registry.find? i = some scene := by
  cases h with
  | @enters target history s answers scene noControl found =>
    obtain rfl : i = target := by simpa using hi
    exact ⟨noControl, scene, found⟩
  | _ => simp at hi

/-- **What is remembered was entered.**  A property of what is remembered that the scenes
entered next have, too, is kept. -/
theorem remembers_of_makes {P : Identifier → Prop} (h : g.Makes c moments d)
    (hP : ∀ i, .enters i ∈ moments → P i) (hc : c.standing.Remembers P) :
    d.standing.Remembers P := by
  cases h with
  | returns back latest => exact fun i hi => hc i (latest ▸ List.mem_cons_of_mem _ hi)
  | restarts | repeats => exact hc
  | strands | misses | quits => trivial
  | @finishes target history s answers control isControl forth =>
    obtain ⟨result, hended⟩ := standing_finish s control
    exact hended ▸ trivial
  | @enters target history s answers scene noControl found =>
    dsimp only
    cases hprogress : (g.enter history s scene).progress with
    | ended o | failed f => trivial
    | waiting p =>
      obtain ⟨hscene, hhistory⟩ := of_waiting_enter hprogress
      obtain ⟨-, rfl⟩ := Registry.mem_of_find? found
      exact ⟨hscene ▸ hP _ (List.mem_cons_self ..), hhistory ▸ hc⟩
  | @leaves p s line answers ch taken =>
    obtain ⟨e, -, hleave⟩ | ⟨d, -, hleave⟩ | ⟨target, -, hleave⟩ := leave_cases p s ch
    · exact hleave ▸ trivial
    · exact hleave ▸ trivial
    · dsimp only
      rw [hleave]
      dsimp only [Standing.Remembers]
      split
      · exact hc.2
      · intro i hi
        rcases List.mem_cons.1 (List.mem_of_mem_take hi) with rfl | hi
        · exact hc.1
        · exact hc.2 i hi

/-! ## Moves and the play -/

/-- What a play still comes to. -/
def rest (g : Stage) (c : Course) : Transcript :=
  match c.standing with
  | .ended result => ⟨[], 0, result, c.store⟩
  | .before target history => g.play c.answers (g.arrive history c.store target)
  | .waiting p => g.play c.answers ⟨[], c.store, .waiting p⟩

/-- Lines that are shown are the lines of the transcript. -/
@[simp] theorem filterMap_line?_shows (lines : List String) :
    (lines.map Moment.shows).filterMap Moment.line? = lines := by
  simp [Function.comp_def, Moment.line?]

/-- Showing lines reads none. -/
@[simp] theorem countP_isRead_shows (lines : List String) :
    (lines.map Moment.shows).countP Moment.isRead = 0 := by
  simp [Moment.isRead]

/-- A passage comes before what the play comes to behind it. -/
theorem play_eq_behind (g : Stage) (answers : List String) (p : Passage) :
    g.play answers p =
      (g.rest ⟨p.progress.standing, p.store, answers⟩).behind (p.lines.map .shows) := by
  have hafter := g.play_after answers p.lines { p with lines := [] }
  rw [Passage.after, List.append_nil] at hafter
  rw [hafter, Transcript.behind, filterMap_line?_shows, countP_isRead_shows, Nat.zero_add]
  obtain ⟨lines, store, progress⟩ := p
  cases progress with
  | waiting w => rfl
  | ended o => cases answers <;> rfl
  | failed f => cases answers <;> rfl

/-- A line that takes no choice shows a hint. -/
theorem answer_of_nothing {p : Play} {line : String} (h : p.prompt.takes? line = none) :
    g.answer p s line = ⟨p.prompt.hint, s, .waiting p⟩ := by
  unfold answer Prompt.hint
  cases hprompt : p.prompt with
  | anyLine c =>
    rw [hprompt] at h
    contradiction
  | number menu =>
    rw [hprompt] at h
    simp only [show menu.choose? line = none from h]

/-- Taking a choice is leaving its scene and going on from where that leads. -/
theorem play_take (g : Stage) (p : Play) (s : Store) (ch : Choice) (answers : List String) :
    g.play answers (g.take p s ch) = g.rest ⟨(leave p s ch).2, (leave p s ch).1, answers⟩ := by
  rw [take, leave]
  obtain ⟨e | _, after⟩ := Action.runAll ch.actions s
  · cases ch.target.target with
    | error d => exact play_fault ..
    | ok target => simp [rest]
  · exact play_fault ..

/-- Going back leads where the scene visited last leads. -/
theorem arrive_of_back {last : Identifier} {before : List Identifier}
    (hback : Control.of? target = some .back) (hlatest : history.latest = last :: before) :
    g.arrive history s target = g.arrive { history with latest := before } s last := by
  simp only [arrive, hlatest, destination, hback, if_true]

/-- Going back without a scene visited before leads to the start. -/
theorem arrive_of_back_nil (hback : Control.of? target = some .back)
    (hlatest : history.latest = [])
    (hstart : Control.of? g.adventure.start.identifier ≠ some .back) :
    g.arrive history s target = g.arrive history s g.adventure.start.identifier := by
  simp only [arrive, hlatest, destination, hback, hstart, if_true, if_false]

/-- A choice that does not lead back leads to its target, and what was visited stays. -/
theorem destination_of_ne_back {start : Identifier} {visited : List Identifier}
    (h : Control.of? target ≠ some .back) :
    destination start visited target = some (target, visited) := by
  cases visited <;> simp only [destination, h, if_false]

/-- **A move does what the play does.** -/
theorem rest_of_makes (h : g.Makes c moments d) : g.rest c = (g.rest d).behind moments := by
  cases h with
  | returns back latest =>
    rw [Transcript.behind_cons, Transcript.behind_nil]
    show play _ _ _ = play _ _ _
    rw [arrive_of_back back latest]
  | restarts back latest start =>
    rw [Transcript.behind_cons, Transcript.behind_nil]
    show play _ _ _ = play _ _ _
    rw [arrive_of_back_nil back latest start]
  | strands back latest start =>
    rw [Transcript.behind_cons, Transcript.behind_nil]
    show play _ _ _ = _
    simp only [arrive, latest, destination, back, start, if_true]
    exact play_fault ..
  | @finishes target history s answers control isControl forth =>
    have hne : Control.of? target ≠ some .back := by simpa [isControl] using forth
    show play _ _ _ = _
    simp only [arrive, destination_of_ne_back hne, isControl]
    rw [play_eq_behind, store_finish]
  | misses noControl unknown =>
    show play _ _ _ = _
    simp only [arrive, destination_of_ne_back (ne_back_of_noControl noControl), noControl, unknown]
    exact play_fault ..
  | enters noControl found =>
    show play _ _ _ = _
    simp only [arrive, destination_of_ne_back (ne_back_of_noControl noControl), noControl,
      Registry.resolve, found]
    rw [play_eq_behind, Transcript.behind_cons, Transcript.behind_cons]
    rfl
  | quits => rfl
  | @repeats p s line answers nothing =>
    show play g (line :: answers) ⟨[], s, .waiting p⟩ = _
    rw [play, answer_of_nothing nothing, play_eq_behind, Transcript.behind_cons]
    rfl
  | @leaves p s line answers ch taken =>
    show play g (line :: answers) ⟨[], s, .waiting p⟩ = _
    rw [play, answer_of_takes taken, play_take, Transcript.behind_cons, Transcript.behind_cons,
      Transcript.behind_nil]
    rfl

/-- **A move brings a play closer to its end.** -/
theorem bound_of_makes (h : g.Makes c moments d)
    (hclear : c.IsClear) : d.bound < c.bound := by
  cases h with
  | returns back latest =>
    have hlast := hclear _ (latest ▸ List.mem_cons_self ..)
    simp [Course.bound, back, hlast]
  | restarts back latest start => simp [Course.bound, back, start]
  | strands back latest start => simp [Course.bound, back]
  | @finishes target history s answers control isControl forth =>
    obtain ⟨result, hended⟩ := standing_finish s control
    simp [Course.bound, isControl, forth, hended]
  | misses noControl unknown => simp [Course.bound, noControl]
  | @enters target history s answers scene noControl found =>
    cases (g.enter history s scene).progress <;> simp [Course.bound, noControl, Progress.standing]
  | quits => simp [Course.bound]
  | repeats => simp only [Course.bound, List.length_cons]; omega
  | @leaves p s line answers ch taken =>
    obtain ⟨e, -, hleave⟩ | ⟨d, -, hleave⟩ | ⟨target, -, hleave⟩ := leave_cases p s ch
    · simp only [Course.bound, hleave, List.length_cons]; omega
    · simp only [Course.bound, hleave, List.length_cons]; omega
    · simp only [Course.bound, hleave, List.length_cons]; split <;> omega

/-- The moments of a first move come before those of the moves behind it. -/
theorem moves_succ_of_move (h : g.move c = some (moments, d)) (n : Nat) :
    g.moves (n + 1) c = (moments ++ (g.moves n d).1, (g.moves n d).2) := by
  rw [moves, h]

/-- A play that is over makes no moves. -/
theorem moves_of_ended {result : Except Fault Outcome} (h : c.standing = .ended result) (n : Nat) :
    g.moves n c = ([], c) := by
  cases n with
  | zero => rfl
  | succ n =>
    have hmove : g.move c = none := by simp only [move, h]
    rw [moves, hmove]

/-- **A play goes on until it is over.**  What holds of a play that is over, and before a
move if it holds behind it, holds of enough moves. -/
theorem moves_induction {P : Course → List Moment → Course → Prop}
    (ended : ∀ c result, c.standing = .ended result → P c [] c)
    (step : ∀ c d e moments log, c.IsClear → g.Makes c moments d → P d log e →
      P c (moments ++ log) e)
    {n : Nat} (hclear : c.IsClear)
    (hn : c.bound ≤ n) : P c (g.moves n c).1 (g.moves n c).2 := by
  induction n generalizing c with
  | zero =>
    cases hmove : g.move c with
    | none =>
      obtain ⟨result, hended⟩ := exists_ended_of_move hmove
      exact ended c result hended
    | some made =>
      have hlt := bound_of_makes (makes_of_move hmove) hclear
      omega
  | succ n ih =>
    cases hmove : g.move c with
    | none =>
      obtain ⟨result, hended⟩ := exists_ended_of_move hmove
      rw [moves_of_ended hended]
      exact ended c result hended
    | some made =>
      obtain ⟨moments, d⟩ := made
      have hmakes := makes_of_move hmove
      have hlt := bound_of_makes hmakes hclear
      have hd : d.IsClear :=
        remembers_of_makes hmakes (fun _ hi => (of_enters_mem hmakes hi).1) hclear
      rw [moves_succ_of_move hmove]
      exact step c d _ moments _ hclear hmakes (ih hd (by omega))

/-- What happens in a number of moves is what a transcript says, and the play is over
behind them. -/
structure Completes (g : Stage) (n : Nat) (c : Course) (t : Transcript) : Prop where
  ended : (g.moves n c).2.standing = .ended t.result
  store : (g.moves n c).2.store = t.store
  lines : (g.moves n c).1.filterMap Moment.line? = t.lines
  reads : (g.moves n c).1.countP Moment.isRead = t.reads

/-- What moves complete is told by what happens in them, and by how they end. -/
theorem Completes.eq_of {g' : Stage} {c' : Course} {n n' : Nat} {t' : Transcript}
    (h : g.Completes n c t) (h' : g'.Completes n' c' t')
    (hlog : (g'.moves n' c').1 = (g.moves n c).1)
    (hstanding : (g'.moves n' c').2.standing = (g.moves n c).2.standing)
    (hstore : (g'.moves n' c').2.store = (g.moves n c).2.store) : t' = t := by
  obtain ⟨lines, reads, result, store⟩ := t
  obtain ⟨lines', reads', result', store'⟩ := t'
  obtain rfl : result' = result :=
    Standing.ended.inj (h'.ended.symm.trans (hstanding.trans h.ended))
  obtain rfl : store' = store := h'.store.symm.trans (hstore.trans h.store)
  obtain rfl : lines' = lines := h'.lines.symm.trans (hlog ▸ h.lines)
  obtain rfl : reads' = reads := h'.reads.symm.trans (hlog ▸ h.reads)
  rfl

/-- **Enough moves complete a play.** -/
theorem completes {n : Nat} (hclear : c.IsClear)
    (hn : c.bound ≤ n) : g.Completes n c (g.rest c) := by
  have hmoves : (g.moves n c).2.standing = .ended (g.rest c).result ∧
      g.rest c = (⟨[], 0, (g.rest c).result, (g.moves n c).2.store⟩ : Transcript).behind
        (g.moves n c).1 := by
    refine moves_induction (P := fun c log e => e.standing = .ended (g.rest c).result ∧
      g.rest c = (⟨[], 0, (g.rest c).result, e.store⟩ : Transcript).behind log) ?_ ?_ hclear hn
    · intro c result hended
      simp [rest, hended]
    · rintro c d e moments log - hmakes ⟨hended, hrest⟩
      have hbehind := rest_of_makes hmakes
      have hresult : (g.rest c).result = (g.rest d).result := by rw [hbehind]; rfl
      rw [hresult]
      refine ⟨hended, ?_⟩
      rw [hbehind]
      conv_lhs => rw [hrest]
      simp [Transcript.behind]
  obtain ⟨hended, hrest⟩ := hmoves
  refine ⟨hended, ?_, ?_, ?_⟩
  · rw [hrest]
    rfl
  · conv_rhs => rw [hrest]
    simp [Transcript.behind]
  · conv_rhs => rw [hrest]
    simp [Transcript.behind]

end Stage

namespace Session

variable {s : Session} {a : Adventure} {name : String}

/-- A play of an adventure before its first move. -/
def outset (s : Session) (a : Adventure) (answers : List String) : Course :=
  let standing : Standing :=
    if !s.isLinked then .ended (.error (.impasse .notLinked))
    else
      match History.ofCapacity s.settings.historyCapacity with
      | .error e => .ended (.error (.history e))
      | .ok history =>
        match a.start.target with
        | .error d => .ended (.error (.document d))
        | .ok start => .before start history
  ⟨standing, s.store, answers⟩

/-- What happens when an adventure is played. -/
def moments (s : Session) (a : Adventure) (answers : List String) : List Moment :=
  ((s.stage a).moves (3 * answers.length + 3) (s.outset a answers)).1

/-- Nothing is remembered at the outset. -/
theorem remembers_outset (s : Session) (a : Adventure) (P : Identifier → Prop)
    (answers : List String) : (s.outset a answers).standing.Remembers P := by
  unfold outset
  dsimp only
  split
  · trivial
  · split
    · trivial
    · rename_i history hhistory
      split
      · trivial
      · intro i hi
        rw [History.latest_of_ofCapacity hhistory] at hi
        contradiction

/-- The outset leaves three moves for each line of the player, and three more. -/
theorem bound_outset_le (s : Session) (a : Adventure) (answers : List String) :
    (s.outset a answers).bound ≤ 3 * answers.length + 3 := by
  unfold Course.bound
  show 3 * answers.length + _ ≤ _
  split
  · split <;> omega
  · omega
  · omega

/-- A play goes on from its outset as it is played from its beginning. -/
theorem rest_outset (answers : List String) :
    (s.stage a).rest (s.outset a answers) = (s.stage a).play answers (s.begin a) := by
  unfold outset begin
  cases s.isLinked with
  | false => exact (Stage.play_fault ..).symm
  | true =>
    cases (History.ofCapacity s.settings.historyCapacity : Except _ (History Identifier)) with
    | error e => exact (Stage.play_fault ..).symm
    | ok history =>
      cases a.start.target with
      | error d => exact (Stage.play_fault ..).symm
      | ok start => rfl

/-- **What happens in a play is what its transcript says.** -/
theorem completes_run (ha : s.story.find? name = some a) (answers : List String) :
    (s.stage a).Completes (3 * answers.length + 3) (s.outset a answers)
      (s.run name answers).1 := by
  rw [run_eq ha, ← rest_outset]
  exact Stage.completes (s.remembers_outset a _ answers) (s.bound_outset_le a answers)

/-- What holds of a play that is over, and before a move if it holds behind it, holds of
a play of an adventure. -/
theorem moments_induction {P : Course → List Moment → Except Fault Outcome → Prop}
    (ended : ∀ c result, c.standing = .ended result → P c [] result)
    (step : ∀ c d moments log result, c.IsClear → (s.stage a).Makes c moments d →
      P d log result → P c (moments ++ log) result)
    (ha : s.story.find? name = some a) (answers : List String) :
    P (s.outset a answers) (s.moments a answers) (s.run name answers).1.result := by
  have hmoves := Stage.moves_induction
    (P := fun c log e => ∀ result, e.standing = .ended result → P c log result)
    (fun c result hc result' hc' => ended c result' hc')
    (fun c d e moments log hclear hmakes h result hresult =>
      step c d moments log result hclear hmakes (h result hresult))
    (s.remembers_outset a _ answers) (s.bound_outset_le a answers)
  exact hmoves _ (completes_run ha answers).ended

end Session
end Gamebook
