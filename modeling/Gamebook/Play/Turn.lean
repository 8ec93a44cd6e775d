/-
# Turns

A play moves from scene to scene.  Where it arrives at a control scene it ends,
or it goes back to the scene visited last; where it arrives at any other scene
it enters: the scene's actions are run, its lines are shown, and its choices are
offered.  Then the play waits for a line from the player (`Progress.waiting`),
and `Stage.answer` goes on from there until it waits again.

Going back without a scene to go back to leads to the starting scene.  A play
remembers every scene that it leaves by a choice, unless the choice leads back.
Faults end a play; the lines shown and the numbers assigned before stay.
-/

import Gamebook.Play.Menu
import Gamebook.Play.Session

namespace Gamebook

/-- How a play ends. -/
inductive Outcome where
  | passed
  | failed
  | exited
  | notFound
  deriving Repr, DecidableEq

/-- What stays the same during a play. -/
structure Stage where
  adventure : Adventure
  registry : Registry
  settings : Settings

/-- What a line from the player decides. -/
inductive Prompt where
  /-- Any line takes the choice. -/
  | anyLine (c : Choice)
  /-- The number of an open choice takes it. -/
  | number (m : Menu)

/-- A play that waits for a line. -/
structure Play where
  scene : Identifier
  history : History Identifier
  prompt : Prompt

/-- Where a play has come to. -/
inductive Progress where
  | waiting (p : Play)
  | ended (o : Outcome)
  | failed (f : Fault)

/-- A piece of a play: the lines shown, the store after them, and where the play
has come to. -/
structure Passage where
  lines : List String
  store : Store
  progress : Progress

namespace Passage

/-- A passage with lines before its own. -/
def after (lines : List String) (p : Passage) : Passage := { p with lines := lines ++ p.lines }

/-- A passage that ends with a fault and shows nothing. -/
def fault (s : Store) (f : Fault) : Passage := ⟨[], s, .failed f⟩

end Passage

/-- The lines of a scene: its title, the line above, its paragraphs, the line
below.  Empty paragraphs are left out. -/
def Scene.narration (placeholder : Option String) (s : Store) (scene : Scene) :
    Except EvalError (List String) := do
  let title ← scene.title.render placeholder s
  let above ← scene.header.toList.mapM (Template.render placeholder s)
  let paragraphs ← Template.renderLines placeholder s scene.content
  let below ← scene.footer.toList.mapM (Template.render placeholder s)
  return title :: above ++ paragraphs ++ below

namespace Stage

/-- What is shown for a variable that was never assigned. -/
def placeholder (g : Stage) : Option String := g.settings.placeholder

/-- Offer the choices of a scene. -/
def offer (g : Stage) (history : History Identifier) (s : Store) (scene : Scene) : Passage :=
  let wait (lines : List String) (prompt : Prompt) : Passage :=
    ⟨lines, s, .waiting ⟨scene.identifier, history, prompt⟩⟩
  match scene.choices with
  | [] => .fault s (.impasse (.noChoice scene.identifier.canonical))
  | [c] =>
    match c.label.render g.placeholder s with
    | .error e => .fault s (.evaluation e)
    | .ok label => wait (Menu.single label) (.anyLine c)
  | choices =>
    match Choice.partition s choices with
    | .error e => .fault s (.evaluation e)
    | .ok ([], _) => .fault s (.impasse (.noOpenChoice scene.identifier.canonical))
    | .ok (available, unavailable) =>
      let menu : Menu := ⟨available, unavailable⟩
      match Menu.entries g.placeholder s menu.shown with
      | (lines, some e) => .after ("" :: Menu.header :: lines) (.fault s (.evaluation e))
      | (lines, none) =>
        wait ("" :: Menu.header :: lines ++ ["", Menu.question]) (.number menu)

/-- Enter a scene: run its actions, show it and offer its choices. -/
def enter (g : Stage) (history : History Identifier) (s : Store) (scene : Scene) : Passage :=
  match Action.runAll scene.actions s with
  | (some e, s) => .fault s (.evaluation e)
  | (none, s) =>
    let spacing := List.replicate g.settings.sceneSpacing.toNat ""
    match scene.narration g.placeholder s with
    | .error e => .after spacing (.fault s (.evaluation e))
    | .ok lines => .after (spacing ++ lines) (g.offer history s scene)

/-- End a play at a control scene.  The one that leads back is no destination, so
it ends no play. -/
def finish (s : Store) : Control → Passage
  | .fail => ⟨["You failed"], s, .ended .failed⟩
  | .pass => ⟨["You win"], s, .ended .passed⟩
  | .exit => ⟨["Program terminated"], s, .ended .exited⟩
  | .switch | .back => .fault s (.impasse .switching)

/-- The scene that a target leads to, and what is left to go back to: a target
that leads back stands for the scene visited last or, without one, for the
starting scene. -/
def destination (start : Identifier) :
    List Identifier → Identifier → Option (Identifier × List Identifier)
  | visited, target =>
    if Control.of? target = some .back then
      match visited with
      | last :: before => destination start before last
      | [] => if Control.of? start = some .back then none else some (start, [])
    else some (target, visited)

/-- Arrive at a target. -/
def arrive (g : Stage) (history : History Identifier) (s : Store) (target : Identifier) : Passage :=
  let start := g.adventure.start.identifier
  match destination start history.latest target with
  | none => .fault s (.impasse (.backAtStart g.adventure.name start.canonical))
  | some (i, visited) =>
    match Control.of? i with
    | some control => finish s control
    | none =>
      match g.registry.resolve i .identifier {} with
      | .error d => .fault s (.document d)
      | .ok scene => g.enter { history with latest := visited } s scene

/-- Take a choice that leads out of a scene. -/
def take (g : Stage) (p : Play) (s : Store) (c : Choice) : Passage :=
  match Action.runAll c.actions s with
  | (some e, s) => .fault s (.evaluation e)
  | (none, s) =>
    match c.target.target with
    | .error d => .fault s (.document d)
    | .ok target =>
      let back := Control.of? target = some .back
      g.arrive (if back then p.history else p.history.push p.scene) s target

/-- Go on with a line from the player. -/
def answer (g : Stage) (p : Play) (s : Store) (line : String) : Passage :=
  match p.prompt with
  | .anyLine c => g.take p s c
  | .number menu =>
    match menu.choose? line with
    | some c => g.take p s c
    | none => ⟨[menu.hint, Menu.question], s, .waiting p⟩

end Stage

/-- A play from its start to the end of the lines that the player gave. -/
structure Transcript where
  lines : List String
  reads : Nat
  result : Except Fault Outcome
  store : Store

namespace Stage

/-- Go on from a passage with the lines that the player gives. -/
def play (g : Stage) : List String → Passage → Transcript
  | answers, ⟨lines, s, progress⟩ =>
    match progress with
    | .ended o => ⟨lines, 0, .ok o, s⟩
    | .failed f => ⟨lines, 0, .error f, s⟩
    | .waiting p =>
      match answers with
      | [] => ⟨lines, 1, .error .endOfInput, s⟩
      | answer :: rest =>
        let t := play g rest (g.answer p s answer)
        { t with lines := lines ++ t.lines, reads := t.reads + 1 }

end Stage

namespace Session

/-- The stage of an adventure of a session. -/
def stage (s : Session) (a : Adventure) : Stage := ⟨a, s.story.registry, s.settings⟩

/-- The line about an adventure that is not loaded. -/
def notLoaded (name : String) : String := "FAIL: No adventure named " ++ name ++ " is loaded."

/-- The beginning of a play of a loaded adventure.  Nothing is shown or assigned
unless all references are linked. -/
def begin (s : Session) (a : Adventure) : Passage :=
  if !s.isLinked then .fault s.store (.impasse .notLinked)
  else
    match History.ofCapacity s.settings.historyCapacity with
    | .error e => .fault s.store (.history e)
    | .ok history =>
      match a.start.target with
      | .error d => .fault s.store (.document d)
      | .ok start => (s.stage a).arrive history s.store start

/-- Play an adventure with the lines that the player gives. -/
def run (s : Session) (name : String) (answers : List String) : Transcript × Session :=
  match s.story.find? name with
  | none => (⟨[notLoaded name], 0, .ok .notFound, s.store⟩, s)
  | some a =>
    let transcript := (s.stage a).play answers (s.begin a)
    (transcript, { s with store := transcript.store })

end Session
end Gamebook
