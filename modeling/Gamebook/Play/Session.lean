/-
# Sessions

A session holds the adventures that were loaded, the registry of their scenes
and one variable store.  A host loads adventures, links them and then plays
them.

Loading an adventure loads what it requires, depth first and each adventure
once: one that is loaded already, be it still loading its own requirements, is
left alone.  Linking resolves the references between scenes and then runs the
load-time actions of the adventures that have not completed theirs.  A request
that fails leaves what it did before the failure.
-/

import Gamebook.Play.Library
import Gamebook.Play.Settings
import Gamebook.Story.Assembly
import Gamebook.Story.Link

namespace Gamebook

/-- The story before anything is loaded: the control scenes. -/
def Story.opening : Story :=
  match Registry.empty.assemble Control.adventure with
  | .ok (a, r) => ⟨[a], r⟩
  | .error _ => {}

/-- The state of a session. -/
structure Session where
  settings : Settings := {}
  library : Option Library := none
  disk : Disk := {}
  store : Store := {}
  story : Story := .opening
  /-- The names of the adventures whose load-time actions are completed. -/
  ready : List String := []

/-- A request to a session. -/
abbrev Request := ExceptT Fault (StateM Session)

namespace Session

/-- A session that looks for required adventures in a library or, without one,
in the directory of its settings. -/
def start (settings : Settings) (library : Option Library) (disk : Disk) : Session :=
  { settings, disk, library := library.or (settings.adventureDirectory.map .directory) }

/-- The names of the adventures, in the order in which they were loaded. -/
def names (s : Session) : List String := s.story.adventures.map (·.name)

/-- Whether an adventure with a name is loaded. -/
def isLoaded (s : Session) (name : String) : Bool := (s.story.find? name).isSome

/-- Whether every reference of every adventure is resolved. -/
def isLinked (s : Session) : Bool := s.story.isLinked

/-- Whether the load-time actions of an adventure are completed. -/
def isReady (s : Session) (name : String) : Bool := s.ready.contains name

end Session

namespace Request

/-- A result that does not depend on the session. -/
def ofExcept {α : Type} (result : Except Fault α) : Request α := ExceptT.mk (pure result)

/-- Refuse to load an adventure. -/
def refuse {α : Type} (cause : Cause) : Request α :=
  throw (.document { place := .adventure, cause })

/-- Refuse an adventure whose name is taken. -/
def requireNew (name : String) : Request Unit := do
  if (← get).isLoaded name then refuse (.alreadyLoaded name)

/-- Register the scenes of a document and put its adventure behind the others. -/
def introduce (document : Json) : Request Adventure := do
  if let some (.string name) := document.get? "name" then
    requireNew name
  match (← get).story.registry.assembleDocument document with
  | .error d => throw (.document d)
  | .ok (a, registry) =>
    modify fun s => { s with story := { s.story with registry } }
    requireNew a.name
    modify fun s => { s with story := { s.story with adventures := s.story.adventures ++ [a] } }
    return a

/-- The document of a required adventure. -/
def fetch (name : String) : Option Library → Request Json
  | none => refuse (.noSource name)
  | some library => do ofExcept (library.fetch (← get).disk name)

/-- Load a document and then what it requires, in rows of at most the given
length. -/
def loadRow : Nat → Option Library → Json → Request Adventure
  | 0, _, _ => throw .endlessRow
  | length + 1, library, document => do
    let a ← introduce document
    a.requires.forM fun name => do
      if !(← get).isLoaded name then
        let library := library.or (← get).library
        let required ← fetch name library
        discard <| loadRow length library required
    return a

/-- How many adventures can be loaded in a row: each but the first one is the
first of its name from the library. -/
def rowLength (library : Option Library) : Request Nat := do
  let s ← get
  match library.or s.library with
  | none => return 1
  | some l => return l.size s.disk + 1

/-- Load the adventure of a document, with a library for what it requires. -/
def load (document : Json) (library : Option Library := none) : Request Adventure := do
  loadRow (← rowLength library) library document

/-- Load the adventure in a file.  What it requires is looked for in the
session's library or, without one, next to the file. -/
def loadFile (path : Path) : Request Adventure := do
  let s ← get
  let library := s.library.getD (.directory path.parent)
  load (← ofExcept (Library.readDocument s.disk path)) (some library)

/-- Load a bundled adventure and what it requires. -/
def loadBundled (name : String) : Request Adventure := do
  load (← ofExcept (Library.bundled.find (← get).disk name)) (some .bundled)

/-- Have the adventure with a name loaded. -/
def require (name : String) (library : Option Library := none) : Request Adventure := do
  let s ← get
  match s.story.find? name with
  | some a => return a
  | none =>
    let library := library.or s.library
    load (← fetch name library) library

/-- Run the load-time actions of an adventure, unless they are completed. -/
def initialise (a : Adventure) : Request Unit := do
  let s ← get
  if !s.isReady a.name then
    let (failure, store) := Action.runAll a.actions s.store
    set { s with store }
    match failure with
    | some e => throw (.evaluation e)
    | none => modify fun s => { s with ready := s.ready ++ [a.name] }

/-- Resolve all references, and then run the load-time actions that are left. -/
def link : Request Unit := do
  let pass := (← get).story.link
  modify fun s => { s with story := pass.result }
  match pass.failure with
  | some d => throw (.document d)
  | none => pass.result.adventures.forM initialise

/-- The labels of the choices of a scene that are open, and of those that are not. -/
def labels (scene : Identifier) : Request (List String × List String) := do
  let s ← get
  match s.story.registry.resolve scene .identifier {} with
  | .error d => throw (.document d)
  | .ok found =>
    let labels : Except EvalError (List String × List String) := do
      let (available, unavailable) ← Choice.partition s.store found.choices
      let render (c : Choice) := c.label.render s.settings.placeholder s.store
      return (← available.mapM render, ← unavailable.mapM render)
    ofExcept (labels.mapError .evaluation)

end Request
end Gamebook
