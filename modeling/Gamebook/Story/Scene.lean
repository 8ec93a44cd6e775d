/-
# Scenes and adventures

An adventure is a set of scenes with choices between them.  A choice names the
scene it leads to by an identifier (`SceneRef.unresolved`) until the references
are linked (`SceneRef.resolved`); a scene is kept once, in the registry, and
everything else refers to it by its identifier.

Five scenes of the control namespace stand for what the player does not see: the
end of an adventure in success or failure, leaving, going back, and switching
to another adventure.
-/

import Gamebook.Document.Record
import Gamebook.Script.Action
import Gamebook.Script.Template

namespace Gamebook

/-- What the scenes of the control namespace stand for. -/
inductive Control where
  | switch
  | fail
  | pass
  | exit
  | back
  deriving Repr, DecidableEq

namespace Control

/-- The scope of the control scenes. -/
def scope : String := "inkspire"

/-- All control scenes. -/
def all : List Control := [switch, fail, pass, exit, back]

/-- The name of a control scene. -/
def name : Control → String
  | switch => "switch"
  | fail => "fail"
  | pass => "pass"
  | exit => "exit"
  | back => "back"

/-- The name of a control scene at the start of a title. -/
def title : Control → String
  | switch => "Switch"
  | fail => "Fail"
  | pass => "Pass"
  | exit => "Exit"
  | back => "Back"

/-- What a scene of an identifier stands for, if it is a control scene. -/
def of? (i : Identifier) : Option Control :=
  if i.scope = scope then all.find? fun c => c.name = i.name else none

/-- The adventure that owns the control scenes. -/
def adventure : AdventureRecord where
  name := scope
  title := "Inkspire System"
  version := 1
  author := some "Inkspire"
  startingScene := exit.name
  scenes := all.map fun c =>
    { name := c.name, title := c.title ++ " Control Scene",
      content := ["Control scene " ++ c.name ++ "."] }

end Control

/-- A reference to a scene. -/
inductive SceneRef where
  | unresolved (i : Identifier)
  | resolved (i : Identifier)
  deriving DecidableEq

namespace SceneRef

/-- The scene that is referred to. -/
def identifier : SceneRef → Identifier
  | unresolved i => i
  | resolved i => i

/-- Whether the reference is linked. -/
def isResolved : SceneRef → Bool
  | unresolved _ => false
  | resolved _ => true

/-- The scene of a linked reference. -/
def target : SceneRef → Except Diagnostic Identifier
  | resolved i => .ok i
  | unresolved i =>
    .error ⟨.identifier, .unlinkedScene i.canonical, { identifier := .string i.canonical }⟩

end SceneRef

/-- A choice that leads out of a scene. -/
structure Choice where
  label : Template
  target : SceneRef
  condition : Option Condition
  alwaysVisible : Bool
  actions : List Action

namespace Choice

/-- Whether a choice is open: it has no condition, or its condition holds. -/
def isOpen (c : Choice) (s : Store) : Except EvalError Bool :=
  match c.condition with
  | none => .ok true
  | some condition => condition.holds s

/-- The choices that are open and those that are not, each in order. -/
def partition (s : Store) : List Choice → Except EvalError (List Choice × List Choice)
  | [] => .ok ([], [])
  | c :: rest => do
    let isOpen ← c.isOpen s
    let (available, unavailable) ← partition s rest
    return if isOpen then (c :: available, unavailable) else (available, c :: unavailable)

/-- The name of a choice in diagnostics. -/
def tagOf (label : String) : String := if label = "" then "(unlabelled)" else label

/-- A choice as a document shows it. -/
def toJson (c : Choice) : Json :=
  .object
    [("label", .string c.label.source), ("target", .string c.target.identifier.canonical),
     ("condition", .ofText? (c.condition.map (·.source))), ("alwaysVisible", .bool c.alwaysVisible),
     ("actions", .ofTexts (c.actions.map (·.source)))]

end Choice

/-- A scene, with the lines that its adventure shows above and below it. -/
structure Scene where
  identifier : Identifier
  title : Template
  content : List Template
  actions : List Action
  choices : List Choice
  header : Option Template
  footer : Option Template

namespace Scene

/-- What the scene stands for, if it is a control scene. -/
def control? (s : Scene) : Option Control := Control.of? s.identifier

/-- A scene as a document shows it. -/
def toJson (s : Scene) : Json :=
  .object
    [("name", .string s.identifier.name), ("title", .string s.title.source),
     ("actions", .ofTexts (s.actions.map (·.source))),
     ("content", .ofTexts (s.content.map (·.source))),
     ("options", .array (s.choices.map Choice.toJson))]

end Scene

/-- An adventure; its scenes are in the registry. -/
structure Adventure where
  name : String
  title : Template
  version : Int
  start : SceneRef
  author : Option Template
  requires : List String
  actions : List Action
  header : Option Template
  footer : Option Template
  scenes : List Identifier

end Gamebook
