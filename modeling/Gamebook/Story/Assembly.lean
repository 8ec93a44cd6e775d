/-
# Assembling adventures

A record becomes an adventure by compiling every text in it, from the outside
in and in the order of the fields.  The context follows the descent: it names
the adventure throughout, the scene and the option while they are compiled, and
the identifier read last, which is forgotten where a record begins.

The scenes are registered only when the whole adventure compiled and none of
them shares an identifier with another one, so that an adventure which fails
leaves the registry as it was.
-/

import Gamebook.Document.Validation
import Gamebook.Story.Registry

namespace Gamebook

/-- A text that has characters. -/
def filled? (s : Option String) : Option String := s.filter (· != "")

/-- Compile a template that may be missing; an empty one is missing. -/
def compileOptional (scope : String) (source : Option String) : Compile (Option Template) :=
  match filled? source with
  | none => pure none
  | some text => return some (← Template.compileText scope text)

/-- Compile a condition that may be missing; an empty one is missing. -/
def compileGuard (scope : String) (source : Option String) : Compile (Option Condition) :=
  match filled? source with
  | none => pure none
  | some text => return some (← Condition.compileText scope text)

/-- The result of a check that does not look at the context. -/
def Compile.ofExcept {α : Type} (result : Except Diagnostic α) : Compile α := fun c =>
  result.map fun x => (x, c)

/-- Compile an option of a scene. -/
def Choice.assemble (scope : String) (r : OptionRecord) : Compile Choice := do
  modify fun c => { c with option := Choice.tagOf r.label, identifier := .string "" }
  let label ← Template.compileText scope r.label
  let target ← Identifier.resolve scope (.string r.target)
  let condition ← compileGuard scope r.condition
  let actions ← Action.compileAll scope r.actions
  return { label, target := .unresolved target, condition, alwaysVisible := r.alwaysVisible,
           actions }

/-- Compile a scene of an adventure with the given lines above and below. -/
def Scene.assemble (scope : String) (header footer : Option Template) (r : SceneRecord) :
    Compile Scene := do
  modify fun c => { c with scene := r.name, option := "", identifier := .string "" }
  let identifier ← Compile.ofExcept (Identifier.ofParts (.string scope) (.string r.name))
  let title ← Template.compileText scope r.title
  let content ← r.content.mapM (Template.compileText scope)
  let actions ← Action.compileAll scope r.actions
  let choices ← r.options.mapM (Choice.assemble scope)
  modify fun c => { c with option := "" }
  return { identifier, title, content, actions, choices, header, footer }

/-- Compile a whole adventure: the adventure and its scenes. -/
def Adventure.compile (r : AdventureRecord) : Compile (Adventure × List Scene) := do
  let title ← Template.compileText r.name r.title
  let start ← Identifier.resolve r.name (.string r.startingScene)
  let author ← compileOptional r.name r.author
  let actions ← Action.compileAll r.name r.actions
  let header ← compileOptional r.name r.globalTop
  let footer ← compileOptional r.name r.globalBottom
  modify fun c => { c with identifier := .string "" }
  let scenes ← r.scenes.mapM (Scene.assemble r.name header footer)
  let adventure : Adventure :=
    { name := r.name, title, version := r.version, start := .unresolved start, author,
      requires := r.requires.filter (· != Control.scope), actions, header, footer,
      scenes := scenes.map (·.identifier) }
  return (adventure, scenes)

namespace Registry

/-- Register scenes in order; the first one that is registered already, be it by
an earlier one of them, stops the registration. -/
def registerAll (r : Registry) (c : Context) : List Scene → Except Diagnostic Registry
  | [] => .ok r
  | s :: rest => do
    let r ← r.register s c
    registerAll r c rest

/-- Assemble an adventure and register its scenes. -/
def assemble (r : Registry) (record : AdventureRecord) :
    Except Diagnostic (Adventure × Registry) := do
  let context : Context := { adventure := record.name }
  let ((adventure, scenes), _) ← (Adventure.compile record).run context
  let r ← r.registerAll context scenes
  return (adventure, r)

/-- Validate a document, assemble its adventure and register its scenes. -/
def assembleDocument (r : Registry) (document : Json) :
    Except Diagnostic (Adventure × Registry) := do
  let record ← AdventureRecord.validate document
  r.assemble record

end Registry
end Gamebook
