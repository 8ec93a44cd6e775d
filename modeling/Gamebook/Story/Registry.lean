/-
# The registry of scenes

Every scene of a session, once each, in the order in which they were
registered.  A scene is never replaced by another one and never removed;
linking only changes the references of its choices.
-/

import Gamebook.Story.Scene

namespace Gamebook

/-- The scenes of a session. -/
structure Registry where
  scenes : List Scene := []

namespace Registry

/-- The registry without scenes. -/
def empty : Registry := {}

/-- The identifiers of the scenes, in order of registration. -/
def identifiers (r : Registry) : List Identifier := r.scenes.map (·.identifier)

/-- How many scenes there are. -/
def size (r : Registry) : Nat := r.scenes.length

/-- The scene with an identifier. -/
def find? (r : Registry) (i : Identifier) : Option Scene := r.scenes.find? fun s => s.identifier = i

/-- Whether there is a scene with an identifier. -/
def contains (r : Registry) (i : Identifier) : Bool := r.scenes.any fun s => s.identifier = i

/-- The diagnostic for a scene that is registered already. -/
def repeated (i : Identifier) (c : Context) : Diagnostic :=
  ⟨.adventure, .repeatedScene i.canonical, c⟩

/-- The registry with a new scene at its end. -/
def register (r : Registry) (s : Scene) (c : Context) : Except Diagnostic Registry :=
  if r.contains s.identifier then .error (repeated s.identifier c) else .ok ⟨r.scenes ++ [s]⟩

/-- The scene with an identifier, or a diagnostic at a level. -/
def resolve (r : Registry) (i : Identifier) (place : Place) (c : Context) :
    Except Diagnostic Scene :=
  match r.find? i with
  | some s => .ok s
  | none => .error ⟨place, .unknownScene i.canonical, c.visit (.string i.canonical)⟩

/-- The registry with the choices of one scene changed. -/
def setChoices (r : Registry) (i : Identifier) (choices : List Choice) : Registry :=
  ⟨r.scenes.map fun s => if s.identifier = i then { s with choices } else s⟩

/-- Changing choices moves no scene. -/
@[simp] theorem identifiers_setChoices (r : Registry) (i : Identifier) (choices : List Choice) :
    (r.setChoices i choices).identifiers = r.identifiers := by
  simp only [identifiers, setChoices, List.map_map]
  congr 1
  funext s
  simp only [Function.comp]
  split <;> rfl

/-- A scene is registered just if its identifier is among those of the registry. -/
theorem contains_iff (r : Registry) (i : Identifier) : r.contains i = true ↔ i ∈ r.identifiers := by
  simp [contains, identifiers]

/-- A scene is found exactly when it is registered. -/
theorem isSome_find? (r : Registry) (i : Identifier) : (r.find? i).isSome = r.contains i := by
  simp only [find?, contains, List.isSome_find?]

end Registry

namespace Adventure

/-- An adventure as a document shows it, with references by identifier. -/
def toJson (a : Adventure) (r : Registry) : Json :=
  .object
    [("name", .string a.name), ("title", .string a.title.source),
     ("author", .ofText? (a.author.map (·.source))), ("version", .int a.version),
     ("requires", .ofTexts a.requires), ("actions", .ofTexts (a.actions.map (·.source))),
     ("globalTop", .ofText? (a.header.map (·.source))),
     ("globalBottom", .ofText? (a.footer.map (·.source))),
     ("startingScene", .string a.start.identifier.canonical),
     ("scenes", .array ((a.scenes.filterMap r.find?).map Scene.toJson))]

end Adventure
end Gamebook
