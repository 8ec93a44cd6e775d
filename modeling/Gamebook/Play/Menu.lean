/-
# Menus

What a scene offers the player.  A scene with one choice only waits for any
line.  A scene with several shows a menu: the open choices under the numbers
from one on and, under a cross, those that are not open but always visible.  The
player takes an open choice by its number.
-/

import Gamebook.Story.Scene
import Gamebook.Text.LowerCase

namespace Gamebook

/-- The choices of a scene, the open ones apart from the others. -/
structure Menu where
  available : List Choice
  unavailable : List Choice

namespace Menu

/-- The mark of a choice that is shown and not open. -/
def closedMark : String := "X"

/-- The line before the choices. -/
def header : String := "You could..."

/-- The question after the choices. -/
def question : String := "What do you do?"

/-- The line that waits for any answer. -/
def pause : String := "Press enter to continue..."

/-- The line after an answer that takes no choice. -/
def hint (m : Menu) : String :=
  "Select one of the options by entering a number from 1 to " ++ toString m.available.length ++ "."

/-- Choices with the numbers from one on as their marks. -/
def numbered (choices : List Choice) : List (String × Choice) :=
  choices.zipIdx.map fun (c, i) => (toString (i + 1), c)

/-- The choices that are shown, with their marks. -/
def shown (m : Menu) : List (String × Choice) :=
  numbered m.available ++ (m.unavailable.filter (·.alwaysVisible)).map fun c => (closedMark, c)

/-- The lines of marked choices up to the first label that cannot be rendered. -/
def entries (placeholder : Option String) (s : Store) :
    List (String × Choice) → List String × Option EvalError
  | [] => ([], none)
  | (mark, c) :: rest =>
    match c.label.render placeholder s with
    | .error e => ([], some e)
    | .ok label =>
      let (lines, failure) := entries placeholder s rest
      ((mark ++ ": " ++ label) :: lines, failure)

/-- The open choice that an answer takes. -/
def choose? (m : Menu) (answer : String) : Option Choice := do
  let n ← Decimal.readWhole (Text.trim answer)
  if n < 1 then none else m.available[n.toNat - 1]?

/-- The lines that a single choice is offered with. -/
def single (label : String) : List String :=
  (if label = "" then [] else ["You " ++ Text.uncapitalize label]) ++ [pause]

/-- What is chosen is among the open choices. -/
theorem mem_available_of_choose? {m : Menu} {answer : String} {c : Choice}
    (h : m.choose? answer = some c) : c ∈ m.available := by
  simp only [choose?, Option.bind_eq_bind, Option.bind_eq_some_iff] at h
  obtain ⟨n, _, h⟩ := h
  split at h
  · simp at h
  · exact List.mem_of_getElem? h

end Menu
end Gamebook
