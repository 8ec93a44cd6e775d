/-
# Validating documents

`validate` turns a JSON value into an adventure record or into a diagnostic
about the first violation.  Blank texts count as missing where a field may be
missing, names and targets lose the blanks around them, and statements may be
given as one text or as a list.

The diagnostic stands at the option, the scene or the adventure that the
violation is in, and names it as the document does: by its own name or label if
that is a text, otherwise by its index.
-/

import Gamebook.Document.Field
import Gamebook.Document.Record

namespace Gamebook

namespace Check

/-- The only version of the document format. -/
def formatVersion : Int := 1

/-- The version of a document. -/
def version : Check Int := fun v => do
  let n ← whole v
  if n = formatVersion then return n else refuse (.version n)

/-- A target without the blanks around it. -/
def target : Check String := fun v => do
  let s ← filledText "target" v
  return Text.trim s

/-- A condition; a blank one is none. -/
def condition : Check (Option String)
  | .string s => .ok (if Text.isBlankText s then none else some s)
  | v => textOrNull v

/-- The starting scene; a blank one is the scene `start`. -/
def startingScene : Check String
  | .null => .ok "start"
  | .string s => .ok (if Text.isBlankText s then "start" else s)
  | v => text v

/-- The paragraphs of a scene; at least one. -/
def content : Check (List String) := fun v => do
  let paragraphs ← listOf text v
  if paragraphs.isEmpty then refuse .noItem else return paragraphs

/-- An option. -/
def option : Check OptionRecord
  | .object ms => do
    let label ← required ms "label" text
    let target ← required ms "target" target
    let condition ← optional ms ["condition"] none condition
    let alwaysVisible ← optional ms ["alwaysVisible", "always_visible"] false truth
    let actions ← optional ms ["actions"] [] statements
    return { label, target, condition, alwaysVisible, actions }
  | _ => refuse .notOption

/-- A scene. -/
def scene : Check SceneRecord
  | .object ms => do
    let name ← required ms "name" name
    let title ← required ms "title" (filledText "title")
    let content ← required ms "content" content
    let actions ← optional ms ["actions"] [] statements
    let options ← optional ms ["options"] [] (listOf option)
    return { name, title, content, actions, options }
  | _ => refuse .notScene

/-- The members of an adventure. -/
def adventure (ms : List (String × Json)) : Except Violation AdventureRecord := do
  let name ← required ms "name" name
  let title ← required ms "title" (filledText "title")
  let version ← required ms "version" version
  let author ← optional ms ["author"] none textOrNull
  let requires ← optional ms ["requires"] [] names
  let actions ← optional ms ["actions"] [] statements
  let globalTop ← optional ms ["globalTop", "global_top"] none textOrNull
  let globalBottom ← optional ms ["globalBottom", "global_bottom"] none textOrNull
  let startingScene ← optional ms ["startingScene", "starting_scene"] "start" startingScene
  let scenes ← required ms "scenes" (listOf scene)
  return { name, title, version, author, requires, actions, globalTop, globalBottom,
           startingScene, scenes }

end Check

namespace Violation

/-- The name of a record: its own if that is a text with characters. -/
def nameOr (fallback : String) : Option Json → String
  | some (.string s) => if s = "" then fallback else s
  | _ => fallback

/-- An item of a member that is a list. -/
def itemAt (v : Json) (key : String) (index : Nat) : Option Json := do
  let items ← (← v.get? key).items?
  items[index]?

/-- The record that a path leads into, named as the document does. -/
def locate (document : Json) (path : List Step) : Place × Context :=
  let adventure := nameOr "unknown" (document.get? "name")
  match path with
  | .member "scenes" :: .item i :: inside =>
    let scene := itemAt document "scenes" i
    let sceneName := nameOr ("#" ++ toString i) (scene.bind (·.get? "name"))
    match inside with
    | .member "options" :: .item j :: _ =>
      let option := scene.bind fun s => itemAt s "options" j
      let label := nameOr ("#" ++ toString j) (option.bind (·.get? "label"))
      (.option, { adventure, scene := sceneName, option := label })
    | _ => (.scene, { adventure, scene := sceneName })
  | _ => (.adventure, { adventure })

/-- The last field name of a path. -/
def field (path : List Step) : String :=
  (path.reverse.findSome? fun step => match step with
    | .member name => some name
    | .item _ => none).getD "document"

/-- The diagnostic about a violation in a document. -/
def diagnose (document : Json) (v : Violation) : Diagnostic :=
  let (place, context) := locate document v.path
  ⟨place, .field (field v.path) v.problem, context⟩

end Violation

/-- The record of a document. -/
def AdventureRecord.validate (document : Json) : Except Diagnostic AdventureRecord :=
  match document with
  | .object ms => (Check.adventure ms).mapError (Violation.diagnose document)
  | _ => .error { place := .adventure, cause := .notAnObject }

end Gamebook
