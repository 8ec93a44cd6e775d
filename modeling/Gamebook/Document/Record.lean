/-
# Records of a document

What is left of an adventure document once its shape has been checked: an
adventure with its scenes and their options, every field of one type.  Text is
still uncompiled.  `toJson` writes a record under the field names of documents.
-/

import Gamebook.Json.Basic

namespace Gamebook

/-- A choice that leads out of a scene. -/
structure OptionRecord where
  label : String
  target : String
  condition : Option String := none
  alwaysVisible : Bool := false
  actions : List String := []
  deriving Repr, DecidableEq, Inhabited

/-- A scene with the choices out of it. -/
structure SceneRecord where
  name : String
  title : String
  content : List String
  actions : List String := []
  options : List OptionRecord := []
  deriving Repr, DecidableEq, Inhabited

/-- An adventure. -/
structure AdventureRecord where
  name : String
  title : String
  version : Int
  author : Option String := none
  requires : List String := []
  actions : List String := []
  globalTop : Option String := none
  globalBottom : Option String := none
  startingScene : String := "start"
  scenes : List SceneRecord
  deriving Repr, DecidableEq

namespace Json

/-- Texts as an array. -/
def ofTexts (texts : List String) : Json := array (texts.map string)

/-- A text that may be missing. -/
def ofText? : Option String → Json
  | some s => string s
  | none => null

end Json

/-- An option under the field names of documents. -/
def OptionRecord.toJson (r : OptionRecord) : Json :=
  .object
    [("label", .string r.label), ("target", .string r.target), ("condition", .ofText? r.condition),
     ("alwaysVisible", .bool r.alwaysVisible), ("actions", .ofTexts r.actions)]

/-- A scene under the field names of documents. -/
def SceneRecord.toJson (r : SceneRecord) : Json :=
  .object
    [("name", .string r.name), ("title", .string r.title), ("content", .ofTexts r.content),
     ("actions", .ofTexts r.actions), ("options", .array (r.options.map OptionRecord.toJson))]

/-- An adventure under the field names of documents. -/
def AdventureRecord.toJson (r : AdventureRecord) : Json :=
  .object
    [("name", .string r.name), ("title", .string r.title), ("version", .int r.version),
     ("author", .ofText? r.author), ("requires", .ofTexts r.requires),
     ("actions", .ofTexts r.actions), ("globalTop", .ofText? r.globalTop),
     ("globalBottom", .ofText? r.globalBottom), ("startingScene", .string r.startingScene),
     ("scenes", .array (r.scenes.map SceneRecord.toJson))]

end Gamebook
