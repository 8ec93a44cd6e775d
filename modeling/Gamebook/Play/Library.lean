/-
# Libraries

Where the documents of required adventures are looked up by name: among given
documents, among the bundled ones, or in a directory, where the document of the
adventure `name` is the file `name.json`.

A file has to hold a JSON object.  Files are read by `Library.readDocument` whether
a library names them or not.
-/

import Gamebook.Document.Bundled
import Gamebook.Document.Field
import Gamebook.Json.Reader
import Gamebook.Play.Fault

namespace Gamebook

/-- Where documents are looked up by name. -/
inductive Library where
  | documents (ds : List (String × Json))
  | bundled
  | directory (path : Path)

namespace Library

/-- A refusal of a document before it is looked into. -/
def refuse {α : Type} (cause : Cause) : Except Fault α :=
  .error (.document { place := .adventure, cause })

/-- The object that the text of a file writes. -/
def readText (path : Path) (text : String) : Except Fault Json :=
  match Json.read text with
  | .error (.malformed problem offset) =>
    refuse (.fileNotJson path.text (Json.describe text problem offset))
  | .error (.longNumber digits) => .error (.longNumber digits)
  | .error .loneSurrogate => .error .loneSurrogate
  | .ok (.object members) => .ok (.object members)
  | .ok _ => refuse (.fileNotObject path.text)

/-- The object in a file. -/
def readDocument (disk : Disk) (path : Path) : Except Fault Json :=
  match disk.read path with
  | .error e => .error (.disk e)
  | .ok text => if disk.deep.contains path then .error .tooDeep else readText path text

/-- The file of an adventure in a directory. -/
def fileOf (directory : Path) (name : String) : Path :=
  directory.join (Path.ofText (name ++ ".json"))

/-- The document that a library holds under a name. -/
def find (disk : Disk) (name : String) : Library → Except Fault Json
  | documents ds =>
    match ds.lookup name with
    | some document => .ok document
    | none => refuse (.unavailable name)
  | bundled =>
    match Bundled.documents.lookup name with
    | some document => .ok document
    | none => .error (.disk (.notFound (Path.ofText (name ++ ".json"))))
  | directory path =>
    let file := fileOf path name
    match readDocument disk file with
    | .error (.disk (.notFound _)) => refuse (.notFoundAt name file.text)
    | result => result

/-- The document of the adventure with a name, which it has to declare itself. -/
def fetch (disk : Disk) (name : String) (l : Library) : Except Fault Json := do
  match ← l.find disk name with
  | .object members =>
    let declared := (members.lookup "name").getD .null
    match declared with
    | .string s => if s = name then return .object members else refuse (.misnamed name declared)
    | _ => refuse (.misnamed name declared)
  | v => .error (.notObject v.kind)

/-- The names that the document in a text requires, whether it is valid or not. -/
def requiredBy (text : String) : List String :=
  match Json.read text with
  | .ok (.object members) =>
    match Check.names ((members.lookup "requires").getD .null) with
    | .ok names => names
    | .error _ => []
  | _ => []

/-- How many documents a library can hold. -/
def size (disk : Disk) : Library → Nat
  | documents ds => ds.length
  | bundled => Bundled.documents.length
  | directory _ => disk.files.length

end Library
end Gamebook
