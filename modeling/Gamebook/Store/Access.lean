/-
# Access to the store

A host works on a store one operation at a time, and names the keys by identifiers or
by what these are written as.  An operation looks at its value first, then at its key,
and at the store last; what it did to the store until it fails stays done.
-/

import Gamebook.Store

namespace Gamebook
namespace Store

/-- A key as a host gives it: an identifier, or a value that may be a written one. -/
inductive Key where
  | identifier (i : Identifier)
  | value (v : Json)

/-- The identifier of a key. -/
def Key.resolve : Key → Except StoreError Identifier
  | identifier i => .ok i
  | value v => keyOf v

/-- What a host asks of a store. -/
inductive Operation where
  | set (key : Key) (value : Json)
  | get (key : Key)
  | getOr (key : Key) (default : Json)
  | delete (key : Key)
  | has (key : Key)
  | keys

/-- What a host is told: that something was done, the number of a key, that number or
the default, whether a key is present, or the keys as they are written. -/
inductive Reply where
  | done
  | number (x : Float)
  | value (v : Json)
  | truth (b : Bool)
  | keys (written : List String)

/-- A computation on the store that may fail; the store is left as it is then. -/
abbrev Access (α : Type) := ExceptT StoreError (StateM Store) α

/-- Whether a key is present; one that names no identifier is not. -/
def holds (s : Store) : Key → Bool
  | .identifier i => s.contains i
  | .value v => s.has v

/-- Do what a host asks. -/
def perform : Operation → Access Reply
  | .set key value => do
    let x ← numberOf value
    let i ← key.resolve
    modify (·.insert i x)
    return .done
  | .get key => do
    let i ← key.resolve
    return .number (← (← get).read i)
  | .getOr key default => do
    let i ← key.resolve
    return .value ((← get).readOr i default)
  | .delete key => do
    let i ← key.resolve
    set (← (← get).remove i)
    return .done
  | .has key => return .truth ((← get).holds key)
  | .keys => return .keys ((← get).keys.map (·.canonical))

/-- The reply to an operation, and the store after it. -/
def Operation.answer (op : Operation) (s : Store) : Except StoreError Reply × Store :=
  (perform op).run.run s

end Store
end Gamebook
