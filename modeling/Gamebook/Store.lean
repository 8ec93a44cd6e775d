/-
# The variable store

A finite map from identifiers to numbers that remembers the order in which its
keys were first assigned.  Assigning to a key that is present moves nothing, a
new key goes to the end, and a key that is erased and assigned again goes to
the end too.  Reading a key that was never assigned is a failure of its own
(`undefined`), so that a misspelt variable shows at once.

Hosts may name a key by any value (`Store.keyOf`); what they assign has to be a
number that binary64 can hold (`Store.assign`).
-/

import Gamebook.Bindings
import Gamebook.Identifier

namespace Gamebook

/-- A store: pairs of identifiers and numbers, in order of first assignment. -/
structure Store where
  entries : List (Identifier × Float) := []
  deriving Inhabited

/-- Why a host's operation on the store fails. -/
inductive StoreError where
  | undefined (i : Identifier)
  | absent (i : Identifier)
  | malformedKey (d : Diagnostic)
  | notNumber (kind : String)
  | tooLarge

/-- The wording of an error. -/
def StoreError.message : StoreError → String
  | undefined i => "Variable " ++ i.canonical ++ " used before assignment."
  | absent i =>
    "Identifier(namespace=" ++ Text.quote i.scope ++ ", name=" ++ Text.quote i.name ++ ")"
  | malformedKey d => d.describe
  | notNumber kind => "variables hold numbers, got <class '" ++ kind ++ "'>"
  | tooLarge => "int too large to convert to float"

namespace Store

/-- The store without entries. -/
def empty : Store := {}

/-- The number assigned to an identifier. -/
def get? (s : Store) (i : Identifier) : Option Float := s.entries.lookup i

/-- Whether an identifier was assigned. -/
def contains (s : Store) (i : Identifier) : Bool := (s.get? i).isSome

/-- The identifiers in order of first assignment. -/
def keys (s : Store) : List Identifier := s.entries.map (·.1)

/-- How many identifiers are assigned. -/
def size (s : Store) : Nat := s.entries.length

/-- The store after an assignment. -/
def insert (s : Store) (i : Identifier) (x : Float) : Store := ⟨Bindings.insert i x s.entries⟩

/-- The store without an identifier. -/
def erase (s : Store) (i : Identifier) : Store := ⟨s.entries.filter fun e => e.1 ≠ i⟩

/-- The entries in the order of their written identifiers. -/
def sorted (s : Store) : List (Identifier × Float) :=
  s.entries.mergeSort fun a b => decide (a.1.canonical ≤ b.1.canonical)

/-! ## Operations of a host -/

/-- The key that a value names. -/
def keyOf (key : Json) : Except StoreError Identifier :=
  (Identifier.ofCanonical key).mapError .malformedKey

/-- The number that a value is. -/
def numberOf : Json → Except StoreError Float
  | .int n => match Decimal.ofWhole? n with
    | some x => .ok x
    | none => .error .tooLarge
  | .float x => .ok x
  | v => .error (.notNumber v.kind)

/-- Read a key. -/
def read (s : Store) (i : Identifier) : Except StoreError Float :=
  match s.get? i with
  | some x => .ok x
  | none => .error (.undefined i)

/-- Read a key, or the default if the key is absent. -/
def readOr (s : Store) (i : Identifier) (default : Json) : Json :=
  match s.get? i with
  | some x => .float x
  | none => default

/-- Assign a value to a key.  The value is looked at before the key. -/
def assign (s : Store) (key value : Json) : Except StoreError Store := do
  let x ← numberOf value
  let i ← keyOf key
  return s.insert i x

/-- Erase a key that is present. -/
def remove (s : Store) (i : Identifier) : Except StoreError Store :=
  if s.contains i then .ok (s.erase i) else .error (.absent i)

/-- Whether a value names a key that is present; a value that names no key names
none that is present. -/
def has (s : Store) (key : Json) : Bool :=
  match keyOf key with
  | .ok i => s.contains i
  | .error _ => false

/-- The store of a list of assignments. -/
def ofValues (values : List (String × Json)) : Except StoreError Store :=
  values.foldlM (fun s (key, value) => s.assign (.string key) value) empty

/-! ## The map that a store is -/

/-- What was assigned last is read. -/
@[simp] theorem get?_insert_self (s : Store) (i : Identifier) (x : Float) :
    (s.insert i x).get? i = some x := Bindings.lookup_insert_self i x s.entries

/-- Other identifiers keep their numbers. -/
theorem get?_insert_of_ne {i j : Identifier} (s : Store) (x : Float) (h : j ≠ i) :
    (s.insert i x).get? j = s.get? j := Bindings.lookup_insert_of_ne x s.entries h

/-- An assignment keeps the order of the keys, and a new one goes to the end. -/
theorem keys_insert (s : Store) (i : Identifier) (x : Float) :
    (s.insert i x).keys = if i ∈ s.keys then s.keys else s.keys ++ [i] :=
  Bindings.map_fst_insert i x s.entries

end Store
end Gamebook
