/-
# The history of a play

A stack of what was visited that forgets its oldest entry once it holds more
than its capacity.  The latest entry comes first.

A capacity is a whole number from one on; what is larger than a machine word
can count is refused when a history is made.
-/

import Gamebook.Json.Basic

namespace Gamebook

/-- A stack of bounded size, the latest entry first. -/
structure History (α : Type) where
  capacity : Nat
  latest : List α := []
  deriving Repr, DecidableEq

/-- Why a value is no capacity. -/
inductive CapacityError where
  | notWhole (kind : String)
  | notPositive
  | tooLarge
  deriving Repr, DecidableEq

/-- The wording of an error. -/
def CapacityError.message : CapacityError → String
  | notWhole kind => "capacity must be an int, got <class '" ++ kind ++ "'>"
  | notPositive => "capacity must be a positive integer"
  | tooLarge => "Python int too large to convert to C ssize_t"

namespace History

variable {α : Type}

/-- The capacity where none is given. -/
def defaultCapacity : Nat := 16

/-- The first capacity that is refused as too large. -/
def capacityLimit : Nat := Nat.pow 2 63

/-- The history without entries. -/
def ofCapacity (n : Int) : Except CapacityError (History α) :=
  if n < 1 then .error .notPositive
  else if n.toNat < capacityLimit then .ok ⟨n.toNat, []⟩
  else .error .tooLarge

/-- The history without entries, of a capacity given as a value. -/
def ofJson : Json → Except CapacityError (History α)
  | .int n => ofCapacity n
  | v => .error (.notWhole v.kind)

/-- The history after a visit. -/
def push (h : History α) (a : α) : History α := { h with latest := (a :: h.latest).take h.capacity }

/-- The latest entry, and the history before it. -/
def pop? (h : History α) : Option (α × History α) :=
  match h.latest with
  | [] => none
  | a :: rest => some (a, { h with latest := rest })

/-- The latest entry. -/
def peek? (h : History α) : Option α := h.latest.head?

/-- The history without its entries. -/
def clear (h : History α) : History α := { h with latest := [] }

/-- The entries from the oldest to the latest. -/
def entries (h : History α) : List α := h.latest.reverse

/-- Whether there is an entry. -/
def isEmpty (h : History α) : Bool := h.latest.isEmpty

end History
end Gamebook
