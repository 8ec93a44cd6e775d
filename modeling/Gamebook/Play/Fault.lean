/-
# Faults

Why a request to a session fails.  A document may be refused or not be found, an
expression may have no value, and a play may come to a point from which no rule
leads on (`Impasse`).
-/

import Gamebook.Disk.Tree
import Gamebook.Formula.Value
import Gamebook.Play.History

namespace Gamebook

/-- A point of a play from which no rule leads on. -/
inductive Impasse where
  /-- The references of the adventures are not linked. -/
  | notLinked
  /-- Nothing was visited before, and the adventure starts by going back. -/
  | backAtStart (adventure scene : String)
  | switching
  | noChoice (scene : String)
  | noOpenChoice (scene : String)
  deriving Repr, DecidableEq

/-- The wording of an impasse. -/
def Impasse.message : Impasse → String
  | notLinked => "Adventures must be linked before they can be run."
  | backAtStart adventure scene =>
    "Starting scene of " ++ adventure ++ " cannot be " ++ scene ++ "."
  | switching => "Switching adventures is not implemented."
  | noChoice scene => "Scene " ++ scene ++ " has no options."
  | noOpenChoice scene => "Scene " ++ scene ++ " has no available options."

/-- Why a request fails. -/
inductive Fault where
  | document (d : Diagnostic)
  | evaluation (e : EvalError)
  | impasse (i : Impasse)
  | disk (e : DiskError)
  | history (e : CapacityError)
  /-- A file has a whole number with more digits than are read. -/
  | longNumber (digits : Nat)
  /-- A file has half of a surrogate pair, and what becomes of its document is left open. -/
  | loneSurrogate
  /-- A file has a document on which the stack of the program runs out. -/
  | tooDeep
  /-- The adventure directory starts at a home that is not known. -/
  | noHome
  /-- What a library holds under a name is a value of another kind than an object. -/
  | notObject (kind : String)
  /-- The player answers no more. -/
  | endOfInput
  /-- Documents require each other in a longer row than their library has documents. -/
  | endlessRow

/-- The wording of a fault. -/
def Fault.message : Fault → String
  | document d => d.describe
  | evaluation e => e.message
  | impasse i => i.message
  | disk e => e.message
  | history e => e.message
  | longNumber digits =>
    "Exceeds the limit (" ++ toString Decimal.digitLimit ++
      " digits) for integer string conversion: value has " ++ toString digits ++
      " digits; use sys.set_int_max_str_digits() to increase the limit"
  | loneSurrogate => "A document has half of a surrogate pair."
  | tooDeep => "maximum recursion depth exceeded"
  | noHome => HomeError.unknown.message
  | notObject kind => "'" ++ kind ++ "' object has no attribute 'get'"
  | endOfInput => "no more input"
  | endlessRow => "Requirements do not end."

end Gamebook
