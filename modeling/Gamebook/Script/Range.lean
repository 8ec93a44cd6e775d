/-
# Ranges in conditions

`x=low..high` means that `x` lies between two numbers, both included; either
bound may be left out, but not both.  Before a condition is read, every range
in it is replaced by the comparisons it means, in parentheses:
`(x>=low&&x<=high)`.

A range starts at a letter or an underscore; the name goes on as far as it
can, and each bound is the longest number that leaves the two points standing.
Two points that belong to no range are refused.
-/

import Gamebook.Formula.Token

namespace Gamebook

/-- A range as it is written, with bounds that may be empty. -/
structure WrittenRange where
  name : List Char
  low : Option (List Char)
  high : Option (List Char)
  deriving Repr, DecidableEq

namespace WrittenRange

/-- The lower bound and the two points behind it. -/
def takeLow (cs : List Char) : Option (Option (List Char) × List Char) :=
  match cs with
  | '.' :: '.' :: rest => some (none, rest)
  | _ =>
    match Lexeme.signed cs with
    | some (low, '.' :: '.' :: rest) => some (some low, rest)
    | _ => none

/-- The range at the front of a text and what follows it. -/
def take? (cs : List Char) : Option (WrittenRange × List Char) := do
  let (name, rest) ← Lexeme.word cs
  match rest with
  | '=' :: bounds => do
    let (low, behind) ← takeLow bounds
    match Lexeme.signed behind with
    | some (high, after) => some (⟨name, low, some high⟩, after)
    | none => some (⟨name, low, none⟩, behind)
  | _ => none

/-- The comparisons that a range means, if it has a bound. -/
def comparisons? (r : WrittenRange) : Option (List Char) :=
  match r.low, r.high with
  | none, none => none
  | some low, none => some ('(' :: r.name ++ '>' :: '=' :: low ++ [')'])
  | none, some high => some ('(' :: r.name ++ '<' :: '=' :: high ++ [')'])
  | some low, some high =>
    some ('(' :: r.name ++ '>' :: '=' :: low ++ '&' :: '&' :: r.name ++ '<' :: '=' :: high ++ [')'])

/-- Behind the low bound of a range, less of the text is left, so replacing ranges ends. -/
theorem length_lt_of_takeLow {cs rest : List Char} {low : Option (List Char)}
    (h : takeLow cs = some (low, rest)) : rest.length < cs.length := by
  unfold takeLow at h
  split at h
  · simp only [Option.some.injEq, Prod.mk.injEq] at h
    rw [← h.2]
    simp only [List.length_cons]
    omega
  · split at h
    · rename_i hs
      simp only [Option.some.injEq, Prod.mk.injEq] at h
      have := Lexeme.length_le_of_signed hs
      rw [← h.2]
      simp only [List.length_cons] at this
      omega
    · simp at h

/-- What follows a range is shorter than the text. -/
theorem length_lt_of_take? {cs rest : List Char} {r : WrittenRange}
    (h : take? cs = some (r, rest)) : rest.length < cs.length := by
  simp only [take?, Option.bind_eq_bind, Option.bind_eq_some_iff] at h
  obtain ⟨⟨name, behindName⟩, hw, h⟩ := h
  have hlt := Lexeme.length_lt_of_word hw
  simp only at h
  split at h
  · obtain ⟨⟨low, behind⟩, hl, h⟩ := Option.bind_eq_some_iff.1 h
    have hbounds := length_lt_of_takeLow hl
    simp only [List.length_cons] at hlt
    simp only at h
    split at h
    · rename_i hs
      simp only [Option.some.injEq, Prod.mk.injEq] at h
      have := Lexeme.length_le_of_signed hs
      rw [← h.2]
      omega
    · simp only [Option.some.injEq, Prod.mk.injEq] at h
      rw [← h.2]
      omega
  · simp at h

end WrittenRange

/-- Replace the ranges of a text, or give the name of the first range without a
bound. -/
def expandRanges (cs : List Char) : Except (List Char) (List Char) :=
  match cs with
  | [] => .ok []
  | c :: cs =>
    match _h : WrittenRange.take? (c :: cs) with
    | some (r, rest) =>
      match r.comparisons? with
      | none => .error r.name
      | some text => do
        let expanded ← expandRanges rest
        return text ++ expanded
    | none => do
      let expanded ← expandRanges cs
      return c :: expanded
termination_by cs.length
decreasing_by
  · exact WrittenRange.length_lt_of_take? (by assumption)
  · simp

/-- Whether two points stand next to each other. -/
def hasTwoPoints : List Char → Bool
  | '.' :: '.' :: _ => true
  | _ :: cs => hasTwoPoints cs
  | [] => false

/-- Replace the ranges of a condition without blanks. -/
def expandCondition (condition : String) : Compile String :=
  match expandRanges condition.toList with
  | .error name => Compile.failHere (.unboundedRange (String.ofList name) condition)
  | .ok expanded =>
    if hasTwoPoints expanded then Compile.failHere (.looseRange condition)
    else pure (String.ofList expanded)

end Gamebook
