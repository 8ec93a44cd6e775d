/-
# Tokens

A formula without blanks is cut into numbers, words, operators and
parentheses.  Two languages share this: they differ in what a number is and in
their operators, which an `Alphabet` holds.

A token is taken from the front of the text by the first kind that fits, in the
order above; numbers and words are taken as long as they go, and of the
operators the first one listed that the text starts with.  `Alphabet.tokens`
stops at the first character where no token starts.
-/

import Gamebook.Diagnostic
import Gamebook.Text.Digit

namespace Gamebook

/-- A number or the name of a variable, as it is written. -/
inductive Operand where
  | number (text : String)
  | word (text : String)
  deriving Repr, DecidableEq

/-- A token of a formula. -/
inductive Token where
  | operand (o : Operand)
  | operator (symbol : String)
  | opening
  | closing
  deriving Repr, DecidableEq

/-- The text of a token. -/
def Token.text : Token → String
  | operand (.number text) => text
  | operand (.word text) => text
  | operator symbol => symbol
  | opening => "("
  | closing => ")"

namespace Lexeme

/-- What takes a piece from the front of a text: the piece and what follows it. -/
abbrev Taker := List Char → Option (List Char × List Char)

/-- Decimal digits as far as they go; at least one. -/
def digits : Taker := fun cs =>
  match cs.takeWhile Text.isDigit with
  | [] => none
  | ds => some (ds, cs.dropWhile Text.isDigit)

/-- Digits and, if a point and another digit follow, the fraction. -/
def unsigned : Taker := fun cs => do
  let (whole, rest) ← digits cs
  match rest with
  | '.' :: behind =>
    match digits behind with
    | some (fraction, after) => some (whole ++ '.' :: fraction, after)
    | none => some (whole, rest)
  | _ => some (whole, rest)

/-- An unsigned number, or one with a minus sign before it. -/
def signed : Taker
  | '-' :: cs => (unsigned cs).map fun (text, rest) => ('-' :: text, rest)
  | cs => unsigned cs

/-- Whether a character can start a word. -/
def startsWord (c : Char) : Bool := c.isAlpha || c == '_'

/-- Whether a character can go on a word. -/
def continuesWord (c : Char) : Bool := c.isAlphanum || c == '_' || c == ':'

/-- A letter or an underscore and all letters, digits, underscores and colons
behind it. -/
def word : Taker
  | [] => none
  | c :: cs =>
    if startsWord c then some (c :: cs.takeWhile continuesWord, cs.dropWhile continuesWord)
    else none

/-- The first of some symbols that a text starts with. -/
def symbol (symbols : List String) : Taker := fun cs =>
  symbols.findSome? fun s => (s.toList.isPrefixOf? cs).map fun rest => (s.toList, rest)

/-- Dropping characters makes no text longer, so cutting tokens off ends. -/
theorem length_dropWhile_le (p : Char → Bool) (cs : List Char) :
    (cs.dropWhile p).length ≤ cs.length := (List.dropWhile_suffix p).length_le

/-- What follows digits is no longer than the text. -/
theorem length_le_of_digits {cs text rest : List Char} (h : digits cs = some (text, rest)) :
    rest.length ≤ cs.length := by
  unfold digits at h
  split at h
  · simp at h
  · simp only [Option.some.injEq, Prod.mk.injEq] at h
    exact h.2 ▸ length_dropWhile_le _ _

/-- What follows an unsigned number is no longer than the text. -/
theorem length_le_of_unsigned {cs text rest : List Char} (h : unsigned cs = some (text, rest)) :
    rest.length ≤ cs.length := by
  simp only [unsigned, Option.bind_eq_bind, Option.bind_eq_some_iff] at h
  obtain ⟨⟨whole, behind⟩, hw, h⟩ := h
  have hle := length_le_of_digits hw
  simp only at h
  split at h
  · split at h
    · rename_i hd
      simp only [Option.some.injEq, Prod.mk.injEq] at h
      have := length_le_of_digits hd
      simp only [List.length_cons] at hle
      rw [← h.2]
      omega
    · simp only [Option.some.injEq, Prod.mk.injEq] at h
      exact h.2 ▸ hle
  · simp only [Option.some.injEq, Prod.mk.injEq] at h
    exact h.2 ▸ hle

/-- What follows a signed number is no longer than the text. -/
theorem length_le_of_signed {cs text rest : List Char} (h : signed cs = some (text, rest)) :
    rest.length ≤ cs.length := by
  unfold signed at h
  split at h
  · obtain ⟨⟨t, r⟩, hr, he⟩ := Option.map_eq_some_iff.1 h
    simp only [Prod.mk.injEq] at he
    have := length_le_of_unsigned hr
    simp only [List.length_cons]
    exact he.2 ▸ Nat.le_succ_of_le this
  · exact length_le_of_unsigned h

/-- What follows a word is shorter than the text. -/
theorem length_lt_of_word {cs text rest : List Char} (h : word cs = some (text, rest)) :
    rest.length < cs.length := by
  unfold word at h
  split at h
  · simp at h
  · split at h
    · simp only [Option.some.injEq, Prod.mk.injEq] at h
      rw [← h.2]
      exact Nat.lt_succ_of_le (length_dropWhile_le _ _)
    · simp at h

end Lexeme

/-- The tokens of a language: its numbers and its operators. -/
structure Alphabet where
  number : Lexeme.Taker
  symbols : List String

namespace Alphabet

/-- The token at the front of a text and what follows it. -/
def next (a : Alphabet) (cs : List Char) : Option (Token × List Char) :=
  match a.number cs with
  | some (text, rest) => some (.operand (.number (String.ofList text)), rest)
  | none =>
    match Lexeme.word cs with
    | some (text, rest) => some (.operand (.word (String.ofList text)), rest)
    | none =>
      match Lexeme.symbol a.symbols cs with
      | some (text, rest) => some (.operator (String.ofList text), rest)
      | none =>
        match cs with
        | '(' :: rest => some (.opening, rest)
        | ')' :: rest => some (.closing, rest)
        | _ => none

/-- The tokens of a text, or the first character where none starts. -/
def tokens (a : Alphabet) : List Char → Except Char (List Token)
  | [] => .ok []
  | c :: cs =>
    match a.next (c :: cs) with
    | some (t, rest) =>
      if rest.length ≤ cs.length then do
        let ts ← tokens a rest
        return t :: ts
      else .error c
    | none => .error c
termination_by cs => cs.length

/-- Cut a formula into tokens. -/
def tokenize (a : Alphabet) (place : Place) (source : String) : Compile (List Token) :=
  match a.tokens source.toList with
  | .ok ts => pure ts
  | .error c => Compile.fail place (.unexpectedCharacter c source)

end Alphabet
end Gamebook
