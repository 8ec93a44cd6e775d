/-
# Reading JSON

A reader for JSON texts that names the first place where the text cannot go on.
Besides the standard grammar it reads `NaN`, `Infinity` and `-Infinity`; of
members with one key the last one counts, in the place of the first.  Two things that
the grammar has are not read: whole numbers with too many digits, and escapes of half a
surrogate pair, which make no text of characters.

A problem is reported at an offset in the text, counted in characters from
zero, and shown with the line and the column of that offset, counted from one.
Where several words could stand, the problem is the word that was expected.
-/

import Gamebook.Bindings
import Gamebook.Json.Basic

namespace Gamebook
namespace Json

/-- What a text can lack. -/
inductive Problem where
  | byteOrderMark
  | value
  | key
  | colon
  | comma
  | unterminated
  | control
  | escape
  | unicodeEscape
  | extra
  deriving Repr, DecidableEq

/-- The name of a problem. -/
def Problem.message : Problem → String
  | byteOrderMark => "Unexpected UTF-8 BOM (decode using utf-8-sig)"
  | value => "Expecting value"
  | key => "Expecting property name enclosed in double quotes"
  | colon => "Expecting ':' delimiter"
  | comma => "Expecting ',' delimiter"
  | unterminated => "Unterminated string starting at"
  | control => "Invalid control character at"
  | escape => "Invalid \\escape"
  | unicodeEscape => "Invalid \\uXXXX escape"
  | extra => "Extra data"

/-- Why a text is not read. -/
inductive ReadError where
  /-- The text is not JSON from an offset on. -/
  | malformed (problem : Problem) (offset : Nat)
  /-- A whole number has more digits than are read. -/
  | longNumber (digits : Nat)
  /-- Escapes write half of a surrogate pair.  This is no character, so no text has it, and
  what a document is read as that is else well formed is left open. -/
  | loneSurrogate
  deriving Repr, DecidableEq

/-- The rest of a text and the offset where it starts. -/
structure Cursor where
  offset : Nat
  rest : List Char
  /-- Whether half of a surrogate pair stands before. -/
  lone : Bool := false

namespace Cursor

/-- The cursor behind the next `n` characters, `rest` being what follows them. -/
def advance (c : Cursor) (n : Nat) (rest : List Char) : Cursor :=
  { c with offset := c.offset + n, rest }

/-- The cursor behind the characters that satisfy `p`. -/
def skipWhile (p : Char → Bool) (c : Cursor) : Cursor :=
  c.advance (c.rest.takeWhile p).length (c.rest.dropWhile p)

/-- The cursor behind spaces, tabs and line ends. -/
def skipSpace (c : Cursor) : Cursor :=
  c.skipWhile fun d => d = ' ' ∨ d = '\t' ∨ d = '\n' ∨ d = '\r'

end Cursor

/-- The failure of a reader at an offset. -/
def fail {α : Type} (problem : Problem) (offset : Nat) : Except ReadError α :=
  .error (.malformed problem offset)

/-- The value of a hexadecimal digit. -/
def hexValue? (c : Char) : Option Nat :=
  if '0' ≤ c ∧ c ≤ '9' then some (c.toNat - 48)
  else if 'a' ≤ c ∧ c ≤ 'f' then some (c.toNat - 87)
  else if 'A' ≤ c ∧ c ≤ 'F' then some (c.toNat - 55)
  else none

/-- The 16-bit unit after `\u`, at the offset of the `u`.  Four digits and one
more character must follow. -/
def readUnit (c : Cursor) : Except ReadError (Nat × Cursor) :=
  match c.rest with
  | 'u' :: h1 :: h2 :: h3 :: h4 :: next :: rest =>
    match hexValue? h1, hexValue? h2, hexValue? h3, hexValue? h4 with
    | some a, some b, some d, some e =>
      .ok (((a * 16 + b) * 16 + d) * 16 + e, c.advance 5 (next :: rest))
    | _, _, _, _ => fail .unicodeEscape c.offset
  | _ => fail .unicodeEscape c.offset

/-- The character of an escape, at the offset of the letter after the backslash.
Two units that are the halves of a pair make one character.  A half without the other
makes none, and the cursor keeps that it was met. -/
def readEscape (start : Nat) (c : Cursor) : Except ReadError (Char × Cursor) :=
  let plain (d : Char) (rest : List Char) := .ok (d, c.advance 1 rest)
  match c.rest with
  | [] => fail .unterminated start
  | '"' :: rest => plain '"' rest
  | '\\' :: rest => plain '\\' rest
  | '/' :: rest => plain '/' rest
  | 'b' :: rest => plain '\x08' rest
  | 'f' :: rest => plain '\x0c' rest
  | 'n' :: rest => plain '\n' rest
  | 'r' :: rest => plain '\r' rest
  | 't' :: rest => plain '\t' rest
  | 'u' :: _ => do
    let (unit, after) ← readUnit c
    let half : Char × Cursor := ('\uFFFD', { after with lone := true })
    if 0xD800 ≤ unit ∧ unit < 0xDC00 then
      match after.rest with
      | '\\' :: 'u' :: rest =>
        if rest.length ≤ 4 then .ok half
        else do
          let (low, behind) ← readUnit (after.advance 1 ('u' :: rest))
          if 0xDC00 ≤ low ∧ low < 0xE000 then
            .ok (Char.ofNat (0x10000 + (unit - 0xD800) * 0x400 + (low - 0xDC00)), behind)
          else .ok half
      | _ => .ok half
    else if 0xDC00 ≤ unit ∧ unit < 0xE000 then .ok half
    else .ok (Char.ofNat unit, after)
  | _ => fail .escape (c.offset - 1)

/-- The rest of a text up to its closing quote, for a text whose opening quote
stands at `start`.  Every step takes at least one character, so as many steps
as there are characters suffice. -/
def readText (start : Nat) : Nat → List Char → Cursor → Except ReadError (String × Cursor)
  | 0, _, _ => fail .unterminated start
  | steps + 1, read, c =>
    match c.rest with
    | [] => fail .unterminated start
    | '"' :: rest => .ok (String.ofList read.reverse, c.advance 1 rest)
    | '\\' :: rest => do
      let (d, after) ← readEscape start (c.advance 1 rest)
      readText start steps (d :: read) after
    | d :: rest =>
      if d.toNat < 0x20 then fail .control c.offset
      else readText start steps (d :: read) (c.advance 1 rest)

/-- Whether a character is an ASCII digit. -/
def isAsciiDigit (c : Char) : Bool := '0' ≤ c && c ≤ '9'

/-- The ASCII digits at a cursor and the cursor behind them. -/
def takeDigits (c : Cursor) : List Char × Cursor :=
  (c.rest.takeWhile isAsciiDigit, c.skipWhile isAsciiDigit)

/-- The digits of a fraction, if a point and a digit stand at the cursor. -/
def takeFraction (c : Cursor) : Option (List Char) × Cursor :=
  match c.rest with
  | '.' :: d :: rest =>
    if isAsciiDigit d then
      let (digits, after) := takeDigits (c.advance 1 (d :: rest))
      (some digits, after)
    else (none, c)
  | _ => (none, c)

/-- The exponent, if its mark and a digit stand at the cursor. -/
def takeExponent (c : Cursor) : Option Int × Cursor :=
  let digitsAt (negative : Bool) (d : Cursor) : Option Int × Cursor :=
    match takeDigits d with
    | ([], _) => (none, c)
    | (digits, after) =>
      let n := Text.digitsValue digits
      (some (if negative then -(n : Int) else n), after)
  match c.rest with
  | e :: rest =>
    if e = 'e' ∨ e = 'E' then
      match rest with
      | '-' :: more => digitsAt true (c.advance 2 more)
      | '+' :: more => digitsAt false (c.advance 2 more)
      | _ => digitsAt false (c.advance 1 rest)
    else (none, c)
  | [] => (none, c)

/-- A number at the cursor, its sign being read already. -/
def readUnsigned (start : Nat) (negative : Bool) (c : Cursor) : Except ReadError (Json × Cursor) :=
  let whole : List Char × Cursor :=
    match c.rest with
    | '0' :: rest => (['0'], c.advance 1 rest)
    | _ => takeDigits c
  match whole with
  | ([], _) => fail .value start
  | (digits, c1) =>
    let (fraction, c2) := takeFraction c1
    let (exponent, c3) := takeExponent c2
    if fraction.isNone ∧ exponent.isNone then
      if digits.length ≤ Decimal.digitLimit then
        let n := Text.digitsValue digits
        .ok (int (if negative then -(n : Int) else n), c3)
      else .error (.longNumber digits.length)
    else
      let places := fraction.getD []
      let scaled : Decimal.Scaled :=
        ⟨Text.digitsValue (digits ++ places), exponent.getD 0 - places.length⟩
      .ok (float (Decimal.withSign negative (Decimal.ofScaled scaled)), c3)

/-- The words that stand for a value. -/
def words : List (List Char × Json) :=
  [(['n', 'u', 'l', 'l'], null), (['t', 'r', 'u', 'e'], bool true),
   (['f', 'a', 'l', 's', 'e'], bool false), (['N', 'a', 'N'], float Decimal.undefined),
   (['I', 'n', 'f', 'i', 'n', 'i', 't', 'y'], float Decimal.infinity),
   (['-', 'I', 'n', 'f', 'i', 'n', 'i', 't', 'y'], float (-Decimal.infinity))]

/-- A value that is neither a text nor a container. -/
def readScalar (c : Cursor) : Except ReadError (Json × Cursor) :=
  let word := words.findSome? fun (w, v) =>
    (w.isPrefixOf? c.rest).map fun rest => (v, c.advance w.length rest)
  match word with
  | some found => .ok found
  | none =>
    match c.rest with
    | '-' :: rest => readUnsigned c.offset true (c.advance 1 rest)
    | _ => readUnsigned c.offset false c

mutual

/-- The value at a cursor.  Every call takes at least one character before it
calls again, so twice as many steps as there are characters suffice. -/
def readValue : Nat → Cursor → Except ReadError (Json × Cursor)
  | 0, c => fail .value c.offset
  | steps + 1, c =>
    match c.rest with
    | '"' :: rest => do
      let (s, after) ← readText c.offset (rest.length + 1) [] (c.advance 1 rest)
      .ok (string s, after)
    | '[' :: rest =>
      let inside := (c.advance 1 rest).skipSpace
      match inside.rest with
      | ']' :: rest => .ok (array [], inside.advance 1 rest)
      | _ => readItems steps [] inside
    | '\x7b' :: rest =>
      let inside := (c.advance 1 rest).skipSpace
      match inside.rest with
      | '\x7d' :: rest => .ok (object [], inside.advance 1 rest)
      | _ => readMembers steps [] inside
    | _ => readScalar c

/-- The items of an array from a cursor on, `read` being those before it, last
one first. -/
def readItems : Nat → List Json → Cursor → Except ReadError (Json × Cursor)
  | 0, _, c => fail .value c.offset
  | steps + 1, read, c => do
    let (v, after) ← readValue steps c
    let next := after.skipSpace
    match next.rest with
    | ']' :: rest => .ok (array (v :: read).reverse, next.advance 1 rest)
    | ',' :: rest => readItems steps (v :: read) (next.advance 1 rest).skipSpace
    | _ => fail .comma next.offset

/-- The members of an object from a cursor on, `read` being those before it. -/
def readMembers : Nat → List (String × Json) → Cursor → Except ReadError (Json × Cursor)
  | 0, _, c => fail .key c.offset
  | steps + 1, read, c =>
    match c.rest with
    | '"' :: rest => do
      let (k, afterKey) ← readText c.offset (rest.length + 1) [] (c.advance 1 rest)
      let mark := afterKey.skipSpace
      match mark.rest with
      | ':' :: rest => do
        let (v, after) ← readValue steps (mark.advance 1 rest).skipSpace
        let members := Bindings.insert k v read
        let next := after.skipSpace
        match next.rest with
        | '\x7d' :: rest => .ok (object members, next.advance 1 rest)
        | ',' :: rest => readMembers steps members (next.advance 1 rest).skipSpace
        | _ => fail .comma next.offset
      | _ => fail .colon mark.offset
    | _ => fail .key c.offset

end

/-- The value that a whole text writes. -/
def read (text : String) : Except ReadError Json :=
  match text.toList with
  | '\uFEFF' :: _ => fail .byteOrderMark 0
  | cs => do
    let (v, after) ← readValue (2 * cs.length + 2) (Cursor.skipSpace { offset := 0, rest := cs })
    let behind := after.skipSpace
    match behind.rest with
    | _ :: _ => fail .extra behind.offset
    | [] => if behind.lone then .error .loneSurrogate else .ok v

/-- The line of an offset, counted from one. -/
def lineOf (cs : List Char) (offset : Nat) : Nat := (cs.take offset).count '\n' + 1

/-- The column of an offset, counted from one. -/
def columnOf (cs : List Char) (offset : Nat) : Nat :=
  ((cs.take offset).reverse.takeWhile (· ≠ '\n')).length + 1

/-- A problem with the place in the text where it is. -/
def describe (text : String) (problem : Problem) (offset : Nat) : String :=
  let cs := text.toList
  problem.message ++ ": line " ++ toString (lineOf cs offset) ++ " column " ++
    toString (columnOf cs offset) ++ " (char " ++ toString offset ++ ")"

end Json
end Gamebook
