/-
# Quoted texts

How a text is shown inside a message.  It stands between single quotes, or
between double quotes when it holds a single quote and no double quote.  The
backslash, the quote in use and every character that is not printable are
written as escapes:

| character | escape |
| --- | --- |
| backslash, quote | itself after a backslash |
| tab, line feed, carriage return | `\t`, `\n`, `\r` |
| below U+0100 | `\x` and two hexadecimal digits |
| below U+10000 | `\u` and four |
| others | `\U` and eight |
-/

import Gamebook.Text.Printable
import Gamebook.Text.Split

namespace Gamebook
namespace Text

/-- A number in lower-case hexadecimal digits, filled up with zeros to a width. -/
def hexadecimal (width n : Nat) : List Char := pad width '0' (Nat.toDigits 16 n)

/-- The escape of a character that is not printable. -/
def escape (c : Char) : List Char :=
  if c = '\t' then ['\\', 't']
  else if c = '\n' then ['\\', 'n']
  else if c = '\r' then ['\\', 'r']
  else if c.toNat < 0x100 then '\\' :: 'x' :: hexadecimal 2 c.toNat
  else if c.toNat < 0x10000 then '\\' :: 'u' :: hexadecimal 4 c.toNat
  else '\\' :: 'U' :: hexadecimal 8 c.toNat

/-- A character between the given quotes. -/
def quoteChar (quote c : Char) : List Char :=
  if c = quote ∨ c = '\\' then ['\\', c]
  else if isPrintable c then [c]
  else escape c

/-- The quote that a text is put between. -/
def quoteFor (cs : List Char) : Char :=
  if '\'' ∈ cs ∧ '"' ∉ cs then '"' else '\''

/-- The text between quotes, with escapes. -/
def quote (s : String) : String :=
  let q := quoteFor s.toList
  String.ofList (q :: s.toList.flatMap (quoteChar q) ++ [q])

end Text
end Gamebook
