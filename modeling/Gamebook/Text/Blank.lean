/-
# Blank characters

A character is blank when it separates words without being seen: the 25
characters of the Unicode property White_Space and the four information
separators U+001C to U+001F.  Script text is compared without its blanks
(`compact`), and names and answers without the blanks around them (`trim`).
-/

import Gamebook.Text.Ranges

namespace Gamebook
namespace Text

/-- The ranges of the 29 blank characters. -/
def blankRanges : List (Nat × Nat) :=
  [(0x09, 0x0D), (0x1C, 0x20), (0x85, 0x85), (0xA0, 0xA0), (0x1680, 0x1680), (0x2000, 0x200A),
   (0x2028, 0x2029), (0x202F, 0x202F), (0x205F, 0x205F), (0x3000, 0x3000)]

/-- Whether a character is blank. -/
def isBlank (c : Char) : Bool := inRanges blankRanges c.toNat

/-- The text without any of its blanks. -/
def compactChars (cs : List Char) : List Char := cs.filter fun c => !isBlank c

/-- The text without the blanks around it. -/
def trimChars (cs : List Char) : List Char :=
  ((cs.dropWhile isBlank).reverse.dropWhile isBlank).reverse

/-- The text without any of its blanks. -/
def compact (s : String) : String := String.ofList (compactChars s.toList)

/-- The text without the blanks around it. -/
def trim (s : String) : String := String.ofList (trimChars s.toList)

/-- Whether every character is blank. -/
def isBlankText (s : String) : Bool := s.toList.all isBlank

/-- No blank survives `compactChars`. -/
theorem isBlank_of_mem_compactChars {c : Char} {cs : List Char} (h : c ∈ compactChars cs) :
    isBlank c = false := by
  simpa using (List.mem_filter.1 h).2

/-- Compacting distributes over concatenation. -/
@[simp] theorem compactChars_append (a b : List Char) :
    compactChars (a ++ b) = compactChars a ++ compactChars b := by
  simp [compactChars]

/-- A compact text is left as it is. -/
@[simp] theorem compactChars_compactChars (cs : List Char) :
    compactChars (compactChars cs) = compactChars cs := by
  simp [compactChars]

end Text
end Gamebook
