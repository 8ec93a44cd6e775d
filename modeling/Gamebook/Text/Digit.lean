/-
# Decimal digits

A decimal digit is a character of the Unicode category Nd (version 14).  These
characters come in runs of ten, from a zero to a nine, so the table keeps the
zeros only and the value of a digit is its distance from the zero of its run.
-/

import Gamebook.Text.Blank

namespace Gamebook
namespace Text

/-- The zeros of the runs of ten decimal digits, ascending. -/
def digitZeros : List Nat :=
  [0x30, 0x660, 0x6F0, 0x7C0, 0x966, 0x9E6, 0xA66, 0xAE6, 0xB66, 0xBE6, 0xC66, 0xCE6, 0xD66,
   0xDE6, 0xE50, 0xED0, 0xF20, 0x1040, 0x1090, 0x17E0, 0x1810, 0x1946, 0x19D0, 0x1A80, 0x1A90,
   0x1B50, 0x1BB0, 0x1C40, 0x1C50, 0xA620, 0xA8D0, 0xA900, 0xA9D0, 0xA9F0, 0xAA50, 0xABF0,
   0xFF10, 0x104A0, 0x10D30, 0x11066, 0x110F0, 0x11136, 0x111D0, 0x112F0, 0x11450, 0x114D0,
   0x11650, 0x116C0, 0x11730, 0x118E0, 0x11950, 0x11C50, 0x11D50, 0x11DA0, 0x16A60, 0x16AC0,
   0x16B50, 0x1D7CE, 0x1D7D8, 0x1D7E2, 0x1D7EC, 0x1D7F6, 0x1E140, 0x1E2F0, 0x1E950, 0x1FBF0]

/-- The value of a code point among ascending runs of ten. -/
def digitAmong : List Nat → Nat → Option Nat
  | [], _ => none
  | z :: rest, n => if n < z then none else if n < z + 10 then some (n - z) else digitAmong rest n

/-- The value of a decimal digit. -/
def digitValue? (c : Char) : Option Nat := digitAmong digitZeros c.toNat

/-- Whether a character is a decimal digit. -/
def isDigit (c : Char) : Bool := (digitValue? c).isSome

/-- The number that a run of digits writes, characters that are none being worth zero. -/
def digitsValue (cs : List Char) : Nat :=
  cs.foldl (fun n c => 10 * n + (digitValue? c).getD 0) 0

/-- A digit stands in one of the runs of ten. -/
theorem exists_zero_of_digitAmong {zs : List Nat} {n d : Nat} (h : digitAmong zs n = some d) :
    ∃ z ∈ zs, z ≤ n ∧ n < z + 10 := by
  induction zs with
  | nil => simp [digitAmong] at h
  | cons z rest ih =>
    simp only [digitAmong] at h
    split at h
    · simp at h
    · split at h
      · exact ⟨z, List.mem_cons_self .., by omega, by omega⟩
      · obtain ⟨y, hy, hn⟩ := ih h
        exact ⟨y, List.mem_cons_of_mem _ hy, hn⟩

/-- A digit is one of ten in a row, from a zero on. -/
theorem exists_zero_of_isDigit {c : Char} (h : isDigit c = true) :
    ∃ z ∈ digitZeros, z ≤ c.toNat ∧ c.toNat < z + 10 := by
  obtain ⟨d, hd⟩ := Option.isSome_iff_exists.1 h
  exact exists_zero_of_digitAmong hd

/-- No digit is blank. -/
theorem isBlank_of_isDigit {c : Char} (h : isDigit c = true) : isBlank c = false := by
  obtain ⟨z, hz, hlo, hhi⟩ := exists_zero_of_isDigit h
  rw [Bool.eq_false_iff]
  intro hb
  obtain ⟨r, hr, h1, h2⟩ := exists_range_of_inRanges hb
  have hapart : ∀ z ∈ digitZeros, ∀ r ∈ blankRanges, r.2 < z ∨ z + 10 ≤ r.1 := by decide
  have := hapart z hz r hr
  omega

end Text
end Gamebook
