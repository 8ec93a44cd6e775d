/-
# Sets of characters as ranges of code points

A property of characters is stored as the ascending list of the closed ranges
of code points that have it, and looked up by `inRanges`.  The search stops at
the first range that lies above the code point, so `inRanges` is membership
only for an ascending list.
-/

namespace Gamebook
namespace Text

/-- Whether a code point lies in one of the closed ranges of an ascending list. -/
def inRanges : List (Nat × Nat) → Nat → Bool
  | [], _ => false
  | (lo, hi) :: rest, n => if n < lo then false else n ≤ hi || inRanges rest n

/-- A code point that is found lies between the ends of a listed range. -/
theorem exists_range_of_inRanges {rs : List (Nat × Nat)} {n : Nat} (h : inRanges rs n = true) :
    ∃ r ∈ rs, r.1 ≤ n ∧ n ≤ r.2 := by
  induction rs with
  | nil => simp [inRanges] at h
  | cons r rest ih =>
    obtain ⟨lo, hi⟩ := r
    simp only [inRanges] at h
    split at h
    · simp at h
    · rcases Bool.or_eq_true_iff.1 h with h | h
      · exact ⟨(lo, hi), by simp, by simpa using by omega, by simpa using h⟩
      · obtain ⟨r, hr, h⟩ := ih h
        exact ⟨r, by simp [hr], h⟩

end Text
end Gamebook
