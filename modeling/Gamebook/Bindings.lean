/-
# Bindings

A finite map is a list of bindings, each key once, in the order in which the keys were
first bound.  Binding a key again leaves it in its place (`Bindings.insert`), and a key is
looked up with the standard library's `List.lookup`.
-/

namespace Gamebook
namespace Bindings

variable {κ υ : Type} [DecidableEq κ]

/-- The bindings with `key` bound to `value`, in its old place if it has one. -/
def insert (key : κ) (value : υ) : List (κ × υ) → List (κ × υ)
  | [] => [(key, value)]
  | (k, v) :: rest => if k = key then (k, value) :: rest else (k, v) :: insert key value rest

/-- A key is bound to what was last inserted under it. -/
theorem lookup_insert_self (key : κ) (value : υ) (bs : List (κ × υ)) :
    (insert key value bs).lookup key = some value := by
  induction bs with
  | nil => simp [insert]
  | cons b rest ih =>
    obtain ⟨k, v⟩ := b
    simp only [insert]
    split
    · rename_i h
      simp [h]
    · rename_i h
      have : (key == k) = false := by simpa using fun e => h e.symm
      simp [List.lookup_cons, this, ih]

/-- Inserting under one key leaves the others as they are. -/
theorem lookup_insert_of_ne {key other : κ} (value : υ) (bs : List (κ × υ)) (h : other ≠ key) :
    (insert key value bs).lookup other = bs.lookup other := by
  induction bs with
  | nil => simp [insert, h]
  | cons b rest ih =>
    obtain ⟨k, v⟩ := b
    simp only [insert]
    split
    · rename_i hk
      subst hk
      have : (other == k) = false := by simpa using h
      simp [List.lookup_cons, this]
    · simp only [List.lookup_cons, ih]

/-- Inserting keeps the order of the keys, and a new one goes to the end. -/
theorem map_fst_insert (key : κ) (value : υ) (bs : List (κ × υ)) :
    (insert key value bs).map (·.1) =
      if key ∈ bs.map (·.1) then bs.map (·.1) else bs.map (·.1) ++ [key] := by
  induction bs with
  | nil => simp [insert]
  | cons b rest ih =>
    obtain ⟨k, v⟩ := b
    simp only [insert]
    by_cases hk : k = key
    · simp [hk]
    · have hkey : key ≠ k := fun e => hk e.symm
      simp only [hk, if_false, List.map_cons, List.mem_cons, hkey, false_or, ih]
      split <;> simp

/-- What is found under a key is bound to it. -/
theorem exists_mem_of_lookup {bs : List (κ × υ)} {key : κ} {value : υ}
    (h : bs.lookup key = some value) : ∃ b ∈ bs, b.2 = value := by
  obtain ⟨before, after, rfl, -⟩ := List.lookup_eq_some_iff.1 h
  exact ⟨(key, value), by simp, rfl⟩

end Bindings
end Gamebook
