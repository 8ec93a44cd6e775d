/-
# Cutting texts

`splitAtFirst` cuts a text at the first character of a kind, as the standard library's
`List.splitOnP` does at every one; the character itself belongs to no piece.  `pad` fills a
text up to a width from the left.
-/

namespace Gamebook
namespace Text

/-- The text before the first character that satisfies `p` and, if there is
one, the text after it. -/
def splitAtFirst (p : Char → Bool) : List Char → List Char × Option (List Char)
  | [] => ([], none)
  | c :: cs =>
    if p c then ([], some cs)
    else
      let (before, after) := splitAtFirst p cs
      (c :: before, after)

/-- The text, with copies of `c` before it up to the given width. -/
def pad (width : Nat) (c : Char) (cs : List Char) : List Char :=
  List.replicate (width - cs.length) c ++ cs

/-- Nothing but the separator is lost when a text is cut at the first one. -/
theorem splitAtFirst_eq_some {p : Char → Bool} {cs before after : List Char}
    (h : splitAtFirst p cs = (before, some after)) :
    ∃ c, p c = true ∧ cs = before ++ c :: after ∧ ∀ d ∈ before, p d = false := by
  induction cs generalizing before with
  | nil => simp [splitAtFirst] at h
  | cons c cs ih =>
    simp only [splitAtFirst] at h
    split at h
    · rename_i hp
      simp only [Prod.mk.injEq, Option.some.injEq] at h
      exact ⟨c, hp, by simp [← h.1, h.2], by simp [← h.1]⟩
    · rename_i hp
      obtain ⟨h1, h2⟩ := Prod.mk.inj h
      have hrest : splitAtFirst p cs = ((splitAtFirst p cs).1, some after) := by rw [← h2]
      obtain ⟨d, hd, hcs, hall⟩ := ih hrest
      subst h1
      refine ⟨d, hd, by simpa using hcs, ?_⟩
      intro e he
      rcases List.mem_cons.1 he with rfl | he
      · simpa using hp
      · exact hall e he

/-- A text is cut at the first separator. -/
theorem splitAtFirst_append {p : Char → Bool} {before : List Char} {c : Char}
    (h : ∀ d ∈ before, p d = false) (hc : p c = true) (after : List Char) :
    splitAtFirst p (before ++ c :: after) = (before, some after) := by
  induction before with
  | nil => simp [splitAtFirst, hc]
  | cons d ds ih =>
    have hd := h d (List.mem_cons_self ..)
    have hds := ih fun e he => h e (List.mem_cons_of_mem _ he)
    simp [splitAtFirst, hd, hds]

/-- A text without a separator is not cut. -/
theorem splitAtFirst_eq_none {p : Char → Bool} {cs : List Char} (h : ∀ d ∈ cs, p d = false) :
    splitAtFirst p cs = (cs, none) := by
  induction cs with
  | nil => rfl
  | cons d ds ih =>
    have hd := h d (List.mem_cons_self ..)
    have hds := ih fun e he => h e (List.mem_cons_of_mem _ he)
    simp [splitAtFirst, hd, hds]

variable {p : Char → Bool} {cs piece : List Char} {rest : List (List Char)}

/-- The first piece is the whole text, or a separator and the other pieces follow. -/
theorem splitOnP_eq_cons (h : cs.splitOnP p = piece :: rest) :
    cs = piece ∧ rest = [] ∨ ∃ c after, cs = piece ++ c :: after ∧ after.splitOnP p = rest := by
  induction cs generalizing piece with
  | nil =>
    obtain ⟨rfl, rfl⟩ := List.cons.inj (List.splitOnP_nil.symm.trans h)
    exact .inl ⟨rfl, rfl⟩
  | cons c cs ih =>
    rw [List.splitOnP_cons_eq_if_modifyHead] at h
    split at h
    · obtain ⟨rfl, rfl⟩ := List.cons.inj h
      exact .inr ⟨c, cs, rfl, rfl⟩
    · obtain ⟨first, others, hsplit⟩ := List.exists_cons_of_ne_nil (List.splitOnP_ne_nil p cs)
      rw [hsplit, List.modifyHead_cons] at h
      obtain ⟨rfl, rfl⟩ := List.cons.inj h
      obtain ⟨rfl, rfl⟩ | ⟨d, after, rfl, hafter⟩ := ih hsplit
      · exact .inl ⟨rfl, rfl⟩
      · exact .inr ⟨d, after, rfl, hafter⟩

/-- No separator stands in a piece. -/
theorem not_separator_of_mem_splitOnP (h : piece ∈ cs.splitOnP p) : ∀ c ∈ piece, p c = false := by
  induction cs generalizing piece with
  | nil =>
    rw [List.splitOnP_nil, List.mem_singleton] at h
    exact h ▸ fun c hc => absurd hc List.not_mem_nil
  | cons c cs ih =>
    rw [List.splitOnP_cons_eq_if_modifyHead] at h
    split at h
    · rcases List.mem_cons.1 h with rfl | h
      · exact fun c hc => absurd hc List.not_mem_nil
      · exact ih h
    · rename_i hc
      obtain ⟨first, others, hsplit⟩ := List.exists_cons_of_ne_nil (List.splitOnP_ne_nil p cs)
      rw [hsplit] at h ih
      rcases List.mem_cons.1 h with rfl | h
      · exact List.forall_mem_cons.2 ⟨by simpa using hc, ih (List.mem_cons_self ..)⟩
      · exact ih (List.mem_cons_of_mem _ h)

/-- A piece has characters of the text. -/
theorem subset_of_mem_splitOnP (h : piece ∈ cs.splitOnP p) : piece ⊆ cs := by
  generalize hpieces : cs.splitOnP p = pieces at h
  induction pieces generalizing cs with
  | nil => contradiction
  | cons first rest ih =>
    obtain ⟨rfl, rfl⟩ | ⟨c, after, rfl, hafter⟩ := splitOnP_eq_cons hpieces
    · exact List.mem_singleton.1 h ▸ List.Subset.refl _
    · rcases List.mem_cons.1 h with rfl | h
      · exact List.subset_append_left ..
      · exact List.subset_append_of_subset_right _ (List.subset_cons_of_subset _ (ih hafter h))

end Text
end Gamebook
