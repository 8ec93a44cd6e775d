/-
# The order of identifiers

Identifiers are equal where their segments are, and are ordered by their written form.
The two notions fit together because no segment holds a colon: the written form can be
cut into its segments again, so it is read as the identifier that it was written from
(`Identifier.canonical_faithful`), and it tells two identifiers apart exactly where they
differ (`Identifier.canonical_inj`).  So the order is strict and total, and the entries of
a store stand in it when they are shown (`Store.pairwise_sorted`).
-/

import Gamebook.Proofs.Recognising

namespace Gamebook

namespace Identifier

variable {i j k : Identifier}

/-- **The written form tells identifiers apart.** -/
theorem canonical_inj : i.canonical = j.canonical ↔ i = j := by
  constructor
  · intro h
    have hi : ofText? "" i.canonical = some i := ofText?_canonical "" i
    have hj : ofText? "" i.canonical = some j := h ▸ ofText?_canonical "" j
    exact Option.some.inj (hi.symm.trans hj)
  · rintro rfl
    rfl

/-- Identifiers are equal where their segments are. -/
theorem eq_iff_segments : i = j ↔ i.scope = j.scope ∧ i.name = j.name := by
  cases i
  cases j
  simp

/-- No identifier comes before itself. -/
theorem lt_irrefl (i : Identifier) : ¬i < i :=
  String.lt_irrefl i.canonical

/-- What comes before one that comes before another comes before that one. -/
theorem lt_trans (hij : i < j) (hjk : j < k) : i < k :=
  String.lt_trans hij hjk

/-- Of two identifiers, not both come before the other. -/
theorem lt_asymm (hij : i < j) : ¬j < i := fun hji =>
  lt_irrefl i (lt_trans hij hji)

/-- Of two identifiers that differ, one comes first. -/
theorem lt_or_lt_of_ne (h : i ≠ j) : i < j ∨ j < i := by
  by_cases hlt : i < j
  · exact .inl hlt
  by_cases hgt : j < i
  · exact .inr hgt
  exact absurd (canonical_inj.1 (String.le_antisymm hgt hlt)) h

/-- **The written form is faithful.**  What an identifier is written as is read back as that
identifier by both readers, in whatever scope; it is the same for two identifiers exactly
where both segments are; and its order is a strict total order of the identifiers. -/
theorem canonical_faithful :
    (∀ (scope : String) (raw : Json) (c c' : Context) (i : Identifier),
      (resolve scope raw).run c = .ok (i, c') →
        ofCanonical (.string i.canonical) = .ok i ∧
        ∀ (other : String) (d : Context), (resolve other (.string i.canonical)).run d =
          .ok (i, d.visit (.string i.canonical))) ∧
    (∀ i j : Identifier, (i = j ↔ i.canonical = j.canonical) ∧
      (i = j ↔ i.scope = j.scope ∧ i.name = j.name)) ∧
    (∀ i : Identifier, ¬i < i) ∧
    (∀ i j k : Identifier, i < j → j < k → i < k) ∧
    ∀ i j : Identifier, i < j ∧ i ≠ j ∧ ¬j < i ∨ ¬i < j ∧ i = j ∧ ¬j < i ∨
      ¬i < j ∧ i ≠ j ∧ j < i := by
  refine ⟨fun scope raw c c' i _ => ⟨ofCanonical_eq_ok.2 rfl, fun other d => ?_⟩,
    fun i j => ⟨canonical_inj.symm, eq_iff_segments⟩, lt_irrefl, fun i j k => lt_trans,
    fun i j => ?_⟩
  · exact resolve_eq_ok (ofText?_canonical other i) d
  · by_cases heq : i = j
    · subst heq
      exact .inr (.inl ⟨lt_irrefl i, rfl, lt_irrefl i⟩)
    · rcases lt_or_lt_of_ne heq with hlt | hgt
      · exact .inl ⟨hlt, heq, lt_asymm hlt⟩
      · exact .inr (.inr ⟨lt_asymm hgt, heq, hgt⟩)

/-- A bare name of the scope `a` is read back as `a:x` inside another scope.  Behind the
colon of `a` come the letters and before it the digits, so `a1:x` is the first of three. -/
theorem canonical_faithful_scopes :
    let x : Identifier := ⟨"a", "x", by decide, by decide⟩
    let digit : Identifier := ⟨"a1", "x", by decide, by decide⟩
    let line : Identifier := ⟨"a_", "x", by decide, by decide⟩
    (resolve "a" (.string "x")).run {} = .ok (x, { identifier := .string "x" }) ∧
      (resolve "b" (.string "a:x")).run {} = .ok (x, { identifier := .string "a:x" }) ∧
      digit < x ∧ x < line ∧ digit < line ∧ digit ≠ line := by
  intro x digit line
  have hread : (resolve "a" (.string "x")).run {} = .ok (x, { identifier := .string "x" }) :=
    resolve_eq_ok rfl {}
  obtain ⟨hback, hsame, hirrefl, htrans, htotal⟩ := canonical_faithful
  have hfirst : digit < x := by decide
  have hlast : x < line := by decide
  have hends : digit < line := htrans _ _ _ hfirst hlast
  exact ⟨hread, (hback _ _ _ _ _ hread).2 "b" {}, hfirst, hlast, hends,
    fun heq => hirrefl line (heq ▸ hends)⟩

end Identifier

/-- **The entries of a store are shown in the order of their identifiers**, if it has one
entry for each. -/
theorem Store.pairwise_sorted {s : Store} (h : s.keys.Nodup) :
    s.sorted.Pairwise fun a b => a.1 < b.1 := by
  have hle : s.sorted.Pairwise fun a b => a.1.canonical ≤ b.1.canonical := by
    let le (a b : Identifier × Float) : Bool := decide (a.1.canonical ≤ b.1.canonical)
    have htrans (a b c : Identifier × Float) (hab : le a b = true) (hbc : le b c = true) :
        le a c = true :=
      decide_eq_true (String.le_trans (of_decide_eq_true hab) (of_decide_eq_true hbc))
    have htotal (a b : Identifier × Float) : (le a b || le b a) = true := by
      simpa [le] using String.le_total a.1.canonical b.1.canonical
    have hsorted : (s.entries.mergeSort le).Pairwise fun a b => le a b = true :=
      List.pairwise_mergeSort htrans htotal s.entries
    exact hsorted.imp of_decide_eq_true
  have hne : s.sorted.Pairwise fun a b => a.1 ≠ b.1 := by
    have hkeys : (s.sorted.map (·.1)).Nodup :=
      ((List.mergeSort_perm s.entries _).map Prod.fst).nodup_iff.2 h
    exact List.pairwise_map.1 hkeys
  refine (hle.and hne).imp fun ⟨hab, hdiffer⟩ => ?_
  exact (Identifier.lt_or_lt_of_ne hdiffer).resolve_right hab

end Gamebook
