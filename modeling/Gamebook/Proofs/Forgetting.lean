/-
# What a history forgets

Beside a history there is thought a stack that forgets nothing and to which the same
happens: every push, every pop that finds an entry, and every clear (`History.ledger`).
Whatever the history lost at its bottom stays lost, though the stack may be popped below
that depth and grow again.  So the number of lost entries is not how far the stack
exceeds the capacity now, but how far it ever did since the last clear
(`Ledger.excess`), and the history holds the stack without that many of its oldest
entries (`History.Follows`).

To tell entries of the same value apart, pushes are numbered in order
(`History.numbered`): an entry that was pushed and is no longer held never comes back
(`History.mem_entries_run`).
-/

import Gamebook.Play.History

namespace Gamebook

namespace History

variable {α : Type}

/-- What is done with a history. -/
inductive Operation (α : Type) where
  | push (a : α)
  | pop
  | clear

/-- Whether an operation succeeds: only a pop can fail, where there is no entry. -/
def succeeds (h : History α) : Operation α → Bool
  | .pop => h.pop?.isSome
  | .push _ | .clear => true

/-- The history after an operation.  A pop that fails leaves it as it is. -/
def next (h : History α) : Operation α → History α
  | .push a => h.push a
  | .pop =>
    match h.pop? with
    | some (_, rest) => rest
    | none => h
  | .clear => h.clear

/-- The operations of a sequence that succeed, one after the other. -/
def successes (h : History α) : List (Operation α) → List (Operation α)
  | [] => []
  | op :: ops =>
    if h.succeeds op then op :: (h.next op).successes ops else (h.next op).successes ops

/-- The history of a capacity after operations on a new one. -/
def run (capacity : Nat) (ops : List (Operation α)) : History α := ops.foldl next ⟨capacity, []⟩

end History

/-- A stack that forgets nothing, the latest entry first, and how deep it was after each
push since it was last cleared. -/
structure Ledger (α : Type) where
  latest : List α := []
  depths : List Nat := []

namespace Ledger

variable {α : Type}

/-- The stack after an operation. -/
def next (l : Ledger α) : History.Operation α → Ledger α
  | .push a => ⟨a :: l.latest, (l.latest.length + 1) :: l.depths⟩
  | .pop => { l with latest := l.latest.tail }
  | .clear => {}

/-- The entries from the oldest to the latest. -/
def entries (l : Ledger α) : List α := l.latest.reverse

/-- How far the stack exceeded a capacity at most, at a push since it was last cleared. -/
def excess (capacity : Nat) (l : Ledger α) : Nat := (l.depths.map (· - capacity)).foldr max 0

end Ledger

namespace History

variable {α : Type} {h : History α} {l : Ledger α} {op : Operation α}

/-- The stack to which the same happens as to a new history of a capacity. -/
def ledger (capacity : Nat) (ops : List (Operation α)) : Ledger α :=
  ((⟨capacity, []⟩ : History α).successes ops).foldl Ledger.next {}

/-! ## A history and its stack -/

/-- A history holds a stack but for its oldest entries, of which it lost as many as the stack
ever exceeded the capacity. -/
structure Follows (h : History α) (l : Ledger α) : Prop where
  latest_eq : h.latest = l.latest.take (l.latest.length - l.excess h.capacity)
  excess_le : l.excess h.capacity ≤ l.latest.length
  length_le : l.latest.length ≤ l.excess h.capacity + h.capacity

/-- No operation changes the capacity. -/
@[simp]
theorem capacity_next (h : History α) (op : Operation α) : (h.next op).capacity = h.capacity := by
  cases op with
  | push | clear => rfl
  | pop => rcases hlatest : h.latest with _ | ⟨a, rest⟩ <;> simp [next, pop?, hlatest]

/-- A push is followed: where the capacity is reached, the oldest entry is lost and the excess
counts it. -/
theorem follows_push (hl : h.Follows l) (a : α) : (h.push a).Follows (l.next (.push a)) := by
  have hexcess : (l.next (.push a)).excess h.capacity =
      max (l.latest.length + 1 - h.capacity) (l.excess h.capacity) := rfl
  have hle := hl.excess_le
  have hlength := hl.length_le
  refine ⟨?_, ?_, ?_⟩
  · show (a :: h.latest).take h.capacity = (a :: l.latest).take _
    rw [hl.latest_eq, ← List.take_succ_cons, List.take_take]
    show _ = (a :: l.latest).take (l.latest.length + 1 - (l.next (.push a)).excess h.capacity)
    rw [hexcess]
    congr 1
    omega
  · show (l.next (.push a)).excess h.capacity ≤ l.latest.length + 1
    rw [hexcess]
    omega
  · show l.latest.length + 1 ≤ (l.next (.push a)).excess h.capacity + h.capacity
    rw [hexcess]
    omega

/-- A pop that succeeds takes the top of the stack, since what was lost lies below. -/
theorem follows_pop (hl : h.Follows l) {a : α} {rest : List α} (hlatest : h.latest = a :: rest) :
    l.latest.head? = some a ∧ (h.next .pop).Follows (l.next .pop) := by
  have hnext : h.next .pop = { h with latest := rest } := by simp [next, pop?, hlatest]
  have htake := hl.latest_eq
  have hlength := hl.length_le
  rw [hlatest] at htake
  cases hbelow : l.latest with
  | nil => simp [hbelow] at htake
  | cons b below =>
    rw [hbelow, List.length_cons] at htake hlength
    rcases Nat.lt_or_ge (l.excess h.capacity) (below.length + 1) with hlt | hge
    · rw [Nat.succ_sub (Nat.le_of_lt_succ hlt), List.take_succ_cons] at htake
      obtain ⟨rfl, hrest⟩ := List.cons.inj htake
      have hledger : l.next .pop = { l with latest := below } := by simp [Ledger.next, hbelow]
      have hbound : below.length ≤ l.excess h.capacity + h.capacity := by omega
      rw [hnext, hledger]
      exact ⟨rfl, hrest, Nat.le_of_lt_succ hlt, hbound⟩
    · rw [Nat.sub_eq_zero_of_le hge, List.take_zero] at htake
      contradiction

/-- **Every operation that succeeds keeps a history beside its stack.** -/
theorem follows_next (hl : h.Follows l) (hop : h.succeeds op = true) :
    (h.next op).Follows (l.next op) := by
  cases op with
  | push a => exact follows_push hl a
  | pop =>
    rcases hlatest : h.latest with _ | ⟨a, rest⟩
    · simp [succeeds, pop?, hlatest] at hop
    · exact (follows_pop hl hlatest).2
  | clear => exact ⟨rfl, Nat.le_refl 0, Nat.zero_le _⟩

/-- Only the pop of a history without entries fails, and it changes nothing. -/
theorem next_of_not_succeeds (hop : h.succeeds op = false) : h.next op = h := by
  cases op with
  | push | clear => contradiction
  | pop =>
    have hnone : h.pop? = none := by simpa [succeeds] using hop
    simp only [next, hnone]

/-- A history follows its stack through any operations, those apart that fail. -/
theorem follows_foldl (hl : h.Follows l) (ops : List (Operation α)) :
    (ops.foldl next h).Follows ((h.successes ops).foldl Ledger.next l) := by
  induction ops generalizing h l with
  | nil => exact hl
  | cons op ops ih =>
    cases hop : h.succeeds op with
    | true =>
      simp only [successes, hop, if_true, List.foldl_cons]
      exact ih (follows_next hl hop)
    | false =>
      have hnext := next_of_not_succeeds hop
      simp only [successes, hop, Bool.false_eq_true, if_false, List.foldl_cons, hnext]
      exact ih hl

/-- **Whatever is done, a history holds its stack but for the entries that it lost.** -/
theorem follows_run (capacity : Nat) (ops : List (Operation α)) :
    (run capacity ops).Follows (ledger capacity ops) :=
  follows_foldl (h := ⟨capacity, []⟩) (l := {}) ⟨rfl, Nat.le_refl 0, Nat.zero_le _⟩ ops

/-- The capacity stays the one that the history was made with. -/
theorem capacity_run (capacity : Nat) (ops : List (Operation α)) :
    (run capacity ops).capacity = capacity :=
  List.foldlRecOn (motive := fun h : History α => h.capacity = capacity) ops next rfl
    fun h hh op _ => (capacity_next h op).trans hh

/-- What a history holds is its stack without as many of the oldest entries as it exceeded the
capacity by. -/
theorem Follows.entries_eq (hl : h.Follows l) :
    h.entries = l.entries.drop (l.excess h.capacity) := by
  have hle := hl.excess_le
  rw [entries, hl.latest_eq, List.reverse_take, Ledger.entries]
  congr 1
  omega

/-- A history holds no more entries than its capacity. -/
theorem Follows.length_entries_le (hl : h.Follows l) : h.entries.length ≤ h.capacity := by
  have hlength := hl.length_le
  rw [hl.entries_eq, List.length_drop, Ledger.entries, List.length_reverse]
  omega

/-- A pop fails just if there is no entry. -/
theorem pop?_eq_none_iff : h.pop? = none ↔ h.entries = [] := by
  rcases hlatest : h.latest with _ | ⟨a, rest⟩ <;> simp [pop?, entries, hlatest]

/-- A history that has entries shows the top of its stack, and gives it away. -/
theorem Follows.top (hl : h.Follows l) (hne : h.entries ≠ []) :
    ∃ a rest, l.latest.head? = some a ∧ h.peek? = some a ∧ h.pop? = some (a, rest) := by
  rcases hlatest : h.latest with _ | ⟨a, rest⟩
  · exact absurd (by simp [entries, hlatest]) hne
  · exact ⟨a, _, (follows_pop hl hlatest).1, by simp [peek?, hlatest], by simp [pop?, hlatest]; rfl⟩

/-! ## Numbered pushes -/

/-- Operations with their pushes numbered in order, from `n` on. -/
def numbered : Nat → List (Operation α) → List (Operation (Nat × α))
  | _, [] => []
  | n, .push a :: ops => .push (n, a) :: numbered (n + 1) ops
  | n, .pop :: ops => .pop :: numbered n ops
  | n, .clear :: ops => .clear :: numbered n ops

/-- A history without the numbers of its entries. -/
def unnumbered (h : History (Nat × α)) : History α := ⟨h.capacity, h.latest.map Prod.snd⟩

/-- The entries without their numbers are in the same order. -/
theorem entries_unnumbered (h : History (Nat × α)) :
    h.unnumbered.entries = h.entries.map Prod.snd := List.map_reverse.symm

/-- Numbers change nothing but what is held with each entry. -/
theorem unnumbered_foldl (h : History (Nat × α)) (n : Nat) (ops : List (Operation α)) :
    ((numbered n ops).foldl next h).unnumbered = ops.foldl next h.unnumbered := by
  induction ops generalizing h n with
  | nil => rfl
  | cons op ops ih =>
    cases op with
    | push a =>
      have hpush : (h.push (n, a)).unnumbered = h.unnumbered.push a := by
        simp [push, unnumbered, List.map_take]
      rw [numbered, List.foldl_cons, ih, List.foldl_cons]
      simp only [next, hpush]
    | pop =>
      have hpop : (h.next .pop).unnumbered = h.unnumbered.next .pop := by
        rcases hlatest : h.latest with _ | ⟨a, rest⟩ <;> simp [next, pop?, unnumbered, hlatest]
      rw [numbered, List.foldl_cons, ih, List.foldl_cons, hpop]
    | clear =>
      rw [numbered, List.foldl_cons, ih, List.foldl_cons]
      rfl

/-- What is pushed later has later numbers. -/
theorem numbered_append (n : Nat) (earlier later : List (Operation α)) :
    ∃ m, numbered n (earlier ++ later) = numbered n earlier ++ numbered m later ∧ n ≤ m ∧
      ∀ x, .push x ∈ numbered n earlier → x.1 < m := by
  induction earlier generalizing n with
  | nil => exact ⟨n, rfl, Nat.le_refl n, nofun⟩
  | cons op earlier ih =>
    cases op with
    | push a =>
      obtain ⟨m, happend, hle, hlt⟩ := ih (n + 1)
      refine ⟨m, congrArg _ happend, by omega, fun x hx => ?_⟩
      rcases List.mem_cons.1 hx with hx | hx
      · obtain rfl := Operation.push.inj hx
        exact hle
      · exact hlt x hx
    | pop | clear =>
      obtain ⟨m, happend, hle, hlt⟩ := ih n
      refine ⟨m, congrArg _ happend, hle, fun x hx => ?_⟩
      rcases List.mem_cons.1 hx with hx | hx
      · contradiction
      · exact hlt x hx

/-- Pushes are numbered from the first number on. -/
theorem le_of_push_mem_numbered {n : Nat} {ops : List (Operation α)} {x : Nat × α}
    (hx : .push x ∈ numbered n ops) : n ≤ x.1 := by
  induction ops generalizing n with
  | nil => contradiction
  | cons op ops ih =>
    cases op with
    | push a =>
      rcases List.mem_cons.1 hx with hx | hx
      · obtain rfl := Operation.push.inj hx
        exact Nat.le_refl n
      · exact Nat.le_of_succ_le (ih hx)
    | pop | clear =>
      rcases List.mem_cons.1 hx with hx | hx
      · contradiction
      · exact ih hx

/-- An operation adds nothing but what it pushes. -/
theorem mem_entries_next {a : α} (ha : a ∈ (h.next op).entries) :
    a ∈ h.entries ∨ op = .push a := by
  simp only [entries, List.mem_reverse] at ha ⊢
  cases op with
  | push b =>
    rcases List.mem_cons.1 (List.mem_of_mem_take ha) with rfl | ha
    · exact .inr rfl
    · exact .inl ha
  | pop =>
    rcases hlatest : h.latest with _ | ⟨b, rest⟩
    · simp [next, pop?, hlatest] at ha
    · simp only [next, pop?, hlatest] at ha
      exact .inl (List.mem_cons_of_mem b ha)
  | clear => contradiction

/-- Every entry was there before, or it was pushed. -/
theorem mem_entries_foldl {a : α} {ops : List (Operation α)}
    (ha : a ∈ (ops.foldl next h).entries) : a ∈ h.entries ∨ .push a ∈ ops := by
  induction ops generalizing h with
  | nil => exact .inl ha
  | cons op ops ih =>
    rcases ih ha with hnext | hpush
    · refine (mem_entries_next hnext).imp_right ?_
      rintro rfl
      exact List.mem_cons_self ..
    · exact .inr (List.mem_cons_of_mem op hpush)

/-- **What was pushed and is no longer held never comes back.** -/
theorem mem_entries_run {capacity : Nat} {earlier later : List (Operation α)} {x : Nat × α}
    (hpushed : .push x ∈ numbered 0 earlier)
    (hheld : x ∈ (run capacity (numbered 0 (earlier ++ later))).entries) :
    x ∈ (run capacity (numbered 0 earlier)).entries := by
  obtain ⟨m, happend, -, hlt⟩ := numbered_append 0 earlier later
  rw [run, happend, List.foldl_append] at hheld
  refine (mem_entries_foldl hheld).resolve_right fun hlater => ?_
  exact absurd (le_of_push_mem_numbered hlater) (Nat.not_le_of_lt (hlt x hpushed))

/-- **A history forgets what it must, and nothing else.**  After any operations it holds its
stack without as many of the oldest entries as the stack ever exceeded the capacity since it
was last cleared.  So it never holds more than its capacity; what it shows and gives away is
the top of the stack; a pop fails where it has no entry, and changes nothing then; and no
entry that it has let go comes back. -/
theorem forgets_excess (capacity : Nat) (ops : List (Operation α)) :
    (run capacity ops).entries =
        (ledger capacity ops).entries.drop ((ledger capacity ops).excess capacity) ∧
      (run capacity ops).entries.length ≤ capacity ∧
      ((run capacity ops).entries ≠ [] → ∃ a rest,
        (ledger capacity ops).latest.head? = some a ∧
          (run capacity ops).peek? = some a ∧ (run capacity ops).pop? = some (a, rest)) ∧
      ((run capacity ops).pop? = none ↔ (run capacity ops).entries = []) ∧
      ((run capacity ops).pop? = none → (run capacity ops).next .pop = run capacity ops) ∧
      (run capacity (numbered 0 ops)).entries.map Prod.snd = (run capacity ops).entries ∧
      ∀ earlier later, ops = earlier ++ later → ∀ x, .push x ∈ numbered 0 earlier →
        x ∉ (run capacity (numbered 0 earlier)).entries →
        x ∉ (run capacity (numbered 0 ops)).entries := by
  have hfollows := follows_run capacity ops
  have hcapacity := capacity_run capacity ops
  refine ⟨?_, ?_, hfollows.top, pop?_eq_none_iff, fun hnone => ?_, ?_, ?_⟩
  · rw [hfollows.entries_eq, hcapacity]
  · exact Nat.le_trans hfollows.length_entries_le (Nat.le_of_eq hcapacity)
  · exact next_of_not_succeeds (by simp [succeeds, hnone])
  · rw [← entries_unnumbered]
    exact congrArg entries (unnumbered_foldl ⟨capacity, []⟩ 0 ops)
  · rintro earlier later rfl x hpushed hgone hheld
    exact hgone (mem_entries_run hpushed hheld)

/-- A history of two entries that loses one, is emptied above it, and then holds fewer than
two though the stack is two deep again. -/
theorem forgets_excess_emptied :
    let emptied : List (Operation Nat) := [.push 5, .push 6, .push 7, .pop, .pop]
    (run 2 emptied).next .pop = run 2 emptied ∧
      (ledger 2 (emptied ++ [.push 8])).entries = [5, 8] ∧
      (run 2 (emptied ++ [.push 8])).entries = [8] ∧
      (∃ rest, (run 2 (emptied ++ [.push 8])).pop? = some (8, rest)) ∧
      (0, 5) ∉ (run 2 (numbered 0 (emptied ++ [.push 8]))).entries := by
  intro emptied
  obtain ⟨-, -, -, -, hfails, -⟩ := forgets_excess 2 emptied
  obtain ⟨hentries, -, htop, -, -, -, hgone⟩ := forgets_excess 2 (emptied ++ [.push 8])
  obtain ⟨a, rest, hhead, -, hpop⟩ := htop (by decide)
  obtain rfl : a = 8 := Option.some.inj (hhead.symm.trans (by decide))
  refine ⟨hfails (by decide), by decide, hentries.trans (by decide), ⟨rest, hpop⟩, ?_⟩
  exact hgone [.push 5, .push 6, .push 7] [.pop, .pop, .push 8] rfl (0, 5)
    (List.mem_cons_self ..) (by decide)

end History
end Gamebook
