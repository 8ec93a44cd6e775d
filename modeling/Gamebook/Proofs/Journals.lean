/-
# The store as a map of written identifiers

What a host observes of a store is a finite map from written identifiers to numbers.  To
say so without a store, the writes that went through are kept in a `Journal`.  The number of
a key is the one that the last write to it left (`Journal.value?`), and the keys stand in the
order in which they were assigned first since they were dropped last (`Journal.keys`).

A store and the journal of the writes to it agree on every number and on the keys
(`Journal.Keeps`).  Each operation of a host is answered from either of them alike and keeps
them in agreement (`Journal.Keeps.answer`), so whole runs are answered alike
(`Store.serves_journal`).  An operation that fails leaves the store as it was, and it fails
for its value, for its key or for a key that is absent (`Store.answer_eq_error_iff`).
-/

import Gamebook.Proofs.Frames
import Gamebook.Proofs.Ordering
import Gamebook.Store.Access

namespace Gamebook

/-! ## Journals -/

/-- A write to a map: a number is put under a key, or a key is dropped. -/
inductive Write where
  | put (key : String) (x : Float)
  | drop (key : String)

namespace Write

/-- The key that a write is about. -/
def key : Write → String
  | put k _ => k
  | drop k => k

/-- The number that a write leaves under its key. -/
def number? : Write → Option Float
  | put _ x => some x
  | drop _ => none

/-- Whether a write drops a key. -/
def drops (k : String) : Write → Bool
  | put _ _ => false
  | drop dropped => dropped == k

/-- Putting a number drops no key. -/
@[simp] theorem drops_put (k j : String) (x : Float) : (put j x).drops k = false := rfl

/-- Dropping a key drops it and no other one. -/
@[simp] theorem drops_drop (k j : String) : (drop j).drops k = (j == k) := rfl

end Write

/-- The writes to a map, in order. -/
abbrev Journal := List Write

namespace Journal

/-- The number of a key: what the last write to it left. -/
def value? (journal : Journal) (k : String) : Option Float :=
  (journal.reverse.find? (·.key == k)).bind Write.number?

/-- Whether a write assigns its key for the first time since the key was dropped last: it
puts a number under a key that has none before, and the key is not dropped behind it. -/
def opens (before : Journal) (w : Write) (after : Journal) : Bool :=
  w.number?.isSome && (value? before w.key).isNone && !after.any (·.drops w.key)

/-- The keys that are assigned behind some writes for the first time since they were dropped
last, in order. -/
def keysFrom (before : Journal) : Journal → List String
  | [] => []
  | w :: after =>
    (if opens before w after then [w.key] else []) ++ keysFrom (before ++ [w]) after

/-- The keys in the order of their first assignment since they were dropped last. -/
def keys (journal : Journal) : List String := keysFrom [] journal

variable {journal before after : Journal} {k : String} {x : Float}

/-- The last write says what the number of its key is, and of no other key. -/
theorem value?_concat (journal : Journal) (w : Write) (k : String) :
    value? (journal ++ [w]) k = if w.key = k then w.number? else value? journal k := by
  by_cases h : w.key = k <;> simp [value?, h]

/-- A number that is put under a key that has none puts the key behind all others, and it moves no
key that has one. -/
theorem keysFrom_put (k : String) (x : Float) : keysFrom before (after ++ [.put k x]) =
    keysFrom before after ++ if (value? (before ++ after) k).isNone then [k] else [] := by
  induction after generalizing before with
  | nil => simp [keysFrom, opens, Write.number?, Write.key]
  | cons w after ih =>
    -- A number that is put under a key drops none.
    have hopens : opens before w (after ++ [.put k x]) = opens before w after := by
      simp [opens]
    rw [List.cons_append, keysFrom, keysFrom, hopens, ih]
    simp

/-- A key that is dropped is taken from where it stands, and the others keep their order. -/
theorem keysFrom_drop (k : String) :
    keysFrom before (after ++ [.drop k]) = (keysFrom before after).filter (· ≠ k) := by
  induction after generalizing before with
  | nil => simp [keysFrom, opens, Write.number?]
  | cons w after ih =>
    have hopens : opens before w (after ++ [.drop k]) =
        (opens before w after && decide (w.key ≠ k)) := by
      by_cases h : k = w.key
      · simp [opens, h]
      · have hbeq : (k == w.key) = false := beq_eq_false_iff_ne.2 h
        simp [opens, hbeq, Ne.symm h]
    rw [List.cons_append, keysFrom, keysFrom, hopens, ih, List.filter_append]
    by_cases h : w.key = k <;> cases opens before w after <;> simp [h]

/-- A key that has no number yet goes to the end. -/
theorem keys_put (journal : Journal) (k : String) (x : Float) : keys (journal ++ [.put k x]) =
    keys journal ++ if (value? journal k).isNone then [k] else [] :=
  keysFrom_put k x

/-- A key that is dropped leaves its place. -/
theorem keys_drop (journal : Journal) (k : String) :
    keys (journal ++ [.drop k]) = (keys journal).filter (· ≠ k) :=
  keysFrom_drop k

/-- The keys are those that have a number. -/
theorem mem_keys_iff : k ∈ journal.keys ↔ (journal.value? k).isSome = true := by
  induction journal using List.reverseRecOn with
  | nil => simp [keys, keysFrom, value?]
  | append_singleton journal w ih =>
    rw [value?_concat]
    cases w with
    | put j x =>
      rw [keys_put, List.mem_append, ih, Write.key, Write.number?]
      by_cases hj : j = k
      · subst hj
        cases value? journal j <;> simp
      · cases value? journal j <;> simp [hj, Ne.symm hj]
    | drop j =>
      rw [keys_drop, List.mem_filter, ih, Write.key, Write.number?]
      by_cases hj : j = k
      · simp [hj]
      · simp [hj, Ne.symm hj]

/-- No key stands twice in the order, however often it is assigned. -/
theorem nodup_keys (journal : Journal) : journal.keys.Nodup := by
  induction journal using List.reverseRecOn with
  | nil => exact List.nodup_nil
  | append_singleton journal w ih =>
    cases w with
    | put j x =>
      rw [keys_put]
      split
      · rename_i hnone
        refine List.nodup_append.2 ⟨ih, List.nodup_singleton j, fun a ha b hb => ?_⟩
        obtain rfl := List.mem_singleton.1 hb
        rintro rfl
        have hsome := mem_keys_iff.1 ha
        rw [Option.isNone_iff_eq_none.1 hnone] at hsome
        contradiction
      · rwa [List.append_nil]
    | drop j =>
      rw [keys_drop]
      exact ih.filter _

end Journal

/-! ## Erasing -/

namespace Store

variable {s : Store} {i j : Identifier}

/-- Erasing a key takes it from the keys and keeps the order of the others. -/
theorem keys_erase (s : Store) (i : Identifier) : (s.erase i).keys = s.keys.filter (· ≠ i) := by
  rw [keys, keys, erase, List.filter_map]
  rfl

/-- A key that is erased has no number. -/
theorem get?_erase_self (s : Store) (i : Identifier) : (s.erase i).get? i = none := by
  rw [get?, erase, List.lookup_eq_none_iff]
  intro e he
  have hne : e.1 ≠ i := by simpa using (List.mem_filter.1 he).2
  simpa using hne.symm

/-- Erasing a key keeps the numbers of all others. -/
theorem get?_erase_of_ne (s : Store) (h : j ≠ i) : (s.erase i).get? j = s.get? j := by
  obtain ⟨es⟩ := s
  simp only [get?, erase]
  induction es with
  | nil => rfl
  | cons e rest ih =>
    obtain ⟨k, y⟩ := e
    by_cases hk : k = i
    · subst hk
      have hbeq : (j == k) = false := beq_eq_false_iff_ne.2 h
      rw [List.filter_cons_of_neg (by simp), List.lookup_cons, hbeq, ih]
    · rw [List.filter_cons_of_pos (by simp [hk]), List.lookup_cons, List.lookup_cons, ih]

end Store

/-! ## What a store and its journal agree on -/

/-- A journal says what a store holds, and in which order. -/
structure Journal.Keeps (journal : Journal) (s : Store) : Prop where
  value : ∀ i : Identifier, s.get? i = journal.value? i.canonical
  keys : s.keys.map (·.canonical) = journal.keys

namespace Journal.Keeps

variable {journal : Journal} {s : Store}

/-- A store without entries agrees with a journal without writes. -/
theorem empty : Keeps [] Store.empty := ⟨fun _ => rfl, rfl⟩

/-- A store holds just the keys that have a number in its journal. -/
theorem contains_eq (h : Keeps journal s) (i : Identifier) :
    s.contains i = (journal.value? i.canonical).isSome := by
  rw [Store.contains, h.value]

/-- What is assigned is put under the written key. -/
theorem put (h : Keeps journal s) (i : Identifier) (x : Float) :
    Keeps (journal ++ [.put i.canonical x]) (s.insert i x) := by
  constructor
  · intro j
    rw [value?_concat]
    by_cases hj : j = i
    · subst hj
      rw [Store.get?_insert_self, Write.key, if_pos rfl]
      rfl
    · have hne : i.canonical ≠ j.canonical := fun heq => hj (Identifier.canonical_inj.1 heq).symm
      rw [Store.get?_insert_of_ne s x hj, h.value, Write.key, if_neg hne]
  · have hmem : i ∈ s.keys ↔ ¬(journal.value? i.canonical).isNone = true := by
      rw [← Store.contains_iff_mem_keys, h.contains_eq]
      simp [Option.isSome_iff_ne_none]
    rw [Store.keys_insert, keys_put, ← h.keys]
    by_cases hi : i ∈ s.keys
    · rw [if_pos hi, if_neg (hmem.1 hi), List.append_nil]
    · rw [if_neg hi, if_pos (not_not.1 (mt hmem.2 hi)), List.map_append]
      rfl

/-- What is erased is dropped under the written key. -/
theorem drop (h : Keeps journal s) (i : Identifier) :
    Keeps (journal ++ [.drop i.canonical]) (s.erase i) := by
  constructor
  · intro j
    rw [value?_concat]
    by_cases hj : j = i
    · subst hj
      rw [Store.get?_erase_self, Write.key, if_pos rfl]
      rfl
    · have hne : i.canonical ≠ j.canonical := fun heq => hj (Identifier.canonical_inj.1 heq).symm
      rw [Store.get?_erase_of_ne s hj, h.value, Write.key, if_neg hne]
  · rw [Store.keys_erase, keys_drop, ← h.keys, List.filter_map]
    refine congrArg _ (List.filter_congr fun j _ => ?_)
    simp [Identifier.canonical_inj]

end Journal.Keeps

/-- A store that a journal keeps has one entry for each key. -/
theorem Journal.Keeps.nodup {journal : Journal} {s : Store} (h : journal.Keeps s) : s.keys.Nodup :=
  List.Nodup.of_map _ (h.keys ▸ journal.nodup_keys)

/-! ## Operations -/

namespace Store

/-- Part of an access fails, or the access goes on with what that part gave. -/
theorem Access.run_bind {α β : Type} (result : Except StoreError α) (f : α → Access β)
    (s : Store) : ((liftM result : Access α) >>= f).run.run s =
      match result with
      | .ok a => (f a).run.run s
      | .error e => (.error e, s) := by
  cases result <;> rfl

/-- An access that reads the store goes on with the store that it is run on. -/
theorem Access.run_get_bind {β : Type} (f : Store → Access β) (s : Store) :
    ((get : Access Store) >>= f).run.run s = (f s).run.run s := rfl

section Answers

variable (key : Key) (v : Json) (s : Store)

/-- A number is set if the value is one and the key can be read, and the value is looked at
first. -/
theorem answer_set : (Operation.set key v).answer s =
    match numberOf v, key.resolve with
    | .error e, _ => (.error e, s)
    | .ok _, .error e => (.error e, s)
    | .ok x, .ok i => (.ok .done, s.insert i x) := by
  simp only [Operation.answer, perform, Access.run_bind]
  cases numberOf v <;> cases key.resolve <;> rfl

/-- The number of a key is told, or that the key is malformed or has none. -/
theorem answer_get : (Operation.get key).answer s =
    match key.resolve with
    | .error e => (.error e, s)
    | .ok i => ((s.read i).map .number, s) := by
  simp only [Operation.answer, perform, Access.run_bind, Access.run_get_bind]
  cases key.resolve with
  | error e => rfl
  | ok i =>
    dsimp only
    cases s.read i <;> rfl

/-- A key without a number is answered with the default, and a malformed one is still an error. -/
theorem answer_getOr : (Operation.getOr key v).answer s =
    match key.resolve with
    | .error e => (.error e, s)
    | .ok i => (.ok (.value (s.readOr i v)), s) := by
  simp only [Operation.answer, perform, Access.run_bind, Access.run_get_bind]
  cases key.resolve <;> rfl

/-- A key is dropped if it can be read and has a number. -/
theorem answer_delete : (Operation.delete key).answer s =
    match key.resolve with
    | .error e => (.error e, s)
    | .ok i => if s.contains i then (.ok .done, s.erase i) else (.error (.absent i), s) := by
  simp only [Operation.answer, perform, Access.run_bind, Access.run_get_bind, remove]
  cases key.resolve with
  | error e => rfl
  | ok i =>
    dsimp only
    cases s.contains i <;> rfl

/-- Whether a key is held is answered in any case. -/
theorem answer_has : (Operation.has key).answer s = (.ok (.truth (s.holds key)), s) := rfl

/-- The keys are told in order, as they are written. -/
theorem answer_keys :
    Operation.keys.answer s = (.ok (.keys (s.keys.map (·.canonical))), s) := rfl

/-- A key is present where it names an identifier that is. -/
theorem holds_eq : s.holds key =
    match key.resolve with
    | .ok i => s.contains i
    | .error _ => false := by
  cases key <;> rfl

end Answers

end Store

namespace Journal

open Store (Operation Reply Key)

/-- The reply to an operation from a journal, and the journal after it.  Only an assignment and a
deletion that go through are written down. -/
def answer (op : Operation) (journal : Journal) : Except StoreError Reply × Journal :=
  match op with
  | .set key v =>
    match Store.numberOf v, key.resolve with
    | .error e, _ => (.error e, journal)
    | .ok _, .error e => (.error e, journal)
    | .ok x, .ok i => (.ok .done, journal ++ [.put i.canonical x])
  | .get key =>
    match key.resolve with
    | .error e => (.error e, journal)
    | .ok i =>
      match journal.value? i.canonical with
      | some x => (.ok (.number x), journal)
      | none => (.error (.undefined i), journal)
  | .getOr key default =>
    match key.resolve with
    | .error e => (.error e, journal)
    | .ok i => (.ok (.value ((journal.value? i.canonical).elim default .float)), journal)
  | .delete key =>
    match key.resolve with
    | .error e => (.error e, journal)
    | .ok i =>
      match journal.value? i.canonical with
      | some _ => (.ok .done, journal ++ [.drop i.canonical])
      | none => (.error (.absent i), journal)
  | .has key =>
    match key.resolve with
    | .error _ => (.ok (.truth false), journal)
    | .ok i => (.ok (.truth (journal.value? i.canonical).isSome), journal)
  | .keys => (.ok (.keys journal.keys), journal)

/-- **An operation is answered from the journal as from the store**, and what it writes down is
what it does to the store. -/
theorem Keeps.answer {journal : Journal} {s : Store} (h : Keeps journal s) (op : Operation) :
    (op.answer s).1 = (Journal.answer op journal).1 ∧
      Keeps (Journal.answer op journal).2 (op.answer s).2 := by
  cases op with
  | set key v =>
    rw [Store.answer_set, Journal.answer]
    cases Store.numberOf v with
    | error e => exact ⟨rfl, h⟩
    | ok x =>
      cases key.resolve with
      | error e => exact ⟨rfl, h⟩
      | ok i => exact ⟨rfl, h.put i x⟩
  | get key =>
    rw [Store.answer_get, Journal.answer]
    cases key.resolve with
    | error e => exact ⟨rfl, h⟩
    | ok i =>
      dsimp only [Store.read]
      rw [h.value]
      cases journal.value? i.canonical <;> exact ⟨rfl, h⟩
  | getOr key default =>
    rw [Store.answer_getOr, Journal.answer]
    cases key.resolve with
    | error e => exact ⟨rfl, h⟩
    | ok i =>
      dsimp only [Store.readOr]
      rw [h.value]
      cases journal.value? i.canonical <;> exact ⟨rfl, h⟩
  | delete key =>
    rw [Store.answer_delete, Journal.answer]
    cases key.resolve with
    | error e => exact ⟨rfl, h⟩
    | ok i =>
      simp only [h.contains_eq]
      cases journal.value? i.canonical with
      | none => exact ⟨rfl, h⟩
      | some x => exact ⟨rfl, h.drop i⟩
  | has key =>
    rw [Store.answer_has, Store.holds_eq, Journal.answer]
    cases key.resolve with
    | error e => exact ⟨rfl, h⟩
    | ok i =>
      dsimp only
      rw [h.contains_eq]
      exact ⟨rfl, h⟩
  | keys =>
    rw [Store.answer_keys, Journal.answer, h.keys]
    exact ⟨rfl, h⟩

end Journal

/-! ## Runs -/

namespace Store

/-- The replies to some operations in order, and the state after them. -/
def serve {σ : Type} (answer : Operation → σ → Except StoreError Reply × σ) :
    List Operation → σ → List (Except StoreError Reply) × σ
  | [], s => ([], s)
  | op :: rest, s =>
    let (reply, t) := answer op s
    let (replies, u) := serve answer rest t
    (reply :: replies, u)

/-- A run is answered from the journal as from the store. -/
theorem serve_journal {journal : Journal} {s : Store} (h : journal.Keeps s) (ops : List Operation) :
    (serve Operation.answer ops s).1 = (serve Journal.answer ops journal).1 ∧
      (serve Journal.answer ops journal).2.Keeps (serve Operation.answer ops s).2 := by
  induction ops generalizing journal s with
  | nil => exact ⟨rfl, h⟩
  | cons op rest ih =>
    obtain ⟨hreply, hkeeps⟩ := h.answer op
    obtain ⟨hreplies, hlast⟩ := ih hkeeps
    exact ⟨congrArg₂ List.cons hreply hreplies, hlast⟩

/-- After any run the entries are shown in the order of their identifiers. -/
theorem pairwise_sorted_serve (ops : List Operation) :
    (serve Operation.answer ops empty).2.sorted.Pairwise fun a b => a.1 < b.1 :=
  pairwise_sorted (serve_journal .empty ops).2.nodup

/-- A key with its identifier written out. -/
def Key.written : Key → Key
  | identifier i => value (.string i.canonical)
  | value v => value v

/-- An operation with its key written out. -/
def Operation.written : Operation → Operation
  | set key v => set key.written v
  | get key => get key.written
  | getOr key default => getOr key.written default
  | delete key => delete key.written
  | has key => has key.written
  | keys => keys

/-- A key that is written is read as the same identifier. -/
theorem Key.resolve_written (key : Key) : key.written.resolve = key.resolve := by
  cases key with
  | identifier i =>
    have hread : Identifier.ofCanonical (.string i.canonical) = .ok i :=
      Identifier.ofCanonical_eq_ok.2 rfl
    show (Identifier.ofCanonical (.string i.canonical)).mapError _ = _
    rw [hread]
    rfl
  | value v => rfl

/-- A key may be written out. -/
theorem Operation.answer_written (op : Operation) (s : Store) :
    op.written.answer s = op.answer s := by
  cases op <;>
    simp only [written, answer_set, answer_get, answer_getOr, answer_delete, answer_has, holds_eq,
      Key.resolve_written]

/-- Operations are answered alike if their keys are written. -/
theorem serve_written (ops : List Operation) (s : Store) :
    serve Operation.answer (ops.map Operation.written) s = serve Operation.answer ops s := by
  induction ops generalizing s with
  | nil => rfl
  | cons op rest ih => simp only [List.map_cons, serve, Operation.answer_written, ih]

/-! ## Failures -/

/-- What an operation on a store fails with: its value is no number that can be held, its key
is malformed, or its key is absent. -/
def Operation.Fails (s : Store) (e : StoreError) : Operation → Prop
  | .set key v => numberOf v = .error e ∨ (∃ x, numberOf v = .ok x) ∧ key.resolve = .error e
  | .get key => key.resolve = .error e ∨ ∃ i, key.resolve = .ok i ∧ i ∉ s.keys ∧ e = .undefined i
  | .getOr key _ => key.resolve = .error e
  | .delete key => key.resolve = .error e ∨ ∃ i, key.resolve = .ok i ∧ i ∉ s.keys ∧ e = .absent i
  | .has _ | .keys => False

/-- **An operation that fails leaves the store as it was.** -/
theorem answer_eq_error_iff {op : Operation} {s t : Store} {e : StoreError} :
    op.answer s = (.error e, t) ↔ op.Fails s e ∧ t = s := by
  have habsent (i : Identifier) : i ∉ s.keys ↔ s.contains i = false := by
    rw [← contains_iff_mem_keys, Bool.not_eq_true]
  rw [@eq_comm _ t s]
  cases op with
  | set key v =>
    rw [answer_set, Operation.Fails]
    cases numberOf v <;> cases key.resolve <;> simp
  | get key =>
    rw [answer_get, Operation.Fails]
    cases key.resolve with
    | error d => simp
    | ok i =>
      simp only [read, habsent, contains]
      cases hi : s.get? i <;> simp [Except.map, hi, eq_comm (a := e)]
  | getOr key default =>
    rw [answer_getOr, Operation.Fails]
    cases key.resolve <;> simp
  | delete key =>
    rw [answer_delete, Operation.Fails]
    cases key.resolve with
    | error d => simp
    | ok i =>
      simp only [habsent]
      cases hi : s.contains i <;> simp [hi, eq_comm (a := e)]
  | has key => simp [answer_has, Operation.Fails]
  | keys => simp [answer_keys, Operation.Fails]

/-! ## The store as a map -/

/-- **A store is a finite map of written identifiers.**  Whatever a host asks, it is told what
the journal of its writes says, in which a key has the number that was assigned last and the keys
stand in the order of their first assignment since they were dropped last.  A key may be given
as an identifier or written, in every operation.  An operation fails for its value, for a
malformed key or for an absent one, the numbers and their order are left as they were then, and
to ask whether a key is present never fails. -/
theorem serves_journal :
    (∀ ops : List Operation,
      (serve Operation.answer ops empty).1 = (serve Journal.answer ops []).1 ∧
        (serve Journal.answer ops []).2.Keeps (serve Operation.answer ops empty).2) ∧
    (∀ ops ops' : List Operation, ops.map Operation.written = ops'.map Operation.written →
      ∀ s, serve Operation.answer ops s = serve Operation.answer ops' s) ∧
    (∀ (op : Operation) (s t : Store) (e : StoreError),
      op.answer s = (.error e, t) ↔ op.Fails s e ∧ t = s) ∧
    ∀ (key : Key) (s : Store), ∃ b, (Operation.has key).answer s = (.ok (.truth b), s) := by
  refine ⟨serve_journal .empty, fun ops ops' hwritten s => ?_, fun op s t e => answer_eq_error_iff,
    fun key s => ⟨_, answer_has key s⟩⟩
  rw [← serve_written ops, hwritten, serve_written]

/-- A key that is erased and assigned again goes behind the others, whichever way it is given.
What is assigned to no identifier, or is no number, changes nothing. -/
theorem serves_journal_again :
    let gold : Identifier := ⟨"a", "gold", by decide, by decide⟩
    let ops : List Operation :=
      [.set (.value (.string "a:gold")) (.float 1), .set (.value (.string "b:oil")) (.float 2),
       .delete (.identifier gold), .set (.value (.string "gold")) (.float 3),
       .set (.identifier gold) (.float 4), .set (.value (.string "b:oil")) (.bool true),
       .get (.value (.string "a:gold")), .has (.value (.string "gold")), .keys]
    let written : List Operation := ops.map Operation.written
    let malformed : Diagnostic := ⟨.identifier, .malformedCanonical (.string "gold"),
      { identifier := .string "gold" }⟩
    let replies : List (Except StoreError Reply) :=
      [.ok .done, .ok .done, .ok .done, .error (.malformedKey malformed), .ok .done,
       .error (.notNumber "bool"), .ok (.number 4), .ok (.truth false),
       .ok (.keys ["b:oil", "a:gold"])]
    (serve Operation.answer ops empty).1 = replies ∧
      (serve Operation.answer written empty).1 = replies ∧
      (serve Journal.answer written []).1 = replies := by
  intro gold ops written malformed replies
  obtain ⟨hjournal, hforms, -, -⟩ := serves_journal
  have hreplies : (serve Operation.answer ops empty).1 = replies := rfl
  have hwritten : serve Operation.answer written empty = serve Operation.answer ops empty :=
    hforms written ops rfl empty
  refine ⟨hreplies, hwritten ▸ hreplies, ?_⟩
  rw [← (hjournal written).1, hwritten, hreplies]

end Store
end Gamebook
