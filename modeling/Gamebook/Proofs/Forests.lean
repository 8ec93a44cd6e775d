/-
# Postfix orders as forests

Entries in postfix order leave a stack of trees.  Where every operator finds its operands
(`Entry.Fed`), the entries are the postorders of these trees, one behind the other, and of no
others; where one does not, they are the postorders of no trees at all.  So building gives the
one tree whose postorder the entries are, and refuses all other entries for one of three
reasons, which exclude each other (`Expr.ofPostfix_exact`):

| entries | refused for |
| --- | --- |
| an operator stands behind too few operands | the first such operator |
| none | an empty expression |
| the postorders of two trees or more | operands without an operator |
-/

import Gamebook.Proofs.Acceptance
import Gamebook.Proofs.Tree
import Mathlib.Data.List.Induction

namespace Gamebook

namespace Compile

variable {α β : Type} {x : Compile α} {f : α → Compile β} {c : Context}

/-- A computation gives a result and leaves the context, but for the identifier read last. -/
def Returns (x : Compile α) (c : Context) (a : α) : Prop :=
  ∃ raw, x.run c = .ok (a, c.visit raw)

/-- A computation stops with a cause, in the context but for the identifier read last. -/
def StopsWith (x : Compile α) (c : Context) (place : Place) (cause : Cause) : Prop :=
  ∃ raw, x.run c = .error ⟨place, cause, c.visit raw⟩

/-- A computation gives one result at most. -/
theorem Returns.unique {a b : α} (h : x.Returns c a) (h' : x.Returns c b) : a = b := by
  obtain ⟨raw, hraw⟩ := h
  obtain ⟨raw', hraw'⟩ := h'
  exact (Prod.mk.inj (Except.ok.inj (hraw.symm.trans hraw'))).1

/-- A computation stops with one cause at most. -/
theorem StopsWith.unique {place : Place} {cause cause' : Cause} (h : x.StopsWith c place cause)
    (h' : x.StopsWith c place cause') : cause = cause' := by
  obtain ⟨raw, hraw⟩ := h
  obtain ⟨raw', hraw'⟩ := h'
  exact (Diagnostic.mk.inj (Except.error.inj (hraw.symm.trans hraw'))).2.1

/-- A computation that gives a result does not stop. -/
theorem Returns.not_stopsWith {a : α} {place : Place} {cause : Cause} (h : x.Returns c a) :
    ¬x.StopsWith c place cause := by
  rintro ⟨raw', hraw'⟩
  obtain ⟨raw, hraw⟩ := h
  exact absurd (hraw.symm.trans hraw') (by simp)

/-- What follows a result goes on in the context that it leaves. -/
theorem Returns.exists_context {a : α} (h : x.Returns c a) (f : α → Compile β) :
    ∃ c', (∀ b, (f a).Returns c' b → (x >>= f).Returns c b) ∧
      ∀ place cause, (f a).StopsWith c' place cause → (x >>= f).StopsWith c place cause := by
  obtain ⟨raw, hraw⟩ := h
  refine ⟨c.visit raw, ?_, ?_⟩
  · rintro b ⟨raw', hraw'⟩
    exact ⟨raw', (run_bind_of_ok hraw).trans hraw'⟩
  · rintro place cause ⟨raw', hraw'⟩
    exact ⟨raw', (run_bind_of_ok hraw).trans hraw'⟩

/-- What stops a computation stops all that would follow it. -/
theorem StopsWith.bind {place : Place} {cause : Cause} (h : x.StopsWith c place cause) :
    (x >>= f).StopsWith c place cause := by
  obtain ⟨raw, hraw⟩ := h
  exact ⟨raw, run_bind_of_error hraw⟩

/-- A result is given in every context. -/
theorem returns_pure (a : α) (c : Context) : (pure a : Compile α).Returns c a :=
  ⟨c.identifier, rfl⟩

/-- A refusal stops a computation at its place and in its context. -/
theorem stopsWith_fail (place : Place) (cause : Cause) (c : Context) :
    (fail place cause : Compile α).StopsWith c place cause :=
  ⟨c.identifier, rfl⟩

end Compile

/-! ## Entries and the operands that they take -/

namespace Entry

variable {α β : Type}

/-- How many values an entry takes. -/
def takes : Entry α β → Nat
  | operand _ => 0
  | unary _ => 1
  | binary _ => 2

/-- Whether an entry is an operand. -/
def isOperand : Entry α β → Bool
  | operand _ => true
  | _ => false

/-- Whether an entry is a binary operator. -/
def isBinary : Entry α β → Bool
  | binary _ => true
  | _ => false

/-- How many operands stand in entries. -/
def operands (es : List (Entry α β)) : Nat := es.countP isOperand

/-- How many binary operators stand in entries. -/
def binaries (es : List (Entry α β)) : Nat := es.countP isBinary

/-- The symbol of an operator. -/
def symbol? : Entry UnaryOp InfixOp → Option String
  | operand _ => none
  | unary op => some op.symbol
  | binary op => some op.symbol

/-- Too few operands stand in front of an operator, with some values there before: each binary
operator has made one value of two. -/
def Starves (n : Nat) (front : List (Entry α β)) (e : Entry α β) : Prop :=
  0 < e.takes ∧ n + operands front < binaries front + e.takes

/-- No operator of the entries stands behind too few operands. -/
def FedFrom (n : Nat) (es : List (Entry α β)) : Prop :=
  ∀ front e rest, es = front ++ e :: rest → ¬Starves n front e

/-- No operator of the entries stands behind too few operands, there being no values before. -/
abbrev Fed (es : List (Entry α β)) : Prop := FedFrom 0 es

variable {n : Nat} {e : Entry α β} {es : List (Entry α β)}

/-- Without entries no operator is starved. -/
theorem fedFrom_nil (n : Nat) : FedFrom n ([] : List (Entry α β)) := by
  intro front e rest h
  simp at h

/-- Behind an entry there is one value in place of those that it takes. -/
theorem starves_cons_iff (h : e.takes ≤ n) {front : List (Entry α β)} {e' : Entry α β} :
    Starves n (e :: front) e' ↔ Starves (n - e.takes + 1) front e' := by
  cases e <;>
    simp only [Starves, operands, binaries, List.countP_cons, isOperand, isBinary, takes] at h ⊢ <;>
    simp only [Bool.false_eq_true, if_true, if_false] <;>
    omega

/-- The first operator finds its operands, and the others do behind it. -/
theorem fedFrom_cons_iff : FedFrom n (e :: es) ↔ e.takes ≤ n ∧ FedFrom (n - e.takes + 1) es := by
  constructor
  · intro h
    have hfirst : e.takes ≤ n := Nat.le_of_not_lt fun hlt =>
      h [] e es rfl ⟨by omega, by simp only [operands, binaries, List.countP_nil]; omega⟩
    refine ⟨hfirst, ?_⟩
    rintro front e' rest rfl hstarves
    exact h (e :: front) e' rest rfl ((starves_cons_iff hfirst).2 hstarves)
  · rintro ⟨hfirst, h⟩ front e' rest heq hstarves
    rcases List.cons_eq_append_iff.1 heq with ⟨rfl, hcons⟩ | ⟨front, rfl, rfl⟩
    · obtain ⟨rfl, -⟩ := List.cons.inj hcons
      simp only [Starves, operands, binaries, List.countP_nil] at hstarves
      omega
    · exact h front e' rest rfl ((starves_cons_iff hfirst).1 hstarves)

/-- The first operator of the entries that stands behind too few operands has a symbol. -/
def FirstStarved (n : Nat) (es : List (Entry UnaryOp InfixOp)) (s : String) : Prop :=
  ∃ front e rest, es = front ++ e :: rest ∧ e.symbol? = some s ∧ Starves n front e ∧
    FedFrom n front

/-- Where an operator is starved, the entries are not fed. -/
theorem FirstStarved.not_fedFrom {es : List (Entry UnaryOp InfixOp)} {s : String}
    (h : FirstStarved n es s) : ¬FedFrom n es := by
  obtain ⟨front, e, rest, heq, -, hstarves, -⟩ := h
  exact fun hfed => hfed front e rest heq hstarves

/-- The first operator that starves stands in front, or behind an entry that does not. -/
theorem firstStarved_cons_iff {e : Entry UnaryOp InfixOp} {es : List (Entry UnaryOp InfixOp)}
    {s : String} :
    FirstStarved n (e :: es) s ↔
      n < e.takes ∧ e.symbol? = some s ∨ e.takes ≤ n ∧ FirstStarved (n - e.takes + 1) es s := by
  constructor
  · rintro ⟨front, e', rest, heq, hs, hstarves, hfed⟩
    rcases List.cons_eq_append_iff.1 heq with ⟨rfl, hcons⟩ | ⟨front, rfl, rfl⟩
    · obtain ⟨rfl, -⟩ := List.cons.inj hcons
      exact .inl ⟨by simpa [Starves, operands, binaries] using hstarves.2, hs⟩
    · obtain ⟨he, hfed⟩ := fedFrom_cons_iff.1 hfed
      exact .inr ⟨he, front, e', rest, rfl, hs, (starves_cons_iff he).1 hstarves, hfed⟩
  · rintro (⟨hlt, hs⟩ | ⟨he, front, e', rest, rfl, hs, hstarves, hfed⟩)
    · exact ⟨[], e, es, rfl, hs, ⟨by omega, by simpa [operands, binaries] using hlt⟩, fedFrom_nil n⟩
    · exact ⟨e :: front, e', rest, rfl, hs, (starves_cons_iff he).2 hstarves,
        fedFrom_cons_iff.2 ⟨he, hfed⟩⟩

/-- There is one first operator that starves at most. -/
theorem FirstStarved.unique {es : List (Entry UnaryOp InfixOp)} {s s' : String}
    (h : FirstStarved n es s) (h' : FirstStarved n es s') : s = s' := by
  induction es generalizing n with
  | nil =>
    obtain ⟨front, e, rest, heq, -⟩ := h
    simp at heq
  | cons e es ih =>
    rcases firstStarved_cons_iff.1 h with ⟨hlt, hs⟩ | ⟨he, hrest⟩
    · rcases firstStarved_cons_iff.1 h' with ⟨-, hs'⟩ | ⟨he', -⟩
      · exact Option.some.inj (hs.symm.trans hs')
      · omega
    · rcases firstStarved_cons_iff.1 h' with ⟨hlt', -⟩ | ⟨-, hrest'⟩
      · omega
      · exact ih hrest hrest'

end Entry

/-! ## Postorders -/

namespace Tree

variable {ω α β : Type}

/-- The last entry of a postorder is the root of its tree, so the tree can be told from any
entries that end with its postorder. -/
theorem postorder_append_inj {t t' : Tree Operand α β} {es es' : List (Entry α β)}
    (h : es ++ t.postorder id = es' ++ t'.postorder id) : es = es' ∧ t = t' := by
  induction t generalizing t' es es' with
  | leaf o =>
    cases t' with
    | leaf o' =>
      obtain ⟨hes, ho⟩ := List.append_inj' h rfl
      obtain rfl : o = o' := by simpa [postorder] using ho
      exact ⟨hes, rfl⟩
    | unary | binary =>
      simp only [postorder, ← List.append_assoc] at h
      exact absurd (List.append_inj' h rfl).2 (by simp)
  | unary op t ih =>
    cases t' with
    | unary op' t' =>
      simp only [postorder, ← List.append_assoc] at h
      obtain ⟨hrest, hop⟩ := List.append_inj' h rfl
      obtain ⟨hes, rfl⟩ := ih hrest
      simp only [List.cons.injEq, Entry.unary.injEq, and_true] at hop
      exact ⟨hes, congrArg (unary · t) hop⟩
    | leaf | binary =>
      simp only [postorder, ← List.append_assoc] at h
      exact absurd (List.append_inj' h rfl).2 (by simp)
  | binary op l r ihl ihr =>
    cases t' with
    | binary op' l' r' =>
      simp only [postorder, ← List.append_assoc] at h
      obtain ⟨hrest, hop⟩ := List.append_inj' h rfl
      obtain ⟨hleft, rfl⟩ := ihr hrest
      obtain ⟨hes, rfl⟩ := ihl hleft
      simp only [List.cons.injEq, Entry.binary.injEq, and_true] at hop
      exact ⟨hes, congrArg (binary · l r) hop⟩
    | leaf | unary =>
      simp only [postorder, ← List.append_assoc] at h
      exact absurd (List.append_inj' h rfl).2 (by simp)

/-- A postorder is that of one tree only. -/
theorem postorder_injective {t t' : Tree Operand α β} (h : t.postorder id = t'.postorder id) :
    t = t' := by
  have hbehind : [] ++ t.postorder id = [] ++ t'.postorder id := h
  exact (postorder_append_inj hbehind).2

/-- Behind the postorder of a tree there is one value more. -/
theorem fedFrom_postorder_append (t : Tree Operand α β) (n : Nat) (es : List (Entry α β)) :
    Entry.FedFrom n (t.postorder id ++ es) ↔ Entry.FedFrom (n + 1) es := by
  induction t generalizing n es with
  | leaf o => simp [postorder, Entry.fedFrom_cons_iff, Entry.takes]
  | unary op t ih =>
    simp [postorder, ih, Entry.fedFrom_cons_iff, Entry.takes]
  | binary op l r ihl ihr =>
    simp [postorder, ihl, ihr, Entry.fedFrom_cons_iff, Entry.takes]

/-- In the postorders of trees every operator finds its operands. -/
theorem fedFrom_flatMap_postorder (ts : List (Tree Operand α β)) (n : Nat) :
    Entry.FedFrom n (ts.flatMap (postorder id)) := by
  induction ts generalizing n with
  | nil => exact Entry.fedFrom_nil n
  | cons t ts ih =>
    rw [List.flatMap_cons, fedFrom_postorder_append]
    exact ih (n + 1)

/-- The postorders of trees, one behind the other, are those of no other trees. -/
theorem flatMap_postorder_injective {ts ts' : List (Tree Operand α β)}
    (h : ts.flatMap (postorder id) = ts'.flatMap (postorder id)) : ts = ts' := by
  have hne (t : Tree Operand α β) : t.postorder id ≠ [] := by cases t <;> simp [postorder]
  -- the last tree is told first
  induction ts using List.reverseRecOn generalizing ts' with
  | nil =>
    cases ts' with
    | nil => rfl
    | cons t ts' => exact absurd h.symm (by simp [hne])
  | append_singleton ts t ih =>
    rcases List.eq_nil_or_concat ts' with rfl | ⟨ts', t', rfl⟩
    · exact absurd h (by simp [hne])
    · simp only [List.concat_eq_append, List.flatMap_append, List.flatMap_singleton] at h
      obtain ⟨hrest, rfl⟩ := postorder_append_inj h
      rw [ih hrest, List.concat_eq_append]

/-- The expression that a tree of operands stands for inside a scope, if its names can be
read. -/
def expr? (scope : String) : Tree Operand UnaryOp InfixOp → Option Expr
  | leaf o => Expr.leaf? scope o
  | unary op t => do
    let e ← t.expr? scope
    return .unary op e
  | binary op l r => do
    let a ← l.expr? scope
    let b ← r.expr? scope
    return Expr.combine op a b

end Tree

namespace Expr

variable {scope : String} {es : List (Entry UnaryOp InfixOp)}

/-- An operand that can be read is given as what it stands for. -/
theorem returns_leaf {o : Operand} {e : Expr} (h : leaf? scope o = some e) (c : Context) :
    (leaf scope o).Returns c e := by
  cases o with
  | number text =>
    obtain rfl := Option.some.inj h
    exact Compile.returns_pure _ c
  | word text =>
    obtain ⟨i, hi, rfl⟩ := Option.map_eq_some_iff.1 h
    exact ⟨.string text, Compile.run_bind_of_ok (Identifier.resolve_eq_ok hi c)⟩

/-- **Entries add a forest to the stack, or one of their operators starves.**  The trees on
the stack are those whose postorders have been read. -/
theorem stack_cases (hes : ∀ o, Entry.operand o ∈ es → o.Readable scope)
    {ts : List (Tree Operand UnaryOp InfixOp)} {built : List Expr}
    (h : List.Forall₂ (fun t e => t.expr? scope = some e) ts built) (place : Place)
    (source : String) (c : Context) :
    (∃ ts' built', List.Forall₂ (fun t e => t.expr? scope = some e) ts' built' ∧
      ts'.reverse.flatMap (Tree.postorder id) = ts.reverse.flatMap (Tree.postorder id) ++ es ∧
      (stack scope place source es built).Returns c built') ∨
    ∃ s, Entry.FirstStarved ts.length es s ∧
      (stack scope place source es built).StopsWith c place (.missingOperand s source) := by
  induction es generalizing ts built c with
  | nil => exact .inl ⟨ts, built, h, (List.append_nil _).symm, Compile.returns_pure built c⟩
  | cons entry es ih =>
    have hrest : ∀ o, Entry.operand o ∈ es → o.Readable scope := fun o ho =>
      hes o (List.mem_cons_of_mem _ ho)
    cases entry with
    | operand o =>
      obtain ⟨e, he⟩ := Option.isSome_iff_exists.1 (hes o (List.mem_cons_self ..))
      have hleaf : (Tree.leaf o : Tree Operand UnaryOp InfixOp).expr? scope = some e := he
      obtain ⟨c', hreturns, hstops⟩ := (returns_leaf he c).exists_context fun e =>
        stack scope place source es (e :: built)
      rcases ih hrest (.cons hleaf h) c' with ⟨ts', built', h', hpost, hrun⟩ | ⟨s, hs, hrun⟩
      · refine .inl ⟨ts', built', h', ?_, hreturns _ hrun⟩
        simpa [Tree.postorder] using hpost
      · exact .inr ⟨s, Entry.firstStarved_cons_iff.2 (.inr ⟨Nat.zero_le _, hs⟩), hstops _ _ hrun⟩
    | unary op =>
      cases h with
      | nil =>
        exact .inr ⟨op.symbol, Entry.firstStarved_cons_iff.2 (.inl ⟨Nat.zero_lt_one, rfl⟩),
          Compile.stopsWith_fail _ _ c⟩
      | @cons t e ts built ht h =>
        have hunary : (Tree.unary op t).expr? scope = some (unary op e) := by simp [Tree.expr?, ht]
        rcases ih hrest (.cons hunary h) c with ⟨ts', built', h', hpost, hrun⟩ | ⟨s, hs, hrun⟩
        · refine .inl ⟨ts', built', h', ?_, hrun⟩
          simpa [Tree.postorder] using hpost
        · exact .inr ⟨s, Entry.firstStarved_cons_iff.2 (.inr ⟨Nat.le_add_left 1 _, hs⟩), hrun⟩
    | binary op =>
      cases h with
      | nil =>
        exact .inr ⟨op.symbol, Entry.firstStarved_cons_iff.2 (.inl ⟨Nat.zero_lt_two, rfl⟩),
          Compile.stopsWith_fail _ _ c⟩
      | @cons t e ts built ht h =>
        cases h with
        | nil =>
          exact .inr ⟨op.symbol, Entry.firstStarved_cons_iff.2 (.inl ⟨Nat.one_lt_two, rfl⟩),
            Compile.stopsWith_fail _ _ c⟩
        | @cons t' e' ts built ht' h =>
          have hbinary : (Tree.binary op t' t).expr? scope = some (combine op e' e) := by
            simp [Tree.expr?, ht, ht']
          rcases ih hrest (.cons hbinary h) c with ⟨ts', built', h', hpost, hrun⟩ | ⟨s, hs, hrun⟩
          · refine .inl ⟨ts', built', h', ?_, hrun⟩
            simpa [Tree.postorder] using hpost
          · exact .inr ⟨s, Entry.firstStarved_cons_iff.2 (.inr ⟨Nat.le_add_left 2 _, hs⟩), hrun⟩

/-- What entries are built to, or refused for, and why. -/
inductive Builds (scope : String) (place : Place) (source : String) (c : Context)
    (es : List (Entry UnaryOp InfixOp)) : Prop
  | tree (t : Tree Operand UnaryOp InfixOp) (e : Expr) (ht : t.postorder id = es)
      (he : t.expr? scope = some e) (h : (ofPostfix scope place source es).Returns c e)
  | starved (s : String) (hs : Entry.FirstStarved 0 es s)
      (h : (ofPostfix scope place source es).StopsWith c place (.missingOperand s source))
  | empty (hes : es = [])
      (h : (ofPostfix scope place source es).StopsWith c place (.emptyExpression source))
  | several (ts : List (Tree Operand UnaryOp InfixOp)) (hlen : 2 ≤ ts.length)
      (hts : ts.flatMap (Tree.postorder id) = es)
      (h : (ofPostfix scope place source es).StopsWith c place (.strayOperands source))

/-- **Entries are the postorder of one tree, or one of their operators starves, or there are
none, or they are the postorders of several trees.** -/
theorem builds (hes : ∀ o, Entry.operand o ∈ es → o.Readable scope) (place : Place)
    (source : String) (c : Context) : Builds scope place source c es := by
  rcases stack_cases hes .nil place source c with ⟨ts, built, h, hpost, hrun⟩ | ⟨s, hs, hrun⟩
  · rw [List.reverse_nil, List.flatMap_nil, List.nil_append] at hpost
    obtain ⟨finish, hfinish, hnone, hone, hmany⟩ : ∃ finish : List Expr → Compile Expr,
        ofPostfix scope place source es = stack scope place source es [] >>= finish ∧
        finish [] = Compile.fail place (.emptyExpression source) ∧ (∀ e, finish [e] = pure e) ∧
        ∀ e e' built, finish (e :: e' :: built) = Compile.fail place (.strayOperands source) :=
      ⟨_, rfl, rfl, fun _ => rfl, fun _ _ _ => rfl⟩
    obtain ⟨c', hreturns, hstops⟩ := hrun.exists_context finish
    rw [← hfinish] at hreturns hstops
    cases h with
    | nil =>
      rw [hnone] at hstops
      exact .empty hpost.symm (hstops _ _ (Compile.stopsWith_fail _ _ c'))
    | @cons t e ts built ht h =>
      cases h with
      | nil =>
        rw [hone] at hreturns
        exact .tree t e (by simpa using hpost) ht (hreturns _ (Compile.returns_pure e c'))
      | @cons t' e' ts built ht' h =>
        rw [hmany] at hstops
        exact .several (t :: t' :: ts).reverse (by simp) hpost
          (hstops _ _ (Compile.stopsWith_fail _ _ c'))
  · exact .starved s hs hrun.bind

section

variable {place : Place} {source : String} {c : Context}

/-- Postorders of trees are refused for no operator. -/
theorem not_firstStarved {ts : List (Tree Operand UnaryOp InfixOp)}
    (hts : ts.flatMap (Tree.postorder id) = es) (s : String) : ¬Entry.FirstStarved 0 es s :=
  fun h => h.not_fedFrom (hts ▸ Tree.fedFrom_flatMap_postorder ts 0)

/-- Entries give an expression just if they are the postorder of exactly one tree that stands for
it. -/
theorem returns_iff (h : Builds scope place source c es) {e : Expr} :
    (ofPostfix scope place source es).Returns c e ↔
      ∃! t : Tree Operand UnaryOp InfixOp, t.postorder id = es ∧ t.expr? scope = some e := by
  have only {t : Tree Operand UnaryOp InfixOp} (ht : t.postorder id = es) :
      [t].flatMap (Tree.postorder id) = es := by simpa using ht
  constructor
  · intro hreturns
    cases h with
    | tree t e' ht he h =>
      obtain rfl := h.unique hreturns
      exact ⟨t, ⟨ht, he⟩, fun t' ht' => Tree.postorder_injective (ht'.1.trans ht.symm)⟩
    | starved s _ h => exact absurd h hreturns.not_stopsWith
    | empty _ h => exact absurd h hreturns.not_stopsWith
    | several _ _ _ h => exact absurd h hreturns.not_stopsWith
  · rintro ⟨t, ⟨ht, he⟩, -⟩
    cases h with
    | tree t' e' ht' he' h =>
      obtain rfl := Tree.postorder_injective (ht'.trans ht.symm)
      obtain rfl := Option.some.inj (he'.symm.trans he)
      exact h
    | starved s hs _ => exact absurd hs (not_firstStarved (only ht) s)
    | empty hes _ =>
      have hnil : [t] = [] := Tree.flatMap_postorder_injective ((only ht).trans hes)
      contradiction
    | several ts hlen hts _ =>
      obtain rfl := Tree.flatMap_postorder_injective (hts.trans (only ht).symm)
      exact absurd hlen (by simp)

/-- An operand is missing for an operator just if it is the first that is starved. -/
theorem missingOperand_iff (h : Builds scope place source c es) {s : String} :
    (ofPostfix scope place source es).StopsWith c place (.missingOperand s source) ↔
      Entry.FirstStarved 0 es s := by
  constructor
  · intro hstops
    cases h with
    | tree _ _ _ _ h => exact absurd hstops h.not_stopsWith
    | starved s' hs h =>
      obtain rfl : s' = s := by simpa using h.unique hstops
      exact hs
    | empty _ h => exact absurd (h.unique hstops) nofun
    | several _ _ _ h => exact absurd (h.unique hstops) nofun
  · intro hs
    cases h with
    | tree t _ ht _ _ =>
      have hone : [t].flatMap (Tree.postorder id) = es := by simpa using ht
      exact absurd hs (not_firstStarved hone s)
    | starved s' hs' h => exact hs.unique hs' ▸ h
    | empty hes _ =>
      have hnone : [].flatMap (Tree.postorder id) = es := hes.symm
      exact absurd hs (not_firstStarved hnone s)
    | several ts _ hts _ => exact absurd hs (not_firstStarved hts s)

/-- An operand is missing just if the entries are not fed. -/
theorem exists_missingOperand_iff (h : Builds scope place source c es) :
    (∃ s, (ofPostfix scope place source es).StopsWith c place (.missingOperand s source)) ↔
      ¬Entry.Fed es := by
  constructor
  · rintro ⟨s, hs⟩
    exact ((missingOperand_iff h).1 hs).not_fedFrom
  · intro hfed
    cases h with
    | tree t _ ht _ _ =>
      have hone := Tree.fedFrom_flatMap_postorder [t] 0
      rw [List.flatMap_singleton, ht] at hone
      exact absurd hone hfed
    | starved s _ h => exact ⟨s, h⟩
    | empty hes _ => exact absurd (hes ▸ Entry.fedFrom_nil _) hfed
    | several ts _ hts _ => exact absurd (hts ▸ Tree.fedFrom_flatMap_postorder ts 0) hfed

/-- An expression is empty just if it has no entries. -/
theorem emptyExpression_iff (h : Builds scope place source c es) :
    (ofPostfix scope place source es).StopsWith c place (.emptyExpression source) ↔ es = [] := by
  constructor
  · intro hstops
    cases h with
    | tree _ _ _ _ h => exact absurd hstops h.not_stopsWith
    | starved _ _ h => exact absurd (h.unique hstops) nofun
    | empty hes _ => exact hes
    | several _ _ _ h => exact absurd (h.unique hstops) nofun
  · rintro rfl
    exact Compile.stopsWith_fail _ _ c

/-- Operands are left over just if the entries are the postorders of several trees, one behind the
other. -/
theorem strayOperands_iff (h : Builds scope place source c es) :
    (ofPostfix scope place source es).StopsWith c place (.strayOperands source) ↔
      ∃ ts : List (Tree Operand UnaryOp InfixOp), 2 ≤ ts.length ∧
        ts.flatMap (Tree.postorder id) = es := by
  constructor
  · intro hstops
    cases h with
    | tree _ _ _ _ h => exact absurd hstops h.not_stopsWith
    | starved _ _ h => exact absurd (h.unique hstops) nofun
    | empty _ h => exact absurd (h.unique hstops) nofun
    | several ts hlen hts _ => exact ⟨ts, hlen, hts⟩
  · rintro ⟨ts, hlen, hts⟩
    have only {us : List (Tree Operand UnaryOp InfixOp)}
        (hus : us.flatMap (Tree.postorder id) = es) : us = ts :=
      Tree.flatMap_postorder_injective (hus.trans hts.symm)
    cases h with
    | tree t _ ht _ _ =>
      have hone : [t] = ts := only (by simpa using ht)
      exact absurd hlen (by simp [← hone])
    | starved s hs _ => exact absurd hs (not_firstStarved hts s)
    | empty hes _ =>
      have hnone : [] = ts := only hes.symm
      exact absurd hlen (by simp [← hnone])
    | several _ _ _ h => exact h

end

/-- The operands of a tree that stands for an expression can be read. -/
theorem readable_of_expr? {t : Tree Operand UnaryOp InfixOp} {e : Expr}
    (h : t.expr? scope = some e) {o : Operand} (ho : Entry.operand o ∈ t.postorder id) :
    o.Readable scope := by
  induction t generalizing e with
  | leaf o' =>
    obtain rfl : o = o' := by simpa [Tree.postorder] using ho
    exact Option.isSome_of_mem h
  | unary op t ih =>
    obtain ⟨a, ha, -⟩ := Option.bind_eq_some_iff.1 h
    exact ih ha (by simpa [Tree.postorder] using ho)
  | binary op l r ihl ihr =>
    obtain ⟨a, ha, h⟩ := Option.bind_eq_some_iff.1 h
    obtain ⟨b, hb, -⟩ := Option.bind_eq_some_iff.1 h
    have hmem : Entry.operand o ∈ l.postorder id ∨ Entry.operand o ∈ r.postorder id := by
      simpa [Tree.postorder] using ho
    exact hmem.elim (ihl ha) (ihr hb)

/-- **Building undoes the postorder, and nothing else is built.**  The postorder of a tree is
built to the tree.  Entries whose names can be read are built where they are the postorder of
a tree, which is the only one.  Other entries are refused: for the first operator that stands
behind too few operands, if there is one; otherwise because there are no entries, or because
they are the postorders of several trees. -/
theorem ofPostfix_exact (scope : String) (place : Place) (source : String) (c : Context) :
    (∀ (t : Tree Operand UnaryOp InfixOp) (e : Expr), t.expr? scope = some e →
      (ofPostfix scope place source (t.postorder id)).Returns c e) ∧
    ∀ es : List (Entry UnaryOp InfixOp), (∀ o, Entry.operand o ∈ es → o.Readable scope) →
      let built := ofPostfix scope place source es
      (∀ e, built.Returns c e ↔
        ∃! t : Tree Operand UnaryOp InfixOp, t.postorder id = es ∧ t.expr? scope = some e) ∧
      ((∃ s, built.StopsWith c place (.missingOperand s source)) ↔ ¬Entry.Fed es) ∧
      (∀ s, built.StopsWith c place (.missingOperand s source) ↔ Entry.FirstStarved 0 es s) ∧
      (built.StopsWith c place (.emptyExpression source) ↔ es = []) ∧
      (built.StopsWith c place (.strayOperands source) ↔
        ∃ ts : List (Tree Operand UnaryOp InfixOp), 2 ≤ ts.length ∧
          ts.flatMap (Tree.postorder id) = es) ∧
      ((∃ e, built.Returns c e) ∨ (∃ s, built.StopsWith c place (.missingOperand s source)) ∨
        built.StopsWith c place (.emptyExpression source) ∨
        built.StopsWith c place (.strayOperands source)) := by
  constructor
  · intro t e he
    have h := builds (fun _ ho => readable_of_expr? he ho) place source c
    exact (returns_iff h).2 ⟨t, ⟨rfl, he⟩, fun t' ht' => Tree.postorder_injective ht'.1⟩
  · intro es hes built
    have h := builds hes place source c
    refine ⟨fun e => returns_iff h, exists_missingOperand_iff h, fun s => missingOperand_iff h,
      emptyExpression_iff h, strayOperands_iff h, ?_⟩
    cases h with
    | tree _ e _ _ h => exact .inl ⟨e, h⟩
    | starved s _ h => exact .inr (.inl ⟨s, h⟩)
    | empty _ h => exact .inr (.inr (.inl h))
    | several _ _ _ h => exact .inr (.inr (.inr h))

/-- The entries of `x+-2` are built to their tree.  With a product and a minus sign behind
those of `x+y` it is the product that is refused, and not the sign. -/
theorem ofPostfix_exact_starved :
    let x : Identifier := ⟨"a", "x", by decide, by decide⟩
    let t : Tree Operand UnaryOp InfixOp :=
      .binary (.apply .add) (.leaf (.word "x")) (.unary .neg (.leaf (.number "2")))
    let e : Expr := .binary .add (.variable x) (.unary .neg (.number (numeralValue "2")))
    let es : List (Entry UnaryOp InfixOp) := [.operand (.word "x"), .operand (.word "y"),
      .binary (.apply .add), .binary (.apply .mul), .unary .neg]
    t.expr? "a" = some e ∧
      (ofPostfix "a" .scene "x+-2" (t.postorder id)).Returns {} e ∧
      (∀ o, Entry.operand o ∈ es → o.Readable "a") ∧ Entry.FirstStarved 0 es "*" ∧
      (ofPostfix "a" .scene "-(x+y)*" es).StopsWith {} .scene (.missingOperand "*" "-(x+y)*") := by
  intro x t e es
  have he : t.expr? "a" = some e := rfl
  have hread : ∀ o, Entry.operand o ∈ es → o.Readable "a" := by
    intro o ho
    obtain rfl | rfl : o = .word "x" ∨ o = .word "y" := by simpa [es] using ho
    · exact rfl
    · exact rfl
  let sum : Tree Operand UnaryOp InfixOp :=
    .binary (.apply .add) (.leaf (.word "x")) (.leaf (.word "y"))
  have hfed : Entry.FedFrom 0 (sum.postorder id) := by
    simpa using Tree.fedFrom_flatMap_postorder [sum] 0
  have hstarves : Entry.Starves 0 (sum.postorder id) (.binary (.apply .mul) : Entry UnaryOp _) := by
    unfold Entry.Starves
    decide
  have hstarved : Entry.FirstStarved 0 es "*" :=
    ⟨sum.postorder id, .binary (.apply .mul), [.unary .neg], rfl, rfl, hstarves, hfed⟩
  exact ⟨he, (ofPostfix_exact "a" .scene "x+-2" {}).1 t e he, hread, hstarved,
    (((ofPostfix_exact "a" .scene "-(x+y)*" {}).2 es hread).2.2.1 "*").2 hstarved⟩

end Expr
end Gamebook
