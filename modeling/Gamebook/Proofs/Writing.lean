/-
# How formulas are written

`Grammar.Writes` says which tokens write a tree.  A place in a formula demands
something of a binary operator that stands there without parentheses
(`Demand`): nothing at the outside and inside parentheses, a precedence at
least as high as that of the operator around it on the side where that operator
associates and a higher one on the other side, and the operand of a unary
operator is no binary operator at all.  Anything may stand in parentheses, also
where none are demanded.

The stack of `Grammar.arrange` then never mixes up two formulas.  What follows
a formula releases its operators and no others (`Grammar.Follows`), and what
waits below a formula outlasts the operators of the formula
(`Grammar.Outlasts`).  So the tokens of a tree leave its postorder
(`Grammar.arrange_of_writes`), for every table in which unary operators bind
tightest and operators of one precedence associate to one side.
-/

import Gamebook.Proofs.Tree

namespace Gamebook

/-- What a place demands of a binary operator that stands there bare. -/
inductive Demand where
  | anything
  | atLeast (precedence : Int)
  | operand
  deriving Repr, DecidableEq

/-- Whether an operator of a precedence may stand bare in a place. -/
def Demand.Admits : Demand → Int → Prop
  | anything, _ => True
  | atLeast q, p => q ≤ p
  | operand, _ => False

/-- The outside of a formula admits every operator. -/
theorem Demand.admits_anything (p : Int) : Demand.anything.Admits p := trivial

/-- A place that admits an operator admits all that bind tighter. -/
theorem Demand.Admits.mono {d : Demand} {p q : Int} (h : d.Admits p) (hpq : p ≤ q) :
    d.Admits q := by
  cases d with
  | anything => trivial
  | atLeast r => exact Int.le_trans h hpq
  | operand => exact h

namespace Operator

variable {α : Type}

/-- What an operator demands of its left operand. -/
def leftDemand (op : Operator α) : Demand :=
  .atLeast (if op.rightAssociative then op.precedence + 1 else op.precedence)

/-- What an operator demands of its right operand. -/
def rightDemand (op : Operator α) : Demand :=
  .atLeast (if op.rightAssociative then op.precedence else op.precedence + 1)

/-- On its left an operator admits nothing that binds less tight. -/
theorem le_of_leftDemand {op : Operator α} {p : Int} (h : op.leftDemand.Admits p) :
    op.precedence ≤ p := by
  have h : (if op.rightAssociative then op.precedence + 1 else op.precedence) ≤ p := h
  split at h <;> omega

/-- On its right an operator admits nothing that binds less tight. -/
theorem le_of_rightDemand {op : Operator α} {p : Int} (h : op.rightDemand.Admits p) :
    op.precedence ≤ p := by
  have h : (if op.rightAssociative then op.precedence else op.precedence + 1) ≤ p := h
  split at h <;> omega

end Operator

/-- Whether all operators of a tree stand in the tables of a grammar. -/
def Tree.Over {ω α β : Type} (g : Grammar α β) : Tree ω α β → Prop
  | leaf _ => True
  | unary op t => (∃ s o, g.unary.lookup s = some o ∧ o.meaning = op) ∧ t.Over g
  | binary op l r =>
    (∃ s o, g.binary.lookup s = some o ∧ o.meaning = op) ∧ l.Over g ∧ r.Over g

namespace Grammar

variable {α β ω : Type}

/-- Tokens that write a tree in a place of a formula. -/
inductive Writes (g : Grammar α β) (spell : ω → Operand) :
    Demand → Tree ω α β → List Token → Prop
  | leaf (d : Demand) (o : ω) : Writes g spell d (.leaf o) [.operand (spell o)]
  | group (d : Demand) {t : Tree ω α β} {ts : List Token} (h : Writes g spell .anything t ts) :
      Writes g spell d t (.opening :: (ts ++ [.closing]))
  | unary (d : Demand) {s : String} {op : Operator α} {t : Tree ω α β} {ts : List Token}
      (hop : g.unary.lookup s = some op) (h : Writes g spell .operand t ts) :
      Writes g spell d (.unary op.meaning t) (.operator s :: ts)
  | binary {d : Demand} {s : String} {op : Operator β} {l r : Tree ω α β} {tl tr : List Token}
      (hop : g.binary.lookup s = some op) (hd : d.Admits op.precedence)
      (hl : Writes g spell op.leftDemand l tl) (hr : Writes g spell op.rightDemand r tr) :
      Writes g spell d (.binary op.meaning l r) (tl ++ .operator s :: tr)

/-- **Every tree can be written** in every place of a formula. -/
theorem exists_writes {g : Grammar α β} (spell : ω → Operand)
    {t : Tree ω α β} (ht : t.Over g) (d : Demand) : ∃ ts, g.Writes spell d t ts := by
  induction t generalizing d with
  | leaf o => exact ⟨_, .leaf d o⟩
  | unary op t ih =>
    obtain ⟨⟨s, o, hs, rfl⟩, ht⟩ := ht
    obtain ⟨ts, h⟩ := ih ht .operand
    exact ⟨_, .unary d hs h⟩
  | binary op l r ihl ihr =>
    obtain ⟨⟨s, o, hs, rfl⟩, hl, hr⟩ := ht
    obtain ⟨tl, hl⟩ := ihl hl o.leftDemand
    obtain ⟨tr, hr⟩ := ihr hr o.rightDemand
    exact ⟨_, .group d (.binary hs (Demand.admits_anything _) hl hr)⟩

/-- Unary operators bind tighter than binary ones, and binary operators of one
precedence associate to one side. -/
structure Ranked (g : Grammar α β) : Prop where
  unary_tighter : ∀ u ∈ g.unary, ∀ b ∈ g.binary, b.2.precedence < u.2.precedence
  same_side : ∀ a ∈ g.binary, ∀ b ∈ g.binary, a.2.precedence = b.2.precedence →
    a.2.rightAssociative = b.2.rightAssociative

/-- An operator that is found stands in the table. -/
theorem mem_of_lookup {γ : Type} {table : List (String × γ)} {s : String} {x : γ}
    (h : table.lookup s = some x) : (s, x) ∈ table := by
  obtain ⟨before, behind, rfl, -⟩ := List.lookup_eq_some_iff.1 h
  exact List.mem_append_right _ (List.mem_cons_self ..)

/-- An operator releases those that bind tighter, and those that bind as tight
if it associates to the left. -/
theorem outbids_iff (op : Operator β) (p : Int) :
    Pending.precedes.outbids op p = true ↔
      op.precedence < p ∨ p = op.precedence ∧ op.rightAssociative = false := by
  simp [Pending.precedes.outbids]

/-- An operator releases what stands on its left. -/
theorem outbids_of_leftDemand {op : Operator β} {p : Int} (h : op.leftDemand.Admits p) :
    Pending.precedes.outbids op p = true := by
  have h : (if op.rightAssociative then op.precedence + 1 else op.precedence) ≤ p := h
  rw [outbids_iff]
  cases hside : op.rightAssociative with
  | true =>
    simp only [hside, if_true] at h
    omega
  | false =>
    simp only [hside, Bool.false_eq_true, if_false] at h
    exact (Int.lt_or_eq_of_le h).imp id fun he => ⟨he.symm, rfl⟩

/-- An operator is not released by what stands on its right. -/
theorem not_outbids_of_rightDemand {g : Grammar α β} (hg : g.Ranked) {s s' : String}
    {op op' : Operator β} (hop : g.binary.lookup s = some op)
    (hop' : g.binary.lookup s' = some op') (h : op.rightDemand.Admits op'.precedence) :
    Pending.precedes.outbids op' op.precedence = false := by
  have h : (if op.rightAssociative then op.precedence else op.precedence + 1) ≤ op'.precedence := h
  have hside := hg.same_side _ (mem_of_lookup hop) _ (mem_of_lookup hop')
  rw [Bool.eq_false_iff, ne_eq, outbids_iff]
  rintro (hlt | ⟨heq, hleft⟩)
  · split at h <;> omega
  · have := hside heq
    simp only at this
    rw [this, hleft] at h
    simp only [Bool.false_eq_true, if_false] at h
    omega

/-- What may follow a formula in a place: nothing, a closing parenthesis, or a
binary operator that releases all that the place admits. -/
inductive Follows (g : Grammar α β) (d : Demand) : List Token → Prop
  | nil : Follows g d []
  | closing (ts : List Token) : Follows g d (.closing :: ts)
  | operator {s : String} {op : Operator β} (hop : g.binary.lookup s = some op)
      (h : ∀ p, d.Admits p → Pending.precedes.outbids op p = true) (ts : List Token) :
      Follows g d (.operator s :: ts)

/-- What waits on top of a stack is not released by an operator that a place
admits. -/
def Outlasts (g : Grammar α β) (d : Demand) (stack : List (Pending α β)) : Prop :=
  ∀ s op, g.binary.lookup s = some op → d.Admits op.precedence →
    ∀ p ∈ stack.head?, Pending.precedes op p = false

variable {g : Grammar α β} {d d' : Demand} {rest : List Token} {stack : List (Pending α β)}

/-- What follows a demand follows every demand that admits no more. -/
theorem Follows.mono (h : g.Follows d rest) (hd : ∀ p, d'.Admits p → d.Admits p) :
    g.Follows d' rest := by
  cases h with
  | nil => exact .nil
  | closing ts => exact .closing ts
  | operator hop h ts => exact .operator hop (fun p hp => h p (hd p hp)) ts

/-- What releases a waiting operator. -/
inductive Releases (g : Grammar α β) (p : Pending α β) : List Token → Prop
  | nil : Releases g p []
  | closing (ts : List Token) : Releases g p (.closing :: ts)
  | operator {s : String} {op : Operator β} (hop : g.binary.lookup s = some op)
      (h : Pending.precedes op p = true) (ts : List Token) : Releases g p (.operator s :: ts)

/-- What follows a formula releases a binary operator that the place admits. -/
theorem Follows.releases_binary {op : Operator β} (h : g.Follows d rest)
    (hd : d.Admits op.precedence) : g.Releases (.binary op) rest := by
  cases h with
  | nil => exact .nil
  | closing ts => exact .closing ts
  | operator hop h ts => exact .operator (p := .binary op) hop (h op.precedence hd) ts

/-- What follows a formula releases a unary operator. -/
theorem Follows.releases_unary (hg : g.Ranked) {s : String} {u : Operator α}
    (hu : g.unary.lookup s = some u) (h : g.Follows d rest) : g.Releases (.unary u) rest := by
  cases h with
  | nil => exact .nil
  | closing ts => exact .closing ts
  | @operator s op hop h ts =>
    have hlt := hg.unary_tighter _ (mem_of_lookup hu) _ (mem_of_lookup hop)
    have hout : Pending.precedes.outbids op u.precedence = true := (outbids_iff _ _).2 (.inl hlt)
    exact .operator (p := .unary u) hop hout ts

/-- A released operator goes through before all else. -/
theorem arrange_of_releases {p : Pending α β} {e : Entry α β} (he : p.entry? = some e)
    (h : g.Releases p rest) :
    g.arrange rest (p :: stack) false = (e :: ·) <$> g.arrange rest stack false := by
  have hp : p.isOperator = true := by
    cases p with
    | opening => simp [Pending.entry?] at he
    | unary op => rfl
    | binary op => rfl
  cases h with
  | nil => simp only [arrange, release, he, bind_pure_comp]
  | closing ts =>
    simp only [arrange, List.dropWhile_cons, List.takeWhile_cons, hp, if_true,
      List.filterMap_cons, he, bind_pure_comp]
    cases stack.dropWhile Pending.isOperator with
    | nil => rfl
    | cons q below =>
      simp only [Functor.map_map]
      rfl
  | operator hop hprec ts =>
    simp only [arrange, Bool.false_eq_true, if_false, hop, List.dropWhile_cons,
      List.takeWhile_cons, hprec, if_true, List.filterMap_cons, he, bind_pure_comp,
      Functor.map_map, List.cons_append]

/-- Where nothing is released, an operator waits. -/
theorem arrange_of_outlasts {s : String} {op : Operator β} (hop : g.binary.lookup s = some op)
    (hd : d.Admits op.precedence) (h : g.Outlasts d stack) (ts : List Token) :
    g.arrange (.operator s :: ts) stack false = g.arrange ts (.binary op :: stack) true := by
  have hstack : stack.dropWhile (Pending.precedes op) = stack ∧
      stack.takeWhile (Pending.precedes op) = [] := by
    cases stack with
    | nil => exact ⟨rfl, rfl⟩
    | cons p below =>
      have hp := h s op hop hd p rfl
      simp only [List.dropWhile_cons, List.takeWhile_cons, hp, Bool.false_eq_true, if_false,
        and_self]
  simp only [arrange, Bool.false_eq_true, if_false, hop, hstack, List.filterMap_nil,
    List.nil_append, bind_pure]

/-- **The stack keeps formulas apart.**  Whatever waits below and whatever
follows, the tokens of a tree leave its postorder and nothing else. -/
theorem arrange_of_writes (hg : g.Ranked) {spell : ω → Operand} {t : Tree ω α β}
    {ts : List Token} (h : g.Writes spell d t ts) : ∀ (rest : List Token)
      (stack : List (Pending α β)), g.Follows d rest → g.Outlasts d stack →
        g.arrange (ts ++ rest) stack true =
          (t.postorder spell ++ ·) <$> g.arrange rest stack false := by
  induction h with
  | leaf d o =>
    intro rest stack _ _
    simp only [Tree.postorder, List.cons_append, List.nil_append, arrange, bind_pure_comp]
  | @group d t ts h ih =>
    intro rest stack _ _
    have hopen : g.Outlasts .anything (.opening :: stack) := by
      rintro s op - - p hp
      obtain rfl : p = .opening := by simpa using hp.symm
      rfl
    have hin := ih (.closing :: rest) (.opening :: stack) (.closing rest) hopen
    simp only [List.cons_append, List.append_assoc, List.nil_append, arrange]
    rw [hin]
    simp [arrange, Pending.isOperator]
  | @unary d s op t ts hop h ih =>
    intro rest stack hf _
    have hbelow : g.Outlasts .operand (.unary op :: stack) := fun _ _ _ hd => hd.elim
    have hin := ih rest (.unary op :: stack) (hf.mono fun _ hp => hp.elim) hbelow
    simp only [List.cons_append, arrange, if_true, hop]
    rw [hin, arrange_of_releases rfl (hf.releases_unary hg hop)]
    simp only [Tree.postorder, Functor.map_map, List.append_assoc, List.cons_append,
      List.nil_append]
  | @binary d s op l r tl tr hop hd hl hr ihl ihr =>
    intro rest stack hf hs
    -- the operator releases all of `l`, and nothing that waits below `l`
    have hfl : g.Follows op.leftDemand (.operator s :: (tr ++ rest)) :=
      .operator hop (fun p hp => outbids_of_leftDemand hp) _
    have hsl : g.Outlasts op.leftDemand stack := fun s' op' hop' hd' =>
      hs s' op' hop' (hd.mono (Operator.le_of_leftDemand hd'))
    -- then it waits below `r`, until what follows releases it
    have hfr : g.Follows op.rightDemand rest :=
      hf.mono fun p hp => hd.mono (Operator.le_of_rightDemand hp)
    have hsr : g.Outlasts op.rightDemand (.binary op :: stack) := by
      rintro s' op' hop' hd' p hp
      obtain rfl : p = .binary op := by simpa using hp.symm
      exact not_outbids_of_rightDemand hg hop hop' hd'
    rw [List.append_assoc, List.cons_append, ihl _ stack hfl hsl, arrange_of_outlasts hop hd hs,
      ihr rest _ hfr hsr, arrange_of_releases rfl (hf.releases_binary hd)]
    simp only [Tree.postorder, Functor.map_map, List.append_assoc, List.cons_append,
      List.nil_append]

/-- **Written trees are read back.**  The tokens of a tree are brought into the
postorder of the tree. -/
theorem ofTokens_of_writes (hg : g.Ranked) {spell : ω → Operand} {t : Tree ω α β}
    {ts : List Token} (h : g.Writes spell d t ts) : g.ofTokens ts = .ok (t.postorder spell) := by
  have hrun := arrange_of_writes hg h [] [] .nil fun _ _ _ _ p hp => by simp at hp
  rw [List.append_nil] at hrun
  rw [ofTokens, hrun]
  exact congrArg _ (List.append_nil _)

/-- Tokens with a postfix order are brought into it. -/
theorem order_eq {place : Place} {source : String}
    {ts : List Token} {es : List (Entry α β)} (h : g.ofTokens ts = .ok es) :
    g.order place source ts = pure es := by
  rw [order, h]

end Grammar
end Gamebook
