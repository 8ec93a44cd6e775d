/-
# What postfix order keeps

Bringing tokens into postfix order loses and adds nothing but parentheses.  Whatever waits on
the stack is released at some time, so the operators of the tokens are those of the entries
and those that wait (`Grammar.arrange_perm`), and operands never wait, so they stay in their
order (`Grammar.operands_of_arrange`).

The parentheses are all that tokens can be refused for if every operator of theirs is a binary
one.  As many opening parentheses wait as have not been closed, so the tokens have an order
exactly where no beginning of them closes more parentheses than it opens and all of them
together close as many (`Token.Closes`, `Grammar.arrange_settles`).

For expressions all this says which entries there are, and that there are no others
(`Arithmetic.order_conserves`).
-/

import Gamebook.Proofs.Forests

namespace Gamebook

/-! ## Parentheses -/

namespace Token

/-- Tokens close `depth` parentheses more than they open, and no beginning of them closes more
than that. -/
structure Closes (depth : Nat) (ts : List Token) : Prop where
  count_eq : ts.count closing = ts.count opening + depth
  count_le : ∀ front, front <+: ts → front.count closing ≤ front.count opening + depth

/-- Tokens close as many parentheses as they open, and no beginning of them closes more. -/
abbrev Balanced (ts : List Token) : Prop := Closes 0 ts

variable {depth : Nat} {t : Token} {ts : List Token}

/-- No tokens close no parenthesis. -/
theorem closes_nil_iff : Closes depth [] ↔ depth = 0 := by
  constructor
  · intro h
    simpa using h.count_eq.symm
  · rintro rfl
    exact ⟨rfl, fun front h => by simp [List.prefix_nil.1 h]⟩

/-- What a beginning of tokens has is seen at the first one and in those behind it. -/
theorem forall_prefix_cons_iff {P : List Token → Prop} :
    (∀ front, front <+: t :: ts → P front) ↔ P [] ∧ ∀ front, front <+: ts → P (t :: front) := by
  simp only [List.prefix_cons_iff]
  constructor
  · exact fun h => ⟨h [] (.inl rfl), fun front hfront => h _ (.inr ⟨front, rfl, hfront⟩)⟩
  · rintro ⟨hnil, hcons⟩ front (rfl | ⟨front, rfl, hfront⟩)
    · exact hnil
    · exact hcons front hfront

/-- What the first token opens and closes is taken off the depth behind it. -/
theorem closes_cons_iff {depth' : Nat} (opens closes : Nat)
    (hopens : ∀ us, (t :: us).count opening = us.count opening + opens)
    (hcloses : ∀ us, (t :: us).count closing = us.count closing + closes)
    (h : depth + opens = depth' + closes) : Closes depth (t :: ts) ↔ Closes depth' ts := by
  have shift (us : List Token) :
      ((t :: us).count closing ≤ (t :: us).count opening + depth ↔
        us.count closing ≤ us.count opening + depth') ∧
      ((t :: us).count closing = (t :: us).count opening + depth ↔
        us.count closing = us.count opening + depth') := by
    rw [hopens, hcloses]
    omega
  constructor
  · rintro ⟨heq, hle⟩
    exact ⟨(shift ts).2.1 heq, fun front hfront =>
      (shift front).1.1 ((forall_prefix_cons_iff.1 hle).2 front hfront)⟩
  · rintro ⟨heq, hle⟩
    refine ⟨(shift ts).2.2 heq, forall_prefix_cons_iff.2 ⟨Nat.zero_le _, fun front hfront => ?_⟩⟩
    exact (shift front).1.2 (hle front hfront)

/-- Behind an opening parenthesis, one more has to be closed than in front of it. -/
theorem closes_opening_iff : Closes depth (opening :: ts) ↔ Closes (depth + 1) ts :=
  closes_cons_iff 1 0 (fun us => by simp) (fun us => by simp) rfl

/-- Behind a closing parenthesis, one less has to be closed than in front of it. -/
theorem closes_closing_iff : Closes (depth + 1) (closing :: ts) ↔ Closes depth ts :=
  closes_cons_iff 0 1 (fun us => by simp) (fun us => by simp) rfl

/-- No closing parenthesis comes first where none is open. -/
theorem not_closes_closing : ¬Closes 0 (closing :: ts) := by
  intro h
  have hle := h.count_le [closing] (List.cons_prefix_cons.2 ⟨rfl, List.nil_prefix⟩)
  exact absurd hle (by decide)

/-- An operand leaves the parentheses alone. -/
theorem closes_operand_iff {o : Operand} : Closes depth (operand o :: ts) ↔ Closes depth ts :=
  closes_cons_iff 0 0 (fun us => by simp) (fun us => by simp) rfl

/-- An operator leaves the parentheses alone. -/
theorem closes_operator_iff {s : String} : Closes depth (operator s :: ts) ↔ Closes depth ts :=
  closes_cons_iff 0 0 (fun us => by simp) (fun us => by simp) rfl

end Token

namespace Pending

variable {α β : Type}

/-- Where no parenthesis waits, nothing but operators does. -/
theorem dropWhile_isOperator_eq_nil {stack : List (Pending α β)} (h : openings stack = 0) :
    stack.dropWhile isOperator = [] := by
  induction stack with
  | nil => rfl
  | cons p stack ih =>
    cases p with
    | opening => exact absurd h (by simp [openings])
    | unary op => exact ih h
    | binary op => exact ih h

/-- What waits is released down to a parenthesis, or waits below it. -/
theorem filterMap_entry?_eq {stack below : List (Pending α β)} {p : Pending α β}
    (h : stack.dropWhile isOperator = p :: below) :
    stack.filterMap entry? =
      (stack.takeWhile isOperator).filterMap entry? ++ below.filterMap entry? := by
  have hp : p.entry? = none := by
    have hhead := List.head?_dropWhile_not isOperator stack
    rw [h] at hhead
    cases p with
    | opening => rfl
    | unary | binary => contradiction
  have hbelow : below.filterMap entry? = (p :: below).filterMap entry? :=
    (List.filterMap_cons_none hp).symm
  rw [hbelow, ← h, ← List.filterMap_append, List.takeWhile_append_dropWhile]

end Pending

namespace Grammar

variable {α β : Type} {g : Grammar α β}

/-- Every operator of the tokens can be a binary one. -/
def Knows (g : Grammar α β) (ts : List Token) : Prop :=
  ∀ s, Token.operator s ∈ ts → (g.binary.lookup s).isSome = true

/-- There is a result where a condition holds, and mismatched parentheses where it does not. -/
def Settles {γ : Type} (condition : Prop) (r : Except Disorder γ) : Prop :=
  (condition → ∃ x, r = .ok x) ∧ (¬condition → r = .error .mismatched)

/-- What settles a condition settles every equivalent one. -/
theorem Settles.congr {γ : Type} {p q : Prop} {r : Except Disorder γ} (h : Settles q r)
    (hpq : p ↔ q) : Settles p r :=
  ⟨fun hp => h.1 (hpq.1 hp), fun hp => h.2 fun hq => hp (hpq.2 hq)⟩

/-- What is done with a result changes nothing about whether there is one. -/
theorem Settles.bind_pure {γ δ : Type} {p : Prop} {r : Except Disorder γ} (h : Settles p r)
    (f : γ → δ) : Settles p (r >>= fun x => pure (f x)) := by
  constructor
  · intro hp
    obtain ⟨x, rfl⟩ := h.1 hp
    exact ⟨f x, rfl⟩
  · intro hp
    rw [h.2 hp]
    rfl

/-- In the end no parenthesis may wait. -/
theorem release_settles (stack : List (Pending α β)) :
    Settles (Pending.openings stack = 0) (release stack) := by
  induction stack with
  | nil => exact ⟨fun _ => ⟨[], rfl⟩, fun h => absurd rfl h⟩
  | cons p stack ih =>
    cases p with
    | opening => exact ⟨fun h => absurd h (Nat.succ_ne_zero _), fun _ => rfl⟩
    | unary op => exact ih.bind_pure _
    | binary op => exact ih.bind_pure _

/-- **Tokens are refused for their parentheses only.**  As many parentheses wait as tokens have
to close. -/
theorem arrange_settles {ts : List Token} (hts : g.Knows ts) (stack : List (Pending α β))
    (expecting : Bool) :
    Settles (Token.Closes (Pending.openings stack) ts) (g.arrange ts stack expecting) := by
  induction ts generalizing stack expecting with
  | nil => exact (release_settles stack).congr Token.closes_nil_iff
  | cons t ts ih =>
    have hrest : g.Knows ts := fun s hs => hts s (List.mem_cons_of_mem _ hs)
    cases t with
    | operand o => exact ((ih hrest stack false).bind_pure _).congr Token.closes_operand_iff
    | opening => exact (ih hrest (.opening :: stack) true).congr Token.closes_opening_iff
    | closing =>
      rw [arrange]
      cases hdepth : Pending.openings stack with
      | zero =>
        rw [Pending.dropWhile_isOperator_eq_nil hdepth]
        exact ⟨fun h => absurd h Token.not_closes_closing, fun _ => rfl⟩
      | succ depth =>
        obtain ⟨below, hbelow, rfl⟩ := Pending.exists_dropWhile_isOperator hdepth
        rw [hbelow]
        exact ((ih hrest below false).bind_pure _).congr Token.closes_closing_iff
    | operator s =>
      rw [arrange]
      split
      · rename_i op _
        exact (ih hrest (.unary op :: stack) true).congr Token.closes_operator_iff
      · obtain ⟨op, hop⟩ := Option.isSome_iff_exists.1 (hts s (List.mem_cons_self ..))
        rw [hop]
        have hopen : Pending.openings (.binary op :: stack.dropWhile (Pending.precedes op)) =
            Pending.openings stack := Pending.openings_dropWhile rfl stack
        rw [← hopen]
        exact ((ih hrest (.binary op :: stack.dropWhile _) true).bind_pure _).congr
          Token.closes_operator_iff

end Grammar

/-! ## Operands and operators -/

namespace Token

/-- The operand that a token is. -/
def operand? : Token → Option Operand
  | operand o => some o
  | _ => none

/-- Whether an operand is expected behind a token, there being none in front of the first. -/
def expectsBehind : Option Token → Bool
  | none | some opening | some (operator _) => true
  | some (operand _) | some closing => false

/-- The operators of tokens behind another one, each with how many operands it takes: a sign
takes one where an operand is expected, and all others take two. -/
def uses (isSign : String → Bool) : Option Token → List Token → List (String × Nat)
  | _, [] => []
  | before, operator s :: ts =>
    (s, if expectsBehind before && isSign s then 1 else 2) :: uses isSign (some (operator s)) ts
  | _, t :: ts => uses isSign (some t) ts

end Token

namespace Entry

variable {α β : Type}

/-- The operand that an entry is. -/
def operand? : Entry α β → Option Operand
  | operand o => some o
  | _ => none

/-- The operators of entries. -/
def operators (es : List (Entry α β)) : List (Entry α β) := es.filter fun e => !e.isOperand

/-- The symbol of an operator, with how many operands it takes. -/
def use? (e : Entry UnaryOp InfixOp) : Option (String × Nat) := e.symbol?.map fun s => (s, e.takes)

/-- The operators of some entries come before those of the entries behind them. -/
theorem operators_append (es es' : List (Entry α β)) :
    operators (es ++ es') = operators es ++ operators es' := List.filter_append ..

/-- Nothing but operators waits on a stack. -/
theorem operators_released (stack : List (Pending α β)) :
    operators (stack.filterMap Pending.entry?) = stack.filterMap Pending.entry? := by
  refine List.filter_eq_self.2 fun e he => ?_
  cases e with
  | operand o => exact absurd he (Grammar.operand_not_mem_released o stack)
  | unary | binary => rfl

/-- No operand waits on a stack. -/
theorem filterMap_operand?_released (stack : List (Pending α β)) :
    (stack.filterMap Pending.entry?).filterMap operand? = [] := by
  rw [List.filterMap_eq_nil_iff]
  intro e he
  cases e with
  | operand o => exact absurd he (Grammar.operand_not_mem_released o stack)
  | unary | binary => rfl

/-- What is read of operators is read of the operators of entries. -/
theorem filterMap_use?_operators (es : List (Entry UnaryOp InfixOp)) :
    (operators es).filterMap use? = es.filterMap use? := by
  induction es with
  | nil => rfl
  | cons e es ih =>
    cases e with
    | operand o => exact ih
    | unary op => exact congrArg ((op.symbol, 1) :: ·) ih
    | binary op => exact congrArg ((op.symbol, 2) :: ·) ih

/-- Entries are operands and operators. -/
theorem length_eq (es : List (Entry UnaryOp InfixOp)) :
    es.length = (es.filterMap operand?).length + (es.filterMap use?).length := by
  induction es with
  | nil => rfl
  | cons e es ih =>
    cases e <;> simp only [List.length_cons, List.filterMap_cons, operand?, use?, symbol?,
      Option.map_none, Option.map_some, ih] <;> omega

end Entry

/-- Tokens are operands, operators and parentheses. -/
theorem Token.length_eq (isSign : String → Bool) (before : Option Token) (ts : List Token) :
    ts.length = (ts.filterMap operand?).length + (uses isSign before ts).length +
      ts.count opening + ts.count closing := by
  induction ts generalizing before with
  | nil => rfl
  | cons t ts ih =>
    have hlen := ih (some t)
    cases t <;> simp only [List.length_cons, List.filterMap_cons, operand?, uses] <;>
      simp <;> omega

namespace Grammar

variable {α β : Type} {g : Grammar α β}

/-- The entry that an operator becomes, in a place where an operand is expected or not. -/
def role? (g : Grammar α β) (expecting : Bool) (s : String) : Option (Entry α β) :=
  match if expecting then g.unary.lookup s else none with
  | some op => some (.unary op.meaning)
  | none => (g.binary.lookup s).map fun op => .binary op.meaning

/-- The entries that the operators of tokens become behind another token. -/
def roles (g : Grammar α β) : Option Token → List Token → List (Entry α β)
  | _, [] => []
  | before, .operator s :: ts =>
    (g.role? (Token.expectsBehind before) s).toList ++ g.roles (some (.operator s)) ts
  | _, t :: ts => g.roles (some t) ts

/-- **Operands stay in their order.** -/
theorem operands_of_arrange {ts : List Token} {stack : List (Pending α β)} {expecting : Bool}
    {es : List (Entry α β)} (h : g.arrange ts stack expecting = .ok es) :
    es.filterMap Entry.operand? = ts.filterMap Token.operand? := by
  induction ts generalizing stack expecting es with
  | nil =>
    obtain ⟨-, rfl⟩ := of_release_eq_ok h
    exact Entry.filterMap_operand?_released stack
  | cons t ts ih =>
    cases t with
    | operand o =>
      obtain ⟨rest, hrest, h⟩ := exists_of_bind_eq_ok h
      obtain rfl := Except.ok.inj h
      exact congrArg (o :: ·) (ih hrest)
    | opening => exact ih h
    | closing =>
      rw [arrange] at h
      split at h
      · contradiction
      · obtain ⟨rest, hrest, h⟩ := exists_of_bind_eq_ok h
        obtain rfl := Except.ok.inj h
        rw [List.filterMap_append, Entry.filterMap_operand?_released]
        exact ih hrest
    | operator s =>
      rw [arrange] at h
      split at h
      · exact ih h
      · split at h
        · contradiction
        · obtain ⟨rest, hrest, h⟩ := exists_of_bind_eq_ok h
          obtain rfl := Except.ok.inj h
          rw [List.filterMap_append, Entry.filterMap_operand?_released]
          exact ih hrest

/-- **No operator is lost and none is added.**  The operators of the entries are those that
wait and those of the tokens, in some order. -/
theorem arrange_perm {ts : List Token} {stack : List (Pending α β)} {before : Option Token}
    {es : List (Entry α β)} (h : g.arrange ts stack (Token.expectsBehind before) = .ok es) :
    (Entry.operators es).Perm (stack.filterMap Pending.entry? ++ g.roles before ts) := by
  induction ts generalizing stack before es with
  | nil =>
    obtain ⟨-, rfl⟩ := of_release_eq_ok h
    rw [Entry.operators_released, roles, List.append_nil]
  | cons t ts ih =>
    cases t with
    | operand o =>
      obtain ⟨rest, hrest, h⟩ := exists_of_bind_eq_ok h
      obtain rfl := Except.ok.inj h
      have hrest : g.arrange ts stack (Token.expectsBehind (some (.operand o))) = .ok rest := hrest
      have hperm := ih hrest
      exact hperm
    | opening =>
      have h : g.arrange ts (.opening :: stack) (Token.expectsBehind (some .opening)) = .ok es := h
      have hperm := ih h
      exact hperm
    | closing =>
      rw [arrange] at h
      split at h
      · contradiction
      · rename_i p below hbelow
        obtain ⟨rest, hrest, h⟩ := exists_of_bind_eq_ok h
        obtain rfl := Except.ok.inj h
        have hrest : g.arrange ts below (Token.expectsBehind (some .closing)) = .ok rest := hrest
        have hperm := ih hrest
        rw [Entry.operators_append, Entry.operators_released, Pending.filterMap_entry?_eq hbelow,
          List.append_assoc]
        exact hperm.append_left _
    | operator s =>
      rw [arrange] at h
      split at h
      · rename_i op hop
        have h : g.arrange ts (.unary op :: stack)
            (Token.expectsBehind (some (.operator s))) = .ok es := h
        have hrole : g.role? (Token.expectsBehind before) s = some (.unary op.meaning) := by
          rw [role?, hop]
        rw [roles, hrole]
        exact (ih h).trans List.perm_middle.symm
      · rename_i hnone
        split at h
        · contradiction
        · rename_i op hop
          obtain ⟨rest, hrest, h⟩ := exists_of_bind_eq_ok h
          obtain rfl := Except.ok.inj h
          have hrest : g.arrange ts (.binary op :: stack.dropWhile (Pending.precedes op))
              (Token.expectsBehind (some (.operator s))) = .ok rest := hrest
          have hrole : g.role? (Token.expectsBehind before) s = some (.binary op.meaning) := by
            rw [role?, hnone, hop]
            rfl
          -- what is released at once and what still waits are what waited before
          have hstack : stack.filterMap Pending.entry? =
              (stack.takeWhile (Pending.precedes op)).filterMap Pending.entry? ++
                (stack.dropWhile (Pending.precedes op)).filterMap Pending.entry? := by
            rw [← List.filterMap_append, List.takeWhile_append_dropWhile]
          rw [Entry.operators_append, Entry.operators_released, roles, hrole, hstack,
            List.append_assoc]
          exact ((ih hrest).trans List.perm_middle.symm).append_left _

end Grammar

namespace Arithmetic

variable {ts : List Token}

/-- Whether a symbol is a sign. -/
def isSign (s : String) : Bool := s == "-" || s == "+"

/-- Tokens whose operators are those of expressions. -/
def Over (ts : List Token) : Prop := ∀ s, Token.operator s ∈ ts → s ∈ alphabet.symbols

/-- All operators of expressions can be binary ones. -/
theorem Over.knows (h : Over ts) : grammar.Knows ts := by
  have hall : ∀ s ∈ alphabet.symbols, (grammar.binary.lookup s).isSome = true := by decide
  exact fun s hs => hall s (h s hs)

/-- Operators of expressions become unary ones where they are signs and an operand is expected,
and binary ones elsewhere. -/
theorem filterMap_use?_roles (h : Over ts) (before : Option Token) :
    (grammar.roles before ts).filterMap Entry.use? = Token.uses isSign before ts := by
  have hrole : ∀ s ∈ alphabet.symbols, ∀ expecting : Bool,
      (grammar.role? expecting s).toList.filterMap Entry.use? =
        [(s, if expecting && isSign s then 1 else 2)] := by decide
  induction ts generalizing before with
  | nil => rfl
  | cons t ts ih =>
    have hrest : Over ts := fun s hs => h s (List.mem_cons_of_mem _ hs)
    cases t with
    | operator s =>
      rw [Grammar.roles, Token.uses, List.filterMap_append, hrole s (h s (List.mem_cons_self ..)),
        ih hrest]
      rfl
    | operand | opening | closing => exact ih hrest _

/-- **Expressions are brought into order where their parentheses match, and nothing gets lost.**
Tokens over the operators of expressions have an order exactly if they are balanced, and
otherwise their parentheses are refused.  The entries of the order are the operands of the tokens
in their order, and their operators in some order, with their symbols: signs with one operand
where one was expected, all others with two.  There are no other entries. -/
theorem order_conserves (h : Over ts) (place : Place) (source : String) (c : Context) :
    ((∃ es c', (grammar.order place source ts).run c = .ok (es, c')) ↔ Token.Balanced ts) ∧
    (¬Token.Balanced ts → (grammar.order place source ts).run c =
      .error ⟨place, .mismatchedParentheses source, c⟩) ∧
    ∀ es c', (grammar.order place source ts).run c = .ok (es, c') →
      c' = c ∧ es.filterMap Entry.operand? = ts.filterMap Token.operand? ∧
      (es.filterMap Entry.use?).Perm (Token.uses isSign none ts) ∧
      es.length + ts.count .opening + ts.count .closing = ts.length := by
  have hsettles := Grammar.arrange_settles h.knows [] true
  have hok {es : List (Entry UnaryOp InfixOp)} (hes : grammar.ofTokens ts = .ok es) :
      (grammar.order place source ts).run c = .ok (es, c) := by
    rw [Grammar.order, hes]
    rfl
  have hmismatched (hts : ¬Token.Balanced ts) : (grammar.order place source ts).run c =
      .error ⟨place, .mismatchedParentheses source, c⟩ := by
    have herror : grammar.ofTokens ts = .error .mismatched := hsettles.2 hts
    rw [Grammar.order, herror]
    rfl
  have hbalanced {es : List (Entry UnaryOp InfixOp)} {c' : Context}
      (hrun : (grammar.order place source ts).run c = .ok (es, c')) : Token.Balanced ts := by
    refine Classical.byContradiction fun hts => ?_
    rw [hmismatched hts] at hrun
    contradiction
  refine ⟨⟨?_, fun hts => ?_⟩, hmismatched, ?_⟩
  · rintro ⟨es, c', hrun⟩
    exact hbalanced hrun
  · obtain ⟨es, hes⟩ := hsettles.1 hts
    exact ⟨es, c, hok hes⟩
  · intro es c' hrun
    obtain ⟨es', hes⟩ := hsettles.1 (hbalanced hrun)
    obtain ⟨rfl, rfl⟩ := Prod.mk.inj (Except.ok.inj ((hok hes).symm.trans hrun))
    have hes : grammar.arrange ts [] (Token.expectsBehind none) = .ok es' := hes
    have hoperands := Grammar.operands_of_arrange hes
    have hperm : (es'.filterMap Entry.use?).Perm (Token.uses isSign none ts) := by
      have hwaiting := (Grammar.arrange_perm hes).filterMap Entry.use?
      rwa [Entry.filterMap_use?_operators, List.filterMap_nil, List.nil_append,
        filterMap_use?_roles h] at hwaiting
    refine ⟨rfl, hoperands, hperm, ?_⟩
    rw [Entry.length_eq, hoperands, hperm.length_eq, ← Token.length_eq]

/-- Of `-(x+2)*y` the first operator is a sign, and the other two are binary.  The parentheses
of `)x(` are refused. -/
theorem order_conserves_signed :
    let ts : List Token := [.operator "-", .opening, .operand (.word "x"), .operator "+",
      .operand (.number "2"), .closing, .operator "*", .operand (.word "y")]
    let crossed : List Token := [.closing, .operand (.word "x"), .opening]
    Over ts ∧ Over crossed ∧ Token.Balanced ts ∧
      (∃ es, (grammar.order .scene "-(x+2)*y" ts).run {} = .ok (es, {}) ∧
        es.filterMap Entry.operand? = [.word "x", .number "2", .word "y"] ∧
        (es.filterMap Entry.use?).Perm [("-", 1), ("+", 2), ("*", 2)]) ∧
      (grammar.order .scene ")x(" crossed).run {} =
        .error ⟨.scene, .mismatchedParentheses ")x(", {}⟩ := by
  intro ts crossed
  have hts : Over ts := by
    intro s hs
    obtain rfl | rfl | rfl : s = "-" ∨ s = "+" ∨ s = "*" := by simpa [ts] using hs
    all_goals decide
  have hcrossed : Over crossed := fun s hs => by simp [crossed] at hs
  obtain ⟨hiff, -, hkept⟩ := order_conserves hts .scene "-(x+2)*y" {}
  have hrun : ∃ es c', (grammar.order .scene "-(x+2)*y" ts).run {} = .ok (es, c') := ⟨_, _, rfl⟩
  have hopen : ¬Token.Balanced crossed := fun h => absurd h Token.not_closes_closing
  obtain ⟨es, c', hes⟩ := hrun
  obtain ⟨rfl, hoperands, huses, -⟩ := hkept es c' hes
  exact ⟨hts, hcrossed, hiff.1 ⟨es, _, hes⟩, ⟨es, hes, hoperands, huses⟩,
    (order_conserves hcrossed .scene ")x(" {}).2.1 hopen⟩

end Arithmetic
end Gamebook
