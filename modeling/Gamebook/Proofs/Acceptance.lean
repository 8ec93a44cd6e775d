/-
# What is accepted

A formula is compiled when its text can be cut into tokens, the tokens can be
brought into postfix order, the order counts out, and all names can be read
(`Arithmetic.accepts_iff`); the ranges of a condition are replaced before, and its
tree has to compare numbers only (`Condition.accepts_iff`).

Nothing asks whether the tokens form a sentence.  All sentences count out, but
so do other tokens, such as those of `x(y)+`, and they are accepted as well; of the
tokens that count out the sentences are those in which every token is well placed
(`accepted_iff_counted`).
-/

import Gamebook.Proofs.Lexing
import Gamebook.Proofs.Sentences

namespace Gamebook

namespace Compile

variable {α β : Type} {x : Compile α} {r : Option α} {c : Context}

/-- Whether a computation has a result in a context. -/
def Accepts (x : Compile α) (c : Context) : Prop := ∃ a c', x.run c = .ok (a, c')

/-- A computation has a result, or stops with a diagnostic, whatever the context
is. -/
def Gives (x : Compile α) : Option α → Prop
  | some a => ∀ c, ∃ c', x.run c = .ok (a, c')
  | none => ∀ c, ∃ d, x.run c = .error d

/-- A result is given in every context. -/
theorem gives_pure (a : α) : Gives (pure a : Compile α) (some a) := fun c => ⟨c, rfl⟩

/-- A refusal has no result in any context. -/
theorem gives_fail (place : Place) (cause : Cause) : Gives (fail place cause : Compile α) none :=
  fun c => ⟨⟨place, cause, c⟩, rfl⟩

/-- A refusal where the compiler stands has no result in any context. -/
theorem gives_failHere (cause : Cause) : Gives (failHere cause : Compile α) none :=
  fun c => ⟨⟨c.innermost, cause, c⟩, rfl⟩

/-- What two computations give, one after the other. -/
theorem Gives.bind {f : α → Compile β} {k : α → Option β} (hx : x.Gives r)
    (hf : ∀ a, r = some a → (f a).Gives (k a)) : (x >>= f).Gives (r.bind k) := by
  cases r with
  | none =>
    intro c
    obtain ⟨d, hd⟩ := hx c
    exact ⟨d, run_bind_of_error hd⟩
  | some a =>
    have hfa := hf a rfl
    rw [Option.bind_some]
    cases hk : k a with
    | none =>
      rw [hk] at hfa
      intro c
      obtain ⟨c', hc⟩ := hx c
      obtain ⟨d, hd⟩ := hfa c'
      exact ⟨d, (run_bind_of_ok hc).trans hd⟩
    | some b =>
      rw [hk] at hfa
      intro c
      obtain ⟨c', hc⟩ := hx c
      obtain ⟨c'', hd⟩ := hfa c'
      exact ⟨c'', (run_bind_of_ok hc).trans hd⟩

/-- What a computation gives for each of some items. -/
theorem gives_mapM {ι : Type} {f : ι → Compile α} {g : ι → α} {xs : List ι}
    (h : ∀ x ∈ xs, (f x).Gives (some (g x))) : (xs.mapM f).Gives (some (xs.map g)) := by
  induction xs with
  | nil => exact gives_pure []
  | cons x xs ih =>
    have hrest := ih fun y hy => h y (List.mem_cons_of_mem _ hy)
    rw [List.mapM_cons]
    show Gives _ ((some (g x)).bind fun a => (some (xs.map g)).bind fun as => some (a :: as))
    exact (h x (List.mem_cons_self ..)).bind fun a _ => hrest.bind fun as _ => gives_pure _

/-- What is given does not depend on where the compiler stands. -/
theorem gives_get_bind {f : Context → Compile α} (h : ∀ c, (f c).Gives r) :
    ((get : Compile Context) >>= f).Gives r := by
  have hget (c : Context) : (get : Compile Context).run c = .ok (c, c) := rfl
  cases r with
  | none =>
    intro c
    obtain ⟨d, hd⟩ := h c c
    exact ⟨d, (run_bind_of_ok (hget c)).trans hd⟩
  | some a =>
    intro c
    obtain ⟨c', hc⟩ := h c c
    exact ⟨c', (run_bind_of_ok (hget c)).trans hc⟩

/-- A computation that gives a result accepts, and no other does. -/
theorem Gives.accepts_iff (h : x.Gives r) : x.Accepts c ↔ ∃ a, r = some a := by
  cases r with
  | none =>
    obtain ⟨d, hd⟩ := h c
    constructor
    · rintro ⟨a, c', ha⟩
      rw [hd] at ha
      exact absurd ha (by simp)
    · rintro ⟨a, ha⟩
      exact absurd ha (by simp)
  | some a =>
    obtain ⟨c', hc⟩ := h c
    exact ⟨fun _ => ⟨a, rfl⟩, fun _ => ⟨a, c', hc⟩⟩

end Compile

namespace Expr

/-- The leaf of an operand whose name can be read. -/
def leaf? (scope : String) : Operand → Option Expr
  | .number text => some (number (numeralValue text))
  | .word text => (Identifier.ofText? scope text).map .variable

/-- The stack of trees after some entries, if every operator finds its operands and
every name can be read. -/
def assemble (scope : String) :
    List (Entry UnaryOp InfixOp) → List Expr → Option (List Expr)
  | [], built => some built
  | .operand o :: es, built => do
    let e ← leaf? scope o
    assemble scope es (e :: built)
  | .unary op :: es, e :: built => assemble scope es (unary op e :: built)
  | .binary op :: es, r :: l :: built => assemble scope es (combine op l r :: built)
  | _, _ => none

variable {scope source : String} {place : Place}

/-- An operand gives its leaf, if its name can be read. -/
theorem gives_leaf (o : Operand) : (leaf scope o).Gives (leaf? scope o) := by
  cases o with
  | number text => exact Compile.gives_pure _
  | word text =>
    cases h : Identifier.ofText? scope text with
    | none =>
      rw [leaf?, h]
      exact fun c => ⟨_, Compile.run_bind_of_error (Identifier.resolve_eq_error h c)⟩
    | some i =>
      rw [leaf?, h]
      exact fun c => ⟨_, Compile.run_bind_of_ok (Identifier.resolve_eq_ok h c)⟩

/-- The stack that is built is the one that can be assembled. -/
theorem gives_stack (es : List (Entry UnaryOp InfixOp)) (built : List Expr) :
    (stack scope place source es built).Gives (assemble scope es built) := by
  induction es generalizing built with
  | nil => exact Compile.gives_pure _
  | cons entry es ih =>
    cases entry with
    | operand o => exact (gives_leaf o).bind fun e _ => ih (e :: built)
    | unary op =>
      cases built with
      | nil => exact Compile.gives_fail _ _
      | cons e built => exact ih _
    | binary op =>
      match built with
      | [] => exact Compile.gives_fail _ _
      | [_] => exact Compile.gives_fail _ _
      | r :: l :: built => exact ih _

/-- The only tree of a stack. -/
def only? : List Expr → Option Expr
  | [e] => some e
  | _ => none

/-- Entries give a tree if they leave one on the stack, and it alone. -/
theorem gives_ofPostfix (es : List (Entry UnaryOp InfixOp)) :
    (ofPostfix scope place source es).Gives ((assemble scope es []).bind only?) := by
  refine (gives_stack es []).bind fun out _ => ?_
  match out with
  | [] => exact Compile.gives_fail _ _
  | [e] => exact Compile.gives_pure e
  | _ :: _ :: _ => exact Compile.gives_fail _ _

end Expr

/-- A text is cut into the same tokens in every context. -/
theorem Alphabet.gives_tokenize (a : Alphabet) (place : Place) (source : String) :
    (a.tokenize place source).Gives (a.tokens source.toList).toOption := by
  rw [tokenize]
  cases a.tokens source.toList with
  | error c => exact Compile.gives_fail _ _
  | ok ts => exact Compile.gives_pure ts

/-- Tokens are ordered to the same entries in every context. -/
theorem Grammar.gives_order {α β : Type} (g : Grammar α β) (place : Place) (source : String)
    (ts : List Token) : (g.order place source ts).Gives (g.ofTokens ts).toOption := by
  rw [order]
  cases g.ofTokens ts with
  | error d => cases d <;> exact Compile.gives_fail _ _
  | ok es => exact Compile.gives_pure es

/-- The leaf of an operand exists if its name can be read. -/
def Operand.Readable (scope : String) (o : Operand) : Prop := (Expr.leaf? scope o).isSome = true

namespace Expr

variable {scope : String}

/-- **A stack can be assembled where the entries count out** and all names can be
read. -/
theorem assemble_iff {es : List (Entry UnaryOp InfixOp)} {built : List Expr} {n : Nat} :
    (∃ out, assemble scope es built = some out ∧ out.length = n) ↔
      Entry.count es built.length = some n ∧ ∀ o, Entry.operand o ∈ es → o.Readable scope := by
  induction es generalizing built with
  | nil => simp [assemble, Entry.count]
  | cons entry es ih =>
    cases entry with
    | operand o =>
      simp only [List.mem_cons, Entry.operand.injEq, forall_eq_or_imp]
      cases ho : leaf? scope o with
      | none => simp [assemble, ho, Operand.Readable]
      | some e =>
        have hes := @ih (e :: built)
        simp [assemble, ho, Operand.Readable, Entry.count, hes]
    | unary op =>
      cases built with
      | nil => simp [assemble, Entry.count]
      | cons e built =>
        have hes := @ih (unary op e :: built)
        simp [assemble, Entry.count, hes]
    | binary op =>
      match built with
      | [] => simp [assemble, Entry.count]
      | [_] => simp [assemble, Entry.count]
      | r :: l :: built =>
        have hes := @ih (combine op l r :: built)
        simp [assemble, Entry.count, hes]

end Expr

namespace Grammar

variable {α β : Type} {g : Grammar α β}

/-- No operand waits on a stack. -/
theorem operand_not_mem_released (o : Operand) (stack : List (Pending α β)) :
    Entry.operand o ∉ stack.filterMap Pending.entry? := by
  intro h
  obtain ⟨p, -, hp⟩ := List.mem_filterMap.1 h
  cases p <;> exact absurd hp (by simp [Pending.entry?])

/-- What a computation goes on with is its first part's result. -/
theorem exists_of_bind_eq_ok {ε γ δ : Type} {x : Except ε γ} {f : γ → Except ε δ} {b : δ}
    (h : x >>= f = .ok b) : ∃ a, x = .ok a ∧ f a = .ok b := by
  cases x with
  | error err => exact absurd h (by simp [bind, Except.bind])
  | ok a => exact ⟨a, rfl, h⟩

/-- What is released at the end are all that wait, and these are operators. -/
theorem of_release_eq_ok {stack : List (Pending α β)} {es : List (Entry α β)}
    (h : release stack = .ok es) :
    (∀ p ∈ stack, p.isOperator = true) ∧ es = stack.filterMap Pending.entry? := by
  induction stack generalizing es with
  | nil =>
    obtain rfl := Except.ok.inj h
    exact ⟨nofun, rfl⟩
  | cons p stack ih =>
    rw [release] at h
    split at h
    · contradiction
    · rename_i e he
      obtain ⟨rest, hrest, h⟩ := exists_of_bind_eq_ok h
      obtain rfl := Except.ok.inj h
      obtain ⟨hstack, rfl⟩ := ih hrest
      have hp : p.isOperator = true := by
        cases p with
        | opening => contradiction
        | unary | binary => rfl
      exact ⟨List.forall_mem_cons.2 ⟨hp, hstack⟩, by rw [List.filterMap_cons_some he]⟩

/-- **The operands of tokens are those of their postfix order.** -/
theorem operand_mem_of_arrange {o : Operand} {ts : List Token} {stack : List (Pending α β)}
    {expecting : Bool} {es : List (Entry α β)} (h : g.arrange ts stack expecting = .ok es) :
    Entry.operand o ∈ es ↔ Token.operand o ∈ ts := by
  have released (stack : List (Pending α β)) (es : List (Entry α β)) :
      Entry.operand o ∈ stack.filterMap Pending.entry? ++ es ↔ Entry.operand o ∈ es := by
    rw [List.mem_append]
    exact or_iff_right (operand_not_mem_released o stack)
  induction ts generalizing stack expecting es with
  | nil =>
    obtain ⟨-, rfl⟩ := of_release_eq_ok h
    simpa using operand_not_mem_released o stack
  | cons t ts ih =>
    cases t with
    | operand o' =>
      obtain ⟨rest, hrest, h⟩ := exists_of_bind_eq_ok h
      obtain rfl := Except.ok.inj h
      simp [ih hrest]
    | opening =>
      have hes := ih h
      simp [hes]
    | closing =>
      rw [arrange] at h
      split at h
      · exact absurd h (by simp)
      · obtain ⟨rest, hrest, h⟩ := exists_of_bind_eq_ok h
        obtain rfl := Except.ok.inj h
        simp [released, ih hrest]
    | operator s =>
      rw [arrange] at h
      split at h
      · simp [ih h]
      · split at h
        · exact absurd h (by simp)
        · obtain ⟨rest, hrest, h⟩ := exists_of_bind_eq_ok h
          obtain rfl := Except.ok.inj h
          simp [released, ih hrest]

/-- Tokens that are read as a tree inside a scope. -/
def Reads (g : Grammar UnaryOp InfixOp) (scope : String) (ts : List Token) (e : Expr) : Prop :=
  ∃ es, g.ofTokens ts = .ok es ∧ Expr.assemble scope es [] = some [e]

/-- Tokens are read as one tree at most. -/
theorem Reads.unique {g : Grammar UnaryOp InfixOp} {scope : String} {ts : List Token} {e e' : Expr}
    (h : g.Reads scope ts e) (h' : g.Reads scope ts e') : e = e' := by
  obtain ⟨es, hes, he⟩ := h
  obtain ⟨es', hes', he'⟩ := h'
  obtain rfl := Except.ok.inj (hes.symm.trans hes')
  exact (List.cons.inj (Option.some.inj (he.symm.trans he'))).1

/-- **Tokens are read as a tree where they count out** and all their operands can
be read. -/
theorem exists_reads_iff {g : Grammar UnaryOp InfixOp} {scope : String} {ts : List Token} :
    (∃ e, g.Reads scope ts e) ↔
      g.Counted ts ∧ ∀ o, Token.operand o ∈ ts → o.Readable scope := by
  constructor
  · rintro ⟨e, es, hes, he⟩
    obtain ⟨hcount, hread⟩ := Expr.assemble_iff.1 ⟨[e], he, rfl⟩
    exact ⟨⟨es, hes, hcount⟩, fun o ho => hread o ((operand_mem_of_arrange hes).2 ho)⟩
  · rintro ⟨⟨es, hes, hcount⟩, hread⟩
    have hread : ∀ o, Entry.operand o ∈ es → o.Readable scope := fun o ho =>
      hread o ((operand_mem_of_arrange hes).1 ho)
    have hassemble : ∃ out, Expr.assemble scope es [] = some out ∧ out.length = 1 :=
      Expr.assemble_iff.2 ⟨hcount, hread⟩
    obtain ⟨out, hout, hlen⟩ := hassemble
    obtain ⟨e, rfl⟩ := List.length_eq_one_iff.1 hlen
    exact ⟨e, es, hes, hout⟩

/-- The empty text is read as no tree. -/
theorem not_reads_of_tokens_nil {g : Grammar UnaryOp InfixOp} {a : Alphabet} {scope : String}
    {ts : List Token} {e : Expr} (h : a.tokens [] = .ok ts) : ¬g.Reads scope ts e := by
  rintro ⟨es, hes, he⟩
  rw [Alphabet.tokens] at h
  obtain rfl := Except.ok.inj h
  obtain rfl := Except.ok.inj hes
  exact absurd he (by simp [Expr.assemble])

end Grammar

/-- A computation stops with an error that one of its parts stops with. -/
theorem bind_eq_error_iff {ε α β : Type} {x : Except ε α} {f : α → Except ε β} {e : ε} :
    x >>= f = .error e ↔ x = .error e ∨ ∃ a, x = .ok a ∧ f a = .error e := by
  cases x <;> simp [bind, Except.bind]

/-- The result of a computation that has one. -/
theorem toOption_eq_some {ε α : Type} {x : Except ε α} {a : α} :
    x.toOption = some a ↔ x = .ok a := by
  cases x <;> simp [Except.toOption]

/-- The only tree of a stack is the one that the stack is made of. -/
theorem Expr.only?_eq_some {out : List Expr} {e : Expr} : only? out = some e ↔ out = [e] := by
  match out with
  | [] => simp [only?]
  | [_] => simp [only?]
  | _ :: _ :: _ => simp [only?]

/-- The tree that a text is read as. -/
def Grammar.tree? (g : Grammar UnaryOp InfixOp) (a : Alphabet) (scope : String) (cs : List Char) :
    Option Expr :=
  (a.tokens cs).toOption.bind fun ts =>
    (g.ofTokens ts).toOption.bind fun es => (Expr.assemble scope es []).bind Expr.only?

/-- A text is read as a tree just if it is cut into tokens that are read as the tree. -/
theorem Grammar.tree?_eq_some {g : Grammar UnaryOp InfixOp} {a : Alphabet} {scope : String}
    {cs : List Char} {e : Expr} :
    g.tree? a scope cs = some e ↔ ∃ ts, a.tokens cs = .ok ts ∧ g.Reads scope ts e := by
  simp only [tree?, Option.bind_eq_some_iff, toOption_eq_some, Expr.only?_eq_some, Reads,
    exists_eq_right]

/-- Cutting a text, bringing its tokens into order and building the tree, one
after the other. -/
theorem Grammar.gives_tree (g : Grammar UnaryOp InfixOp) (a : Alphabet) (scope : String)
    (place : Place) (source shown : String) {α : Type} {f : Expr → Compile α} {k : Expr → Option α}
    (hf : ∀ e, (f e).Gives (k e)) :
    (do
      let ts ← a.tokenize place source
      let es ← g.order place shown ts
      let e ← Expr.ofPostfix scope place shown es
      f e : Compile α).Gives ((g.tree? a scope source.toList).bind k) := by
  simp only [tree?, Option.bind_assoc]
  refine (a.gives_tokenize _ _).bind fun ts _ => ?_
  refine (g.gives_order _ _ _).bind fun es _ => ?_
  rw [← Option.bind_assoc]
  exact (Expr.gives_ofPostfix es).bind fun e _ => hf e

namespace Arithmetic

/-- The tokens of an expression. -/
def Cut (text : String) (ts : List Token) : Prop :=
  alphabet.tokens (Text.compactChars text.toList) = .ok ts

/-- The program that a text is compiled to inside a scope, if it is compiled. -/
def compiled? (scope text : String) : Option Program :=
  if Text.compact text = "" then none
  else
    (grammar.tree? alphabet scope (Text.compact text).toList).bind fun e =>
      some (Program.ofExpr (Text.compact text) e)

/-- A text is compiled to the same expression in every context. -/
theorem gives_compile (scope text : String) :
    (compile scope text).Gives (compiled? scope text) := by
  refine Compile.gives_get_bind fun c => ?_
  simp only [compiled?]
  split
  · exact Compile.gives_fail _ _
  · exact Grammar.gives_tree _ _ _ _ _ _ fun e => Compile.gives_pure _

/-- **Which expressions are compiled.** -/
theorem accepts_iff {scope text : String} {c : Context} :
    (compile scope text).Accepts c ↔ ∃ ts e, Cut text ts ∧ grammar.Reads scope ts e := by
  have hcut (ts : List Token) :
      Cut text ts ↔ alphabet.tokens (Text.compact text).toList = .ok ts := by
    rw [Cut, Text.compact, String.toList_ofList]
  rw [(gives_compile scope text).accepts_iff, compiled?]
  constructor
  · rintro ⟨p, hp⟩
    split at hp
    · exact absurd hp (by simp)
    · obtain ⟨e, he, -⟩ := Option.bind_eq_some_iff.1 hp
      obtain ⟨ts, hts, hread⟩ := Grammar.tree?_eq_some.1 he
      exact ⟨ts, e, (hcut ts).2 hts, hread⟩
  · rintro ⟨ts, e, hts, hread⟩
    rw [hcut] at hts
    have hne : Text.compact text ≠ "" := by
      intro hempty
      rw [hempty] at hts
      exact Grammar.not_reads_of_tokens_nil hts hread
    rw [if_neg hne, Grammar.tree?_eq_some.2 ⟨ts, hts, hread⟩]
    exact ⟨_, rfl⟩

end Arithmetic

namespace Condition

/-- The tokens of a condition, after its ranges are replaced. -/
def Cut (text : String) (ts : List Token) : Prop :=
  ∃ source, expandRanges (Text.compactChars text.toList) = .ok source ∧
    hasTwoPoints source = false ∧ alphabet.tokens source = .ok ts

/-- A condition with its ranges replaced, if they can be. -/
def expanded? (condition : String) : Option String :=
  (expandRanges condition.toList).toOption.bind fun source =>
    if hasTwoPoints source then none else some (String.ofList source)

/-- The ranges of a condition are replaced alike in every context. -/
theorem gives_expandCondition (condition : String) :
    (expandCondition condition).Gives (expanded? condition) := by
  rw [expandCondition, expanded?]
  cases expandRanges condition.toList with
  | error name => exact Compile.gives_failHere _
  | ok source =>
    simp only [Except.toOption, Option.bind_some]
    split
    · exact Compile.gives_failHere _
    · exact Compile.gives_pure _

/-- The condition that a text is compiled to inside a scope, if it is compiled. -/
def compiled? (scope text : String) : Option Condition :=
  (expanded? (Text.compact text)).bind fun source => if source = "" then none else
    (grammar.tree? alphabet scope source.toList).bind fun e =>
      if firstMisfit? e = none then some ⟨text, Program.ofExpr text e⟩ else none

/-- A text is compiled to the same condition in every context. -/
theorem gives_compile (scope text : String) :
    (compile scope (.string text)).Gives (compiled? scope text) := by
  refine Compile.gives_get_bind fun c => ?_
  simp only
  refine (gives_expandCondition _).bind fun source _ => ?_
  split
  · exact Compile.gives_fail _ _
  · refine Grammar.gives_tree _ _ _ _ _ _ fun e => ?_
    cases firstMisfit? e with
    | none => exact Compile.gives_pure _
    | some op => exact Compile.gives_failHere _

/-- A compiled condition keeps its text. -/
theorem source_of_compiled? {scope text : String} {condition : Condition}
    (h : compiled? scope text = some condition) : condition.source = text := by
  obtain ⟨source, -, h⟩ := Option.bind_eq_some_iff.1 h
  split at h
  · exact absurd h (by simp)
  · obtain ⟨e, -, h⟩ := Option.bind_eq_some_iff.1 h
    split at h
    · exact (Option.some.inj h) ▸ rfl
    · exact absurd h (by simp)

/-- The text that a condition is cut from. -/
theorem expanded?_compact_eq_some {text source : String} :
    expanded? (Text.compact text) = some source ↔
      expandRanges (Text.compactChars text.toList) = .ok source.toList ∧
        hasTwoPoints source.toList = false := by
  rw [expanded?, Option.bind_eq_some_iff, Text.compact, String.toList_ofList]
  constructor
  · rintro ⟨cs, hcs, h⟩
    rw [toOption_eq_some] at hcs
    split at h
    · exact absurd h (by simp)
    · rename_i hpoints
      obtain rfl := Option.some.inj h
      rw [String.toList_ofList]
      exact ⟨hcs, by simpa using hpoints⟩
  · rintro ⟨hcs, hpoints⟩
    refine ⟨source.toList, toOption_eq_some.2 hcs, ?_⟩
    rw [hpoints, String.ofList_toList]
    rfl

/-- **Which conditions are compiled.** -/
theorem accepts_iff {scope text : String} {c : Context} :
    (compile scope (.string text)).Accepts c ↔
      ∃ ts e, Cut text ts ∧ grammar.Reads scope ts e ∧ firstMisfit? e = none := by
  rw [(gives_compile scope text).accepts_iff, compiled?]
  constructor
  · rintro ⟨cond, h⟩
    obtain ⟨source, hsource, h⟩ := Option.bind_eq_some_iff.1 h
    obtain ⟨hranges, hpoints⟩ := expanded?_compact_eq_some.1 hsource
    split at h
    · exact absurd h (by simp)
    · obtain ⟨e, he, h⟩ := Option.bind_eq_some_iff.1 h
      obtain ⟨ts, hts, hread⟩ := Grammar.tree?_eq_some.1 he
      split at h
      · rename_i hfits
        exact ⟨ts, e, ⟨source.toList, hranges, hpoints, hts⟩, hread, hfits⟩
      · exact absurd h (by simp)
  · rintro ⟨ts, e, ⟨cs, hranges, hpoints, hts⟩, hread, hfits⟩
    have hsource : expanded? (Text.compact text) = some (String.ofList cs) := by
      rw [expanded?_compact_eq_some, String.toList_ofList]
      exact ⟨hranges, hpoints⟩
    have hne : String.ofList cs ≠ "" := by
      intro hempty
      obtain rfl : cs = [] := by simpa using congrArg String.toList hempty
      exact Grammar.not_reads_of_tokens_nil hts hread
    have htree : grammar.tree? alphabet scope (String.ofList cs).toList = some e := by
      rw [String.toList_ofList, Grammar.tree?_eq_some]
      exact ⟨ts, hts, hread⟩
    rw [hsource, Option.bind_some, if_neg hne, htree, Option.bind_some, if_pos hfits]
    exact ⟨_, rfl⟩

end Condition

/-- **What is accepted, and what of it is a sentence.**  Expressions and
conditions are accepted where their tokens count out, their operands can be read,
and, for conditions, only numbers are compared.  Sentences count out; tokens that
count out are a sentence where every token is well placed, and nowhere else. -/
theorem accepted_iff_counted (scope text : String) (c : Context) :
    ((Arithmetic.compile scope text).Accepts c ↔ ∃ ts, Arithmetic.Cut text ts ∧
      Arithmetic.grammar.Counted ts ∧ ∀ o, Token.operand o ∈ ts → o.Readable scope) ∧
    ((Condition.compile scope (.string text)).Accepts c ↔ ∃ ts, Condition.Cut text ts ∧
      Condition.grammar.Counted ts ∧ (∀ o, Token.operand o ∈ ts → o.Readable scope) ∧
      ∀ e, Condition.grammar.Reads scope ts e → Condition.firstMisfit? e = none) ∧
    (∀ ts, Arithmetic.grammar.Sentence ts ↔
      Arithmetic.grammar.Counted ts ∧ Arithmetic.grammar.wellPlaced ts true 0 = true) ∧
    ∀ ts, Condition.grammar.Sentence ts ↔
      Condition.grammar.Counted ts ∧ Condition.grammar.wellPlaced ts true 0 = true := by
  have hsentence {β : Type} {g : Grammar UnaryOp β} (ts : List Token) :
      g.Sentence ts ↔ g.Counted ts ∧ g.wellPlaced ts true 0 = true :=
    ⟨fun h => ⟨h.counted, Grammar.sentence_iff_wellPlaced.1 h⟩,
      fun h => Grammar.sentence_iff_wellPlaced.2 h.2⟩
  refine ⟨?_, ?_, hsentence, hsentence⟩
  · rw [Arithmetic.accepts_iff]
    refine exists_congr fun ts => ?_
    rw [exists_and_left, Grammar.exists_reads_iff]
  · rw [Condition.accepts_iff]
    refine exists_congr fun ts => ?_
    constructor
    · rintro ⟨e, hcut, hread, hfits⟩
      obtain ⟨hcounted, hreadable⟩ := Grammar.exists_reads_iff.1 ⟨e, hread⟩
      refine ⟨hcut, hcounted, hreadable, fun e' hread' => ?_⟩
      rw [hread'.unique hread]
      exact hfits
    · rintro ⟨hcut, hcounted, hreadable, hfits⟩
      obtain ⟨e, hread⟩ := Grammar.exists_reads_iff.2 ⟨hcounted, hreadable⟩
      exact ⟨e, hcut, hread, hfits e hread⟩

/-- The expression `x(y)+` is accepted, and its tokens are no sentence: the two
operands count out with the operator behind them. -/
theorem accepts_operator_behind_operands :
    (Arithmetic.compile "a" "x(y)+").Accepts {} ∧
      ∃ ts, Arithmetic.Cut "x(y)+" ts ∧ ¬Arithmetic.grammar.Sentence ts := by
  let tokens : List Token := [.operand (.word "x"), .opening, .operand (.word "y"), .closing,
    .operator "+"]
  have hlegible : Arithmetic.alphabet.Legible tokens :=
    .cons (by decide) rfl <| .cons (by decide) rfl <| .cons (by decide) rfl <|
      .cons (by decide) rfl <| .cons (by decide) rfl .nil
  have hcut : Arithmetic.Cut "x(y)+" tokens := Alphabet.tokens_of_legible hlegible
  have hreads : Arithmetic.grammar.Reads "a" tokens
      (.binary .add (.variable ⟨"a", "x", by decide, by decide⟩)
        (.variable ⟨"a", "y", by decide, by decide⟩)) := ⟨_, rfl, rfl⟩
  refine ⟨Arithmetic.accepts_iff.2 ⟨tokens, _, hcut, hreads⟩, tokens, hcut, ?_⟩
  rw [Grammar.sentence_iff_wellPlaced]
  decide

end Gamebook
