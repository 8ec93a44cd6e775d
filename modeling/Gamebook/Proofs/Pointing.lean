/-
# What diagnostics point at

Every text of a document is compiled in a context, from which it takes nothing but the
innermost record.  So what is compiled, or what is wrong with it, is the same in every
context, and what is wrong is an error of an identifier or of an expression
(`Compile.Points`).  The context is left as it was, apart from the identifier that was read
last, and a diagnostic stands at an identifier where the cause is one of identifiers, and at
the innermost record where it is another one (`Cause.levelIn`).

Which identifier is left behind does not depend on the context either: it is the name that the
text reads last, and a text that reads none leaves the one that was there
(`Context.revisit`).  A name that is read stands in the text, at least when its blanks are left
out, and where a name is malformed it is the one that was read last (`Compile.Reads`).

The parts of the compiler are handed the record that their diagnostics stand at, so what is
shown of them is about a family of computations, one for each context that a record may be
taken from.
-/

import Gamebook.Proofs.Assignments
import Gamebook.Proofs.Pieces

namespace Gamebook

/-- Whether a cause is an error of an identifier or an expression. -/
def Cause.IsOfScript (cause : Cause) : Prop :=
  cause.family = .identifier ∨ cause.family = .expression

/-- Whether a cause is an error of an expression, or the name that was read last is malformed. -/
def Cause.IsAfter (last : Option String) (cause : Cause) : Prop :=
  cause.family = .expression ∨ ∃ n, last = some n ∧ cause = .malformedIdentifier n

/-- What is wrong behind a name that is read is an error of an identifier or an expression. -/
theorem Cause.IsAfter.isOfScript {last : Option String} {cause : Cause} (h : cause.IsAfter last) :
    cause.IsOfScript := by
  rcases h with h | ⟨n, -, rfl⟩
  · exact .inr h
  · exact .inl rfl

/-- The level at which a diagnostic of a record stands. -/
def Cause.levelIn (place : Place) (cause : Cause) : Place :=
  if cause.family = .identifier then .identifier else place

/-- An error of an expression stands at the record that it is found in. -/
theorem Cause.levelIn_of_expression {cause : Cause} (h : cause.family = .expression)
    (place : Place) : cause.levelIn place = place := by
  rw [levelIn, h, if_neg (by decide)]

namespace Context

/-- A result or a cause, as it is told in a context. -/
def tell {α : Type} (c : Context) : Except Cause α → Except Diagnostic (α × Context)
  | .ok a => .ok (a, c)
  | .error cause => .error ⟨cause.levelIn c.innermost, cause, c⟩

/-- The context with the name that was read last, if one was. -/
def revisit (c : Context) : Option String → Context
  | none => c
  | some n => c.visit (.string n)

/-- A name that is read is read in the same record. -/
@[simp] theorem innermost_revisit (c : Context) (last : Option String) :
    (c.revisit last).innermost = c.innermost := by
  cases last <;> rfl

/-- What was read later is read last. -/
theorem revisit_revisit (c : Context) (last next : Option String) :
    (c.revisit last).revisit next = c.revisit (next.or last) := by
  cases last <;> cases next <;> rfl

/-- A name that is read, or none, is one visit: without a name it leaves the identifier as it
was. -/
theorem revisit_eq_visit (c : Context) (last : Option String) :
    c.revisit last = c.visit (last.elim c.identifier .string) := by
  cases last <;> rfl

end Context

namespace Compile

variable {α β ι : Type}

/-- A computation tells a result or a cause in all contexts of a record. -/
def Tells (x : Compile α) (place : Place) (r : Except Cause α) : Prop :=
  ∀ c, c.innermost = place → ∃ raw, x.run c = (c.visit raw).tell r

/-- Computations, one for each context, tell the same in all contexts of its record: a
result, or an error of scripts. -/
def Points (x : Context → Compile α) : Prop :=
  ∃ r : Except Cause α, (∀ cause, r = .error cause → cause.IsOfScript) ∧
    ∀ c, (x c).Tells c.innermost r

/-- Computations tell the same in all contexts of a record, and leave the same name there. -/
def Leaves (x : Context → Compile α) (last : Option String) (r : Except Cause α) : Prop :=
  ∀ c c', c'.innermost = c.innermost → (x c).run c' = (c'.revisit last).tell r

/-- Computations read no names but those with a property, and give a result with another
property, or stop at an error of an expression or at a malformed name that was read last. -/
def Reads (P : String → Prop) (x : Context → Compile α) (Q : α → Prop) : Prop :=
  ∃ last r, Leaves x last r ∧ (∀ n ∈ last, P n) ∧
    match r with
    | .ok a => Q a
    | .error cause => cause.IsAfter last

variable {P : String → Prop} {Q : α → Prop} {R : β → Prop} {x : Context → Compile α}
  {f : α → Context → Compile β}

/-- What reads names points at the record. -/
theorem Reads.points (h : Reads P x Q) : Points x := by
  obtain ⟨last, r, hleaves, -, hr⟩ := h
  refine ⟨r, ?_, fun c c' hc => ⟨last.elim c'.identifier .string, ?_⟩⟩
  · rintro cause rfl
    exact hr.isOfScript
  · rw [hleaves c c' hc, Context.revisit_eq_visit]

/-- Names that are read have every property that follows from the one they are known to have. -/
theorem Reads.imp {P' : String → Prop} (h : Reads P x Q) (hP : ∀ n, P n → P' n) :
    Reads P' x Q := by
  obtain ⟨last, r, hleaves, hlast, hr⟩ := h
  exact ⟨last, r, hleaves, fun n hn => hP n (hlast n hn), hr⟩

/-- A result reads no name. -/
theorem reads_pure {a : α} (ha : Q a) : Reads P (fun _ => (pure a : Compile α)) Q :=
  ⟨none, .ok a, fun _ _ _ => rfl, nofun, ha⟩

/-- A computation that stops where it stands reads no name. -/
theorem reads_of_error {cause : Cause} (h : cause.family = .expression)
    (hx : ∀ c c', c'.innermost = c.innermost →
      (x c).run c' = .error ⟨c'.innermost, cause, c'⟩) : Reads P x Q := by
  refine ⟨none, .error cause, fun c c' hc => ?_, nofun, .inl h⟩
  rw [hx c c' hc]
  simp only [Context.revisit, Context.tell, Cause.levelIn_of_expression h]

/-- An error of an expression at the record of its context reads no name. -/
theorem reads_fail {cause : Cause} (h : cause.family = .expression) :
    Reads P (fun c => (fail c.innermost cause : Compile α)) Q :=
  reads_of_error h fun c c' hc => by rw [hc]; rfl

/-- An error of an expression that is raised where the compiler stands reads no name. -/
theorem reads_failHere {cause : Cause} (h : cause.family = .expression) :
    Reads P (fun _ => (failHere cause : Compile α)) Q :=
  reads_of_error h fun _ _ _ => rfl

/-- What is done with the context may be done with any context of the record. -/
theorem Reads.get_bind (h : Reads P x Q) :
    Reads P (fun _ => (get : Compile Context) >>= x) Q := by
  obtain ⟨last, r, hleaves, hlast, hr⟩ := h
  exact ⟨last, r, fun _ c _ => hleaves c c rfl, hlast, hr⟩

/-- What is read by the second part is read later. -/
theorem Reads.bind (hx : Reads P x Q) (hf : ∀ a, Q a → Reads P (f a) R) :
    Reads P (fun c => x c >>= fun a => f a c) R := by
  obtain ⟨last, r, hleaves, hlast, hr⟩ := hx
  cases r with
  | error cause =>
    exact ⟨last, .error cause, fun c c' hc => run_bind_of_error (hleaves c c' hc), hlast, hr⟩
  | ok a =>
    obtain ⟨next, s, hnext, hafter, hs⟩ := hf a hr
    refine ⟨next.or last, s, fun c c' hc => ?_, fun n hn => ?_, ?_⟩
    · have hsecond := hnext c (c'.revisit last) ((Context.innermost_revisit ..).trans hc)
      rw [Context.revisit_revisit] at hsecond
      exact (run_bind_of_ok (hleaves c c' hc)).trans hsecond
    · rcases Option.or_eq_some_iff.1 hn with hn | ⟨-, hn⟩
      · exact hafter n hn
      · exact hlast n hn
    · cases s with
      | ok b => exact hs
      | error cause =>
        refine hs.imp_right ?_
        rintro ⟨n, rfl, hcause⟩
        exact ⟨n, rfl, hcause⟩

/-- A computation for each element reads the names that one of them reads. -/
theorem reads_mapM {g : ι → Compile α} {is : List ι}
    (h : ∀ i ∈ is, Reads P (fun _ => g i) fun _ => True) :
    Reads P (fun _ => is.mapM g) fun _ => True := by
  induction is with
  | nil => exact reads_pure trivial
  | cons i is ih =>
    simp only [List.mapM_cons]
    obtain ⟨hi, his⟩ := List.forall_mem_cons.1 h
    exact hi.bind fun a _ => (ih his).bind fun as _ => reads_pure trivial

end Compile

open Compile

variable {P : String → Prop} {scope : String}

/-- To resolve a name is to read it. -/
theorem Identifier.reads_resolve {text : String} (h : P text) :
    Reads P (fun _ => resolve scope (.string text)) fun _ => True := by
  have htext : ∀ n ∈ some text, P n := fun n hn => Option.some.inj hn ▸ h
  cases hi : ofText? scope text with
  | some i => exact ⟨some text, .ok i, fun _ c _ => resolve_eq_ok hi c, htext, trivial⟩
  | none =>
    exact ⟨some text, .error (.malformedIdentifier text), fun _ c _ => resolve_eq_error hi c, htext,
      .inr ⟨text, rfl, rfl⟩⟩

/-- An identifier is resolved alike in all contexts of a record. -/
theorem Identifier.points_resolve (scope text : String) :
    Points fun _ => resolve scope (.string text) :=
  (reads_resolve (P := fun _ => True) trivial).points

/-- Cutting a text into tokens reads no name. -/
theorem Alphabet.reads_tokenize (a : Alphabet) (source : String) :
    Reads P (fun c => a.tokenize c.innermost source) fun ts => a.tokens source.toList = .ok ts := by
  unfold tokenize
  split
  · rename_i ts hts
    exact reads_pure hts
  · exact reads_fail rfl

/-- Ordering tokens reads no name. -/
theorem Grammar.reads_order {α β : Type} (g : Grammar α β) (source : String) (ts : List Token) :
    Compile.Reads P (fun c => g.order c.innermost source ts) fun es => g.ofTokens ts = .ok es := by
  unfold order
  split
  · rename_i es hes
    exact reads_pure hes
  all_goals exact reads_fail rfl

namespace Expr

variable {source : String}

/-- An operand reads the name that it is, if it is one. -/
theorem reads_leaf {o : Operand} (h : ∀ text, o = .word text → P text) :
    Reads P (fun _ => leaf scope o) fun _ => True := by
  cases o with
  | number text => exact reads_pure trivial
  | word text =>
    exact (Identifier.reads_resolve (h text rfl)).bind fun i _ => reads_pure trivial

/-- Entries read the names among their operands. -/
theorem reads_stack {es : List (Entry UnaryOp InfixOp)} (built : List Expr)
    (h : ∀ text, .operand (.word text) ∈ es → P text) :
    Reads P (fun c => stack scope c.innermost source es built) fun _ => True := by
  induction es generalizing built with
  | nil => exact reads_pure trivial
  | cons entry es ih =>
    have hrest (text : String) (htext : .operand (.word text) ∈ es) : P text :=
      h text (List.mem_cons_of_mem _ htext)
    cases entry with
    | operand o =>
      have ho (text : String) (htext : o = .word text) : P text :=
        h text (htext ▸ List.mem_cons_self ..)
      exact (reads_leaf ho).bind fun e _ => ih (e :: built) hrest
    | unary op =>
      cases built with
      | nil => exact reads_fail rfl
      | cons e built => exact ih _ hrest
    | binary op =>
      match built with
      | [] | [_] => exact reads_fail rfl
      | r :: l :: built => exact ih _ hrest

/-- An expression reads the words among its entries. -/
theorem reads_ofPostfix {es : List (Entry UnaryOp InfixOp)}
    (h : ∀ text, .operand (.word text) ∈ es → P text) :
    Reads P (fun c => ofPostfix scope c.innermost source es) fun _ => True := by
  refine (reads_stack [] h).bind fun out _ => ?_
  match out with
  | [] => exact reads_fail rfl
  | [e] => exact reads_pure trivial
  | _ :: _ :: _ => exact reads_fail rfl

end Expr

/-- The words of a formula are runs of its text. -/
theorem Grammar.word_infix {g : Grammar UnaryOp InfixOp} {a : Alphabet} {cs : List Char}
    {ts : List Token} {es : List (Entry UnaryOp InfixOp)} (hn : Lexeme.Inked a.number)
    (hs : ∀ s ∈ a.symbols, s.toList.all Lexeme.isInk = true) (hts : a.tokens cs = .ok ts)
    (hes : g.ofTokens ts = .ok es) {text : String} (htext : .operand (.word text) ∈ es) :
    text.toList <:+: cs ∧ ∀ c ∈ text.toList, Lexeme.continuesWord c = true :=
  Alphabet.word_infix_of_tokens hn hs hts ((operand_mem_of_arrange hes).1 htext)

/-- An expression reads names of its text without the blanks. -/
theorem Arithmetic.reads_compile (scope text : String) :
    Reads (fun n => n.toList <:+: Text.compactChars text.toList)
      (fun _ => compile scope text) fun _ => True := by
  refine Reads.get_bind ?_
  dsimp only
  split
  · exact reads_fail rfl
  · refine (alphabet.reads_tokenize _).bind fun ts hts => ?_
    refine (grammar.reads_order _ ts).bind fun es hes => ?_
    refine (Expr.reads_ofPostfix fun name hname => ?_).bind fun e _ => reads_pure trivial
    rw [Text.compact, String.toList_ofList] at hts
    exact (Grammar.word_infix Lexeme.inked_unsigned (by decide) hts hes hname).1

/-- **A statement reads names of its text.** -/
theorem Action.reads_compile (scope text : String) :
    Reads (fun n => Text.Occurs n text.toList) (fun _ => compile scope text) fun _ => True := by
  unfold compile
  dsimp only
  split
  · rename_i c before sign d after hsplit
    have hpieces := Assignment.split?_eq_some hsplit
    rw [Text.compact, String.toList_ofList] at hpieces
    refine (Identifier.reads_resolve ?_).bind fun target _ => ?_
    · refine .inr (hpieces ▸ ?_)
      rw [String.toList_ofList]
      exact (List.prefix_append ..).isInfix
    · refine Reads.bind ((Arithmetic.reads_compile _ _).imp fun n hn => .inr ?_)
        fun program _ => reads_pure trivial
      have hafter : d :: after <:+: Text.compactChars text.toList :=
        hpieces ▸ ((List.suffix_append ..).trans (List.suffix_append ..)).isInfix
      rw [String.toList_ofList] at hn
      rw [← Text.compactChars_compactChars]
      exact hn.trans (hafter.filter _)
  · exact reads_failHere rfl

/-- Expanding the ranges of a condition reads no name. -/
theorem Condition.reads_expand (condition : String) :
    Reads P (fun _ => expandCondition condition) fun source =>
      expandRanges condition.toList = .ok source.toList := by
  unfold expandCondition
  split
  · exact reads_failHere rfl
  · rename_i expanded hexpanded
    split
    · exact reads_failHere rfl
    · exact reads_pure (by rwa [String.toList_ofList])

/-- **A condition reads names of its text**, whatever ranges are in it. -/
theorem Condition.reads_compileText (scope text : String) :
    Reads (fun n => Text.Occurs n text.toList) (fun _ => compileText scope text) fun _ => True := by
  refine Reads.get_bind ?_
  refine (reads_expand _).bind fun source hsource => ?_
  split
  · exact reads_fail rfl
  · refine (alphabet.reads_tokenize _).bind fun ts hts => ?_
    refine (grammar.reads_order _ ts).bind fun es hes => ?_
    refine (Expr.reads_ofPostfix fun name hname => ?_).bind fun e _ => ?_
    · obtain ⟨hwithin, hrun⟩ := Grammar.word_infix Lexeme.inked_signed (by decide) hts hes hname
      rw [Text.compact, String.toList_ofList] at hsource
      exact .inr ((infix_of_expandRanges hsource hrun).2 hwithin)
    · split
      · exact reads_failHere rfl
      · exact reads_pure trivial

namespace Template

/-- Cutting a text into parts reads no name. -/
theorem reads_parts (cs : List Char) :
    Reads P (fun _ => parts cs) fun ps => scan cs = some ps := by
  unfold parts
  split
  · rename_i ps hps
    exact reads_pure hps
  · exact reads_failHere rfl

/-- A part of a template reads names that occur in it, if this is so for the texts nested in it. -/
theorem reads_compilePart {steps : Nat}
    (ih : ∀ cs, Reads (fun n => Text.Occurs n cs) (fun _ => compileChars scope steps cs)
      fun _ => True) (part : Part) :
    Reads (fun n => Text.Occurs n part.body) (fun _ => Phrase.compilePart scope steps part)
      fun _ => True := by
  -- what is read in a piece of the body is read in the body
  have hpiece {α : Type} {x : Compile α} {piece : List Char} (hwithin : piece <:+: part.body)
      (h : Reads (fun n => Text.Occurs n piece) (fun _ => x) fun _ => True) :
      Reads (fun n => Text.Occurs n part.body) (fun _ => x) fun _ => True :=
    h.imp fun n hn => hn.of_infix hwithin
  have hcut (separator : Char) (cs : List Char) := splitOutside_pieces separator 0 cs
  unfold Phrase.compilePart
  split
  · exact reads_pure trivial
  · refine (Identifier.reads_resolve ?_).bind fun i _ => reads_pure trivial
    exact .inl (by rw [String.toList_ofList]; exact Text.trimChars_infix _)
  · obtain ⟨htext, hbranches⟩ := hcut '?' part.body
    split
    · exact reads_failHere rfl
    · rename_i text branches hsplit
      rw [hsplit] at htext hbranches
      have hbehind : branches <:+: part.body := (hbranches branches rfl).isInfix
      have hcondition := Condition.reads_compileText scope (String.ofList text)
      rw [String.toList_ofList] at hcondition
      refine Reads.bind (hpiece htext.isInfix hcondition) fun condition _ => ?_
      obtain ⟨hfirst, hsecond⟩ := hcut '|' branches
      split
      · rename_i first hsplit
        rw [hsplit] at hfirst
        have hwhenTrue := hpiece (hfirst.isInfix.trans hbehind) (ih first)
        exact hwhenTrue.bind fun whenTrue _ => reads_pure trivial
      · rename_i first second hsplit
        rw [hsplit] at hfirst hsecond
        have hwhenTrue := hpiece (hfirst.isInfix.trans hbehind) (ih first)
        have hwhenFalse := hpiece ((hsecond second rfl).isInfix.trans hbehind) (ih second)
        exact hwhenTrue.bind fun whenTrue _ =>
          hwhenFalse.bind fun whenFalse _ => reads_pure trivial

/-- A template reads names that occur in its text. -/
theorem reads_compileChars (scope : String) (steps : Nat) (cs : List Char) :
    Reads (fun n => Text.Occurs n cs) (fun _ => compileChars scope steps cs) fun _ => True := by
  -- the texts of a choice are compiled with one step less
  induction steps generalizing cs with
  | zero => exact reads_pure trivial
  | succ steps ih =>
    simp only [Phrase.compileChars_succ]
    refine (reads_parts cs).bind fun ps hps => reads_mapM fun part hpart => ?_
    exact (reads_compilePart ih part).imp fun n hn =>
      hn.of_infix (body_infix_of_scan hps part hpart)

/-- **A template reads names of its text.** -/
theorem reads_compileText (scope source : String) :
    Reads (fun n => Text.Occurs n source.toList) (fun _ => compileText scope source)
      fun _ => True :=
  (reads_compileChars scope _ _).bind fun _ _ => reads_pure trivial

end Template
end Gamebook
