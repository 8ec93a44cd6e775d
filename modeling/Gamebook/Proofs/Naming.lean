/-
# Names that are read as their variables

A name can be assigned to whatever its first character is.  In an expression and in a
condition it is a variable where it starts with a letter or an underscore
(`Name.IsWord`).  Where it starts with a digit, a number is cut off its front: the name is
that number if nothing is left, and no formula if a word or a colon is left
(`Name.cases_of_not_isWord`).  A range of the name goes with it (`Name.read_back_iff`).
-/

import Gamebook.Proofs.Compiling
import Gamebook.Proofs.Conditions
import Gamebook.Proofs.Recognising

namespace Gamebook

namespace Lexeme

/-- The digits of ASCII are digits. -/
theorem isDigit_of_ascii {c : Char} (h : c.isDigit = true) : Text.isDigit c = true := by
  obtain ⟨hlo, hhi⟩ := Char.isDigit_iff_toNat.1 h
  have hlo : 48 ≤ c.toNat := hlo
  have hhi : c.toNat ≤ 57 := hhi
  simp only [Text.isDigit, Text.digitValue?, Text.digitZeros, Text.digitAmong]
  rw [if_neg (by omega), if_pos (by omega)]
  rfl

/-- A character of a segment that is no digit starts a word. -/
theorem startsWord_of_isWordChar {c : Char} (h : isWordChar c = true)
    (hd : Text.isDigit c = false) : startsWord c = true := by
  have hdef : isWordChar c = (c.isAlpha || c.isDigit || c == '_') := rfl
  have hdigit : c.isDigit = false := by
    rw [Bool.eq_false_iff]
    intro hc
    exact Bool.noConfusion (hd.symm.trans (isDigit_of_ascii hc))
  rwa [hdef, hdigit, Bool.or_false] at h

/-- No word starts with a point. -/
theorem ne_point_of_startsWord {c : Char} (h : startsWord c = true) : c ≠ '.' := by
  rintro rfl
  exact absurd h (by decide)

end Lexeme

/-- Whether a text starts with a letter or an underscore. -/
def StartsWord (cs : List Char) : Prop := ∀ c ∈ cs.head?, Lexeme.startsWord c = true

namespace Segment

/-- A segment that starts with a digit is digits, with nothing behind them or a segment
that starts with a letter or an underscore. -/
theorem exists_digits (w : Segment) (h : ¬StartsWord w.chars) : ∃ ds : Digits,
    w.chars = ds.chars ∨
      ∃ rest : Segment, StartsWord rest.chars ∧ w.chars = ds.chars ++ rest.chars := by
  have hparts := List.takeWhile_append_dropWhile (p := Text.isDigit) (l := w.chars)
  obtain ⟨c, cs, hcs⟩ := List.exists_cons_of_ne_nil w.ne_nil
  have hc : Text.isDigit c = true := by
    by_contra hd
    refine h fun d hd' => ?_
    obtain rfl : c = d := by simpa [hcs] using hd'
    exact Lexeme.startsWord_of_isWordChar (w.isWordChar (hcs ▸ List.mem_cons_self ..))
      (by simpa using hd)
  let ds : Digits := ⟨w.chars.takeWhile Text.isDigit, by simp [hcs, hc], List.all_takeWhile⟩
  refine ⟨ds, ?_⟩
  cases hrest : w.chars.dropWhile Text.isDigit with
  | nil =>
    rw [hrest, List.append_nil] at hparts
    exact .inl hparts.symm
  | cons d rest =>
    have hmem : ∀ e ∈ d :: rest, Gamebook.isWordChar e = true := fun e he =>
      w.isWordChar ((List.dropWhile_suffix _).subset (hrest ▸ he))
    have hd : Text.isDigit d = false := by
      have hhead := List.head?_dropWhile_not Text.isDigit w.chars
      rw [hrest] at hhead
      simpa using hhead
    rw [hrest] at hparts
    refine .inr ⟨⟨d :: rest, ?_⟩, ?_, hparts.symm⟩
    · exact Bool.and_eq_true_iff.2 ⟨rfl, List.all_eq_true.2 hmem⟩
    · intro e he
      obtain rfl : d = e := by simpa using he
      exact Lexeme.startsWord_of_isWordChar (hmem _ (List.mem_cons_self ..)) hd

end Segment

namespace Name

/-- The text of a name. -/
def text (n : Name) : String := String.ofList n.chars

/-- The identifier that a name means inside a scope, if it means one; with a scope of its
own it means one inside every scope. -/
def identifier? (scope : String) : Name → Option Identifier
  | short name => Identifier.ofSegments? scope name.text
  | full own name => some ⟨own.text, name.text, own.isSegment_text, name.isSegment_text⟩

/-- Whether a name starts with a letter or an underscore. -/
def IsWord (n : Name) : Prop := StartsWord n.chars

variable (n : Name) {scope : String}

/-- In a scope that is a segment, every name means an identifier. -/
theorem identifier?_of_isSegment (h : isSegment scope = true) :
    n.identifier? scope = some (n.identifier scope h) := by
  cases n with
  | short name => exact dif_pos ⟨h, name.isSegment_text⟩
  | full own name => rfl

/-- A name means its identifier inside some scope as well. -/
theorem exists_identifier {n : Name} {i : Identifier} (h : n.identifier? scope = some i) :
    ∃ (own : String) (hown : isSegment own = true), n.identifier own hown = i := by
  cases n with
  | short name =>
    rw [identifier?, Identifier.ofSegments?] at h
    split at h
    · rename_i hparts
      exact ⟨scope, hparts.1, Option.some.inj h⟩
    · contradiction
  | full own name => exact ⟨own.text, own.isSegment_text, Option.some.inj h⟩

/-- **A name is read as what it means.** -/
theorem ofText?_text (scope : String) : Identifier.ofText? scope n.text = n.identifier? scope := by
  cases n with
  | short name =>
    have hsplit := List.splitOnP_eq_singleton fun c hc => name.beq_colon hc
    simp only [Identifier.ofText?, text, chars, String.toList_ofList, hsplit]
    rfl
  | full own name =>
    have htext : (full own name).text =
        ((full own name).identifier own.text own.isSegment_text).canonical := by
      rw [← String.toList_inj, Identifier.toList_canonical]
      simp [text, chars, identifier, Segment.text]
    rw [htext]
    exact Identifier.ofText?_canonical scope _

/-- **A name that starts with a digit** is digits, with nothing behind them, a variable, or
a colon. -/
theorem exists_digits (h : ¬n.IsWord) : ∃ ds : Digits, n.chars = ds.chars ∨
    (∃ v : Variable, n.chars = ds.chars ++ v.chars) ∨
      ∃ rest, n.chars = ds.chars ++ ':' :: rest := by
  cases n with
  | short name =>
    obtain ⟨ds, hds | ⟨rest, hrest, hds⟩⟩ := name.exists_digits h
    · exact ⟨ds, .inl hds⟩
    · exact ⟨ds, .inr (.inl ⟨⟨.short rest, hrest⟩, hds⟩)⟩
  | full own name =>
    have hown : ¬StartsWord own.chars := by
      intro hstart
      refine h fun c hc => ?_
      obtain ⟨d, cs, hcs⟩ := List.exists_cons_of_ne_nil own.ne_nil
      refine hstart c ?_
      simpa [chars, hcs] using hc
    obtain ⟨ds, hds | ⟨rest, hrest, hds⟩⟩ := own.exists_digits hown
    · exact ⟨ds, .inr (.inr ⟨name.chars, by rw [chars, hds]⟩)⟩
    · have hstart : StartsWord (full rest name).chars := by
        intro c hc
        obtain ⟨d, cs, hcs⟩ := List.exists_cons_of_ne_nil rest.ne_nil
        refine hrest c ?_
        simpa [chars, hcs] using hc
      refine ⟨ds, .inr (.inl ⟨⟨.full rest name, hstart⟩, ?_⟩)⟩
      rw [chars, hds, List.append_assoc]
      rfl

/-- The number that a name writes, if it is digits only. -/
def numeral? : Option Float :=
  if n.chars.all Text.isDigit then some (Expr.numeralValue n.text) else none

end Name

/-! ## One operand, and a number with more behind it -/

namespace Entry

variable {α β : Type}

/-- Values that lie below those that entries use are still there at the end. -/
theorem count_add {es : List (Entry α β)} {n m : Nat} (h : count es n = some m) (k : Nat) :
    count es (n + k) = some (m + k) := by
  induction es generalizing n with
  | nil =>
    obtain rfl := Option.some.inj h
    rfl
  | cons e es ih =>
    cases e with
    | operand o =>
      have hes := ih h
      rwa [Nat.add_right_comm] at hes
    | unary op =>
      cases n with
      | zero => exact absurd h (by simp [count])
      | succ n =>
        have hes := ih h
        rw [Nat.add_right_comm] at hes ⊢
        exact hes
    | binary op =>
      rcases n with _ | _ | n
      · exact absurd h (by simp [count])
      · exact absurd h (by simp [count])
      · have hes := ih h
        have hbelow : n + 1 + 1 + k = n + k + 2 := by omega
        rw [Nat.add_right_comm] at hes
        rw [hbelow]
        exact hes

end Entry

namespace Grammar

variable {g : Grammar UnaryOp InfixOp} {a : Alphabet} {scope : String} {cs : List Char}
  {o : Operand} {ts : List Token}

/-- A single operand is read as its leaf. -/
theorem tree?_operand (h : a.tokens cs = .ok [.operand o]) :
    g.tree? a scope cs = Expr.leaf? scope o := by
  have horder : g.ofTokens [.operand o] = .ok [.operand o] := rfl
  rw [tree?, h, Except.toOption, Option.bind_some, horder, Except.toOption, Option.bind_some]
  cases hleaf : Expr.leaf? scope o <;> simp [Expr.assemble, Expr.only?, hleaf]

/-- An operand with a sentence behind it is read as no tree, for two values are left. -/
theorem tree?_operand_cons (h : a.tokens cs = .ok (.operand o :: ts)) (hts : g.Sentence ts)
    (hfront : g.arrange ts [] false = g.arrange ts [] true) : g.tree? a scope cs = none := by
  rw [Option.eq_none_iff_forall_ne_some]
  intro e he
  obtain ⟨ts', hts', hread⟩ := tree?_eq_some.1 he
  obtain rfl := Except.ok.inj (h.symm.trans hts')
  obtain ⟨⟨es, hes, hcount⟩, -⟩ := exists_reads_iff.1 ⟨e, hread⟩
  obtain ⟨rest, hrest, hcons⟩ := exists_of_bind_eq_ok hes
  obtain rfl := Except.ok.inj hcons
  obtain ⟨es', hes', hcount'⟩ := hts.counted
  obtain rfl := Except.ok.inj (hrest.symm.trans (hfront.trans hes'))
  exact absurd (hcount.symm.trans (Entry.count_add hcount' 1)) (by simp)

/-- A text that is not cut into tokens is no formula. -/
theorem tree?_of_error {c : Char} (h : a.tokens cs = .error c) : g.tree? a scope cs = none := by
  rw [tree?, h]
  rfl

end Grammar

namespace Alphabet

/-- An alphabet whose numbers without a sign are the unsigned ones, and to which a colon is
no sign. -/
structure Ordinary (a : Alphabet) : Prop where
  number : ∀ c cs, c ≠ '-' → a.number (c :: cs) = Lexeme.unsigned (c :: cs)
  colon : ∀ rest, a.nextSign (':' :: rest) = none

namespace Ordinary

variable {a : Alphabet} (ha : a.Ordinary)

include ha

/-- Digits are cut off the front of a text. -/
theorem tokens_digits (ds : Digits) (rest : List Char) (hs : Lexeme.Stops Text.isDigit rest)
    (hp : ∀ behind, rest = '.' :: behind → Lexeme.Stops Text.isDigit behind) :
    a.tokens (ds.chars ++ rest) =
      (.operand (.number (String.ofList ds.chars)) :: ·) <$> a.tokens rest := by
  have hun : Lexeme.unsigned (ds.chars ++ rest) = some (ds.chars, rest) :=
    Numeral.unsigned_append ⟨ds, none⟩ hs hp
  obtain ⟨d, cs, hcs, hd⟩ := ds.exists_cons
  have hne : d ≠ '-' := by
    rintro rfl
    exact absurd hd (by decide)
  have hnumber : a.number (ds.chars ++ rest) = some (ds.chars, rest) := by
    rw [← hun, hcs, List.cons_append, ha.number d _ hne]
  refine tokens_of_next ?_ ?_
  · rw [next_eq, hnumber]
  · rw [hcs, List.length_append, List.length_cons]
    omega

/-- No token starts with a colon. -/
theorem tokens_colon (rest : List Char) : a.tokens (':' :: rest) = .error ':' := by
  have hnumber : a.number (':' :: rest) = none := by
    rw [ha.number _ _ (by decide)]
    exact Lexeme.unsigned_eq_none (.cons (by decide) rest)
  have hnext : a.next (':' :: rest) = none := by
    rw [next_eq_nextSign hnumber (by decide), ha.colon]
  rw [tokens, hnext]

end Ordinary
end Alphabet

/-- The numbers of expressions have no sign, and a colon is no sign of theirs. -/
theorem Arithmetic.ordinary : alphabet.Ordinary where
  number _ _ _ := rfl
  colon _ := rfl

/-- The numbers of conditions are unsigned ones where no minus stands, and a colon is no sign of
theirs. -/
theorem Condition.ordinary : alphabet.Ordinary where
  number _ cs hc := Lexeme.signed_of_ne hc cs
  colon _ := rfl

/-! ## The tree of a name -/

namespace Name

section

variable {ν : Type} {write : ν → List Char} {g : Grammar UnaryOp InfixOp} {a : Alphabet}
  (hg : a.Spells g (Atom.spell write))

include hg

/-- A variable is one token. -/
theorem tokens_variable (v : Variable) :
    a.tokens v.chars = .ok [.operand (.word v.name.text)] := by
  have htokens := hg.tokens_of_writes (.leaf .anything (.variable v))
  rwa [List.flatMap_singleton, Atom.chars_spell] at htokens

/-- A name that starts with a letter or an underscore is read as its variable. -/
theorem tree?_of_isWord {n : Name} (h : n.IsWord) (scope : String) :
    g.tree? a scope n.chars = (n.identifier? scope).map .variable := by
  rw [← ofText?_text]
  exact Grammar.tree?_operand (tokens_variable hg ⟨n, h⟩)

/-- A name that starts with a digit is read as a number if it is digits only, and as nothing
if it is not. -/
theorem tree?_of_not_isWord (ha : a.Ordinary) {n : Name} (h : ¬n.IsWord) (scope : String) :
    g.tree? a scope n.chars = n.numeral?.map .number := by
  obtain ⟨ds, hds | ⟨v, hv⟩ | ⟨rest, hrest⟩⟩ := n.exists_digits h
  · have htokens := ha.tokens_digits ds [] (by simp [Lexeme.Stops]) (by simp)
    have hnil : a.tokens [] = .ok [] := by rw [Alphabet.tokens]
    rw [List.append_nil, ← hds, hnil] at htokens
    rw [Grammar.tree?_operand htokens, numeral?, if_pos (hds ▸ ds.all_isDigit)]
    rfl
  · obtain ⟨c, cs, hcs, hc, -⟩ := v.exists_cons
    have hdigit := Lexeme.isDigit_of_startsWord hc
    have hnumeral : n.numeral? = none := if_neg (by simp [hv, hcs, hdigit])
    have htokens := ha.tokens_digits ds v.chars (hcs ▸ .cons hdigit cs) fun _ hpoint =>
      absurd (List.cons.inj (hcs.symm.trans hpoint)).1 (Lexeme.ne_point_of_startsWord hc)
    rw [← hv, tokens_variable hg] at htokens
    rw [hnumeral]
    exact Grammar.tree?_operand_cons htokens (.operand _) rfl
  · have hcolon : Text.isDigit ':' = false := by decide
    have hnumeral : n.numeral? = none := if_neg (by simp [hrest, hcolon])
    have htokens := ha.tokens_digits ds (':' :: rest) (.cons hcolon _) (by simp)
    rw [← hrest, ha.tokens_colon] at htokens
    rw [hnumeral]
    exact Grammar.tree?_of_error htokens

end

end Name

/-! ## Compiling names -/

/-- What an expression without blanks is compiled to. -/
theorem Arithmetic.compiled?_of_solid {cs : List Char} (hs : Text.Solid cs) (hne : cs ≠ [])
    (scope : String) : compiled? scope (String.ofList cs) =
      (grammar.tree? alphabet scope cs).map (Program.ofExpr (String.ofList cs)) := by
  rw [compiled?, hs.compact_ofList, if_neg (Text.ofList_ne_empty hne), String.toList_ofList,
    Option.map_eq_bind]
  rfl

/-- What a condition without blanks is compiled to, when its ranges are replaced. -/
theorem Condition.compiled?_of_solid {cs source : List Char} (hs : Text.Solid cs)
    (hx : expandRanges cs = .ok source) (hp : hasTwoPoints source = false) (hne : source ≠ [])
    (scope : String) : compiled? scope (String.ofList cs) =
      (grammar.tree? alphabet scope source).bind fun e => if firstMisfit? e = none then
        some ⟨String.ofList cs, Program.ofExpr (String.ofList cs) e⟩ else none := by
  have hexpanded : expanded? (String.ofList cs) = some (String.ofList source) := by
    rw [expanded?, String.toList_ofList, hx, Except.toOption, Option.bind_some, hp]
    rfl
  rw [compiled?, hs.compact_ofList, hexpanded, Option.bind_some, if_neg (Text.ofList_ne_empty hne),
    String.toList_ofList]

namespace Name

variable (n : Name) (scope : String)

/-- No range stands in a name, and no points. -/
theorem compiled?_condition : Condition.compiled? scope n.text =
    (Condition.grammar.tree? Condition.alphabet scope n.chars).bind fun e =>
      if Condition.firstMisfit? e = none then some ⟨n.text, Program.ofExpr n.text e⟩ else none := by
  have hexpand : expandRanges n.chars = .ok n.chars :=
    expandRanges_of_append
      (expandRanges_append_of_continuesWord (fun _ => n.continuesWord) nofun nofun)
  have hpoints : hasTwoPoints n.chars = false := by
    have hplain : ∀ c ∈ n.chars, c ≠ '.' := by
      rintro c hc rfl
      exact absurd (n.continuesWord hc) (by decide)
    have happend := hasTwoPoints_append hplain []
    rwa [List.append_nil] at happend
  exact Condition.compiled?_of_solid n.solid hexpand hpoints n.ne_nil scope

/-- As an expression, a name is compiled from the tree that it is read as. -/
theorem compiled?_arithmetic : Arithmetic.compiled? scope n.text =
    (Arithmetic.grammar.tree? Arithmetic.alphabet scope n.chars).map (Program.ofExpr n.text) :=
  Arithmetic.compiled?_of_solid n.solid n.ne_nil scope

variable {n}

/-- **A name that starts with a letter or an underscore is compiled to the load of its
variable.** -/
theorem gives_of_isWord (h : n.IsWord) :
    (Arithmetic.compile scope n.text).Gives
        ((n.identifier? scope).map fun i => ⟨n.text, [.load i]⟩) ∧
      (Condition.compile scope (.string n.text)).Gives
        ((n.identifier? scope).map fun i => ⟨n.text, ⟨n.text, [.load i]⟩⟩) := by
  have ha := Arithmetic.gives_compile scope n.text
  have hc := Condition.gives_compile scope n.text
  rw [n.compiled?_arithmetic, tree?_of_isWord Arithmetic.spells h] at ha
  rw [n.compiled?_condition, tree?_of_isWord Condition.spells h] at hc
  constructor
  · cases hi : n.identifier? scope <;> rw [hi] at ha <;> exact ha
  · cases hi : n.identifier? scope <;> rw [hi] at hc <;> exact hc

/-- **A name that starts with a digit is compiled to a number or to nothing.** -/
theorem gives_of_not_isWord (h : ¬n.IsWord) :
    (Arithmetic.compile scope n.text).Gives (n.numeral?.map fun x => ⟨n.text, [.push x]⟩) ∧
      (Condition.compile scope (.string n.text)).Gives
        (n.numeral?.map fun x => ⟨n.text, ⟨n.text, [.push x]⟩⟩) := by
  have ha := Arithmetic.gives_compile scope n.text
  have hc := Condition.gives_compile scope n.text
  rw [n.compiled?_arithmetic, tree?_of_not_isWord Arithmetic.spells Arithmetic.ordinary h] at ha
  rw [n.compiled?_condition, tree?_of_not_isWord Condition.spells Condition.ordinary h] at hc
  constructor
  · cases hx : n.numeral? <;> rw [hx] at ha <;> exact ha
  · cases hx : n.numeral? <;> rw [hx] at hc <;> exact hc

end Name
end Gamebook
