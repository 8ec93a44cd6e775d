/-
# Ranges are replaced where they stand

Ranges are found in the text of a condition, before there are tokens.  They are
found nowhere else: behind a name there stands an equality sign only in a range
or in a comparison, and there what follows the sign is no bound, for a number is
followed by no two points (`NoBounds`).  So what `expandRanges` makes of a written
guard is the text of its tokens (`Guard.Written.expandRanges_append`), and in this
text no two points are left (`Condition.hasTwoPoints_append_of_writes`).
-/

import Gamebook.Proofs.Guards

namespace Gamebook

/-- A text that does not go on a name to a range. -/
def NoBounds (rest : List Char) : Prop :=
  ∀ bounds, rest = '=' :: bounds → WrittenRange.takeLow bounds = none

namespace WrittenRange

/-- Where no word starts, no range does. -/
theorem take?_eq_none {c : Char} (h : Lexeme.startsWord c = false) (cs : List Char) :
    take? (c :: cs) = none := by
  rw [take?, Lexeme.word_eq_none h]
  rfl

/-- A word is no range if no bounds stand behind it. -/
theorem take?_eq_none_of_noBounds {cs name rest : List Char}
    (hw : Lexeme.word cs = some (name, rest)) (hn : NoBounds rest) : take? cs = none := by
  simp only [take?, hw, Option.bind_eq_bind, Option.bind_some]
  split
  · rename_i bounds
    rw [hn bounds rfl]
    rfl
  · rfl

end WrittenRange

/-- What is no range is left as it is. -/
theorem expandRanges_cons {c : Char} {cs : List Char} (h : WrittenRange.take? (c :: cs) = none) :
    expandRanges (c :: cs) = (c :: ·) <$> expandRanges cs := by
  rw [expandRanges]
  split
  · rename_i r rest htake
    rw [h] at htake
    exact absurd htake (by simp)
  · rw [bind_pure_comp]

/-- What a text is replaced by, read off a statement with anything behind the text. -/
theorem expandRanges_of_append {cs text : List Char}
    (h : expandRanges (cs ++ []) = (text ++ ·) <$> expandRanges []) :
    expandRanges cs = .ok text := by
  have hnil : expandRanges [] = .ok [] := by rw [expandRanges]
  rw [List.append_nil, hnil] at h
  rw [h]
  exact congrArg _ (List.append_nil text)

/-- A range is replaced by its comparisons. -/
theorem expandRanges_of_take? {cs rest text : List Char} {r : WrittenRange}
    (h : WrittenRange.take? cs = some (r, rest)) (ht : r.comparisons? = some text) :
    expandRanges cs = (text ++ ·) <$> expandRanges rest := by
  cases cs with
  | nil => exact absurd h (by simp [WrittenRange.take?, Lexeme.word])
  | cons c cs =>
    rw [expandRanges]
    split
    · rename_i r' rest' htake
      rw [h] at htake
      obtain ⟨rfl, rfl⟩ := Prod.mk.inj (Option.some.inj htake)
      simp only [ht]
      rw [bind_pure_comp]
    · rename_i htake
      rw [h] at htake
      exact absurd htake (by simp)

/-- A text in which no word starts is left as it is. -/
theorem expandRanges_append_of_not_startsWord {cs : List Char}
    (h : ∀ c ∈ cs, Lexeme.startsWord c = false) (rest : List Char) :
    expandRanges (cs ++ rest) = (cs ++ ·) <$> expandRanges rest := by
  induction cs with
  | nil => simp
  | cons c cs ih =>
    have hc := h c (List.mem_cons_self ..)
    have hcs := ih fun d hd => h d (List.mem_cons_of_mem _ hd)
    rw [List.cons_append, expandRanges_cons (WrittenRange.take?_eq_none hc _), hcs,
      Functor.map_map]
    rfl

/-- A word with no bounds behind it is left as it is, from each of its
characters on. -/
theorem expandRanges_append_of_continuesWord {cs rest : List Char}
    (h : ∀ c ∈ cs, Lexeme.continuesWord c = true) (hs : Lexeme.Stops Lexeme.continuesWord rest)
    (hn : NoBounds rest) : expandRanges (cs ++ rest) = (cs ++ ·) <$> expandRanges rest := by
  induction cs with
  | nil => simp
  | cons c cs ih =>
    have hall : ∀ d ∈ cs, Lexeme.continuesWord d = true := fun d hd =>
      h d (List.mem_cons_of_mem _ hd)
    have htake : WrittenRange.take? (c :: (cs ++ rest)) = none := by
      cases hc : Lexeme.startsWord c with
      | false => exact WrittenRange.take?_eq_none hc _
      | true =>
        have hword : Lexeme.word (c :: (cs ++ rest)) = some (c :: cs, rest) := by
          rw [Lexeme.word, if_pos hc, Lexeme.takeWhile_of_stops hall hs,
            Lexeme.dropWhile_of_stops hall hs]
        exact WrittenRange.take?_eq_none_of_noBounds hword hn
    rw [List.cons_append, expandRanges_cons htake, ih hall, Functor.map_map]
    rfl

/-- What may stand behind a guard: nothing, a closing parenthesis, or a
connective. -/
def Closes (rest : List Char) : Prop := ∀ c ∈ rest.head?, c = ')' ∨ c = '&' ∨ c = '|'

namespace Closes

variable {rest : List Char}

/-- What closes a range ends a number and a word. -/
theorem ends (h : Closes rest) : Lexeme.Ends rest := by
  cases rest with
  | nil => exact .nil
  | cons c cs =>
    rcases h c rfl with rfl | rfl | rfl <;> exact .cons (by decide) cs

/-- What closes a range starts with a closing parenthesis or with a connective, if with anything. -/
theorem ne_cons (h : Closes rest) {d : Char} (hd : d ≠ ')' ∧ d ≠ '&' ∧ d ≠ '|')
    (behind : List Char) : rest ≠ d :: behind := by
  rintro rfl
  rcases h d rfl with rfl | rfl | rfl
  · exact hd.1 rfl
  · exact hd.2.1 rfl
  · exact hd.2.2 rfl

/-- What closes a range has no bounds of its own. -/
theorem noBounds (h : Closes rest) : NoBounds rest := fun bounds he =>
  absurd he (h.ne_cons (by decide) bounds)

/-- No number stands behind a guard. -/
theorem signed_eq_none (h : Closes rest) : Lexeme.signed rest = none := by
  cases rest with
  | nil => rfl
  | cons c cs =>
    rcases h c rfl with rfl | rfl | rfl <;>
      exact Lexeme.signed_eq_none (by decide) (by decide) cs

end Closes

/-- A lower bound that is no point is a number with two points behind it. -/
theorem WrittenRange.takeLow_cons {d : Char} {cs : List Char} (hd : d ≠ '.') :
    takeLow (d :: cs) =
      match Lexeme.signed (d :: cs) with
      | some (low, '.' :: '.' :: rest) => some (some low, rest)
      | _ => none := by
  unfold takeLow
  split
  · rename_i heq
    exact absurd (List.cons.inj heq).1 hd
  · rfl

namespace SignedNumeral

variable (n : SignedNumeral)

/-- A signed number starts with a digit or a minus sign. -/
theorem exists_cons : ∃ d cs, n.chars = d :: cs ∧ d ≠ '.' := by
  cases hn : n.isNegative with
  | false =>
    obtain ⟨d, cs, h, hd⟩ := n.magnitude.isDigit_head
    refine ⟨d, cs, by simp only [chars, hn, h]; rfl, ?_⟩
    rintro rfl
    exact absurd hd (by decide)
  | true => exact ⟨'-', n.magnitude.chars, by simp only [chars, hn, if_true], by decide⟩

/-- A number with two points behind it is a lower bound. -/
theorem takeLow_append (behind : List Char) :
    WrittenRange.takeLow (n.chars ++ '.' :: '.' :: behind) = some (some n.chars, behind) := by
  have hpoint : ∀ tail, '.' :: '.' :: behind = '.' :: tail → Lexeme.Stops Text.isDigit tail := by
    intro tail h
    obtain rfl := (List.cons.inj h).2
    exact .cons (by decide) _
  have hread := n.signed_append (.cons (by decide) _) hpoint
  obtain ⟨d, cs, hcs, hd⟩ := n.exists_cons
  rw [hcs, List.cons_append] at hread ⊢
  rw [WrittenRange.takeLow_cons hd]
  simp only [hread]

/-- A number with anything else behind it is none. -/
theorem takeLow_eq_none {rest : List Char} (hr : Closes rest) :
    WrittenRange.takeLow (n.chars ++ rest) = none := by
  have hread := n.signed_append hr.ends.digit hr.ends.point
  obtain ⟨d, cs, hcs, hd⟩ := n.exists_cons
  rw [hcs, List.cons_append] at hread ⊢
  rw [WrittenRange.takeLow_cons hd, hread]
  split
  · rename_i heq
    exact absurd (Prod.mk.inj (Option.some.inj heq)).2 (hr.ne_cons (by decide) _)
  · rfl

end SignedNumeral

/-- No word starts in a number. -/
theorem Numeral.startsWord_of_mem (n : Numeral) {c : Char} (h : c ∈ n.chars) :
    Lexeme.startsWord c = false := by
  have hdigit (ds : Digits) {c : Char} (h : c ∈ ds.chars) : Lexeme.startsWord c = false := by
    rw [Bool.eq_false_iff]
    intro hs
    exact absurd (ds.isDigit c h) (by simp [Lexeme.isDigit_of_startsWord hs])
  unfold chars at h
  split at h
  · exact hdigit _ h
  · rcases List.mem_append.1 h with h | h
    · exact hdigit _ h
    · rcases List.mem_cons.1 h with rfl | h
      · decide
      · exact hdigit _ h

/-- No word starts in a signed number. -/
theorem SignedNumeral.startsWord_of_mem (n : SignedNumeral) {c : Char} (h : c ∈ n.chars) :
    Lexeme.startsWord c = false := by
  unfold chars at h
  split at h
  · rcases List.mem_cons.1 h with rfl | h
    · decide
    · exact n.magnitude.startsWord_of_mem h
  · exact n.magnitude.startsWord_of_mem h

namespace Term

/-- How an operand of a condition is written. -/
abbrev chars (a : Term) : List Char := Atom.chars SignedNumeral.chars a

variable (a : Term) {rest : List Char}

/-- An operand with no bounds behind it is left as it is. -/
theorem expandRanges_append (hs : Lexeme.Stops Lexeme.continuesWord rest) (hn : NoBounds rest) :
    expandRanges (a.chars ++ rest) = (a.chars ++ ·) <$> expandRanges rest := by
  cases a with
  | number n => exact expandRanges_append_of_not_startsWord (fun _ => n.startsWord_of_mem) rest
  | «variable» v =>
    exact expandRanges_append_of_continuesWord (fun _ => v.name.continuesWord) hs hn

/-- An operand at the end of a guard is no bound. -/
theorem takeLow_eq_none (hr : Closes rest) : WrittenRange.takeLow (a.chars ++ rest) = none := by
  cases a with
  | number n => exact n.takeLow_eq_none hr
  | «variable» v =>
    obtain ⟨c, cs, hcs, hc, -⟩ := v.exists_cons
    have hne : c ≠ '.' := by
      rintro rfl
      exact absurd hc (by decide)
    show WrittenRange.takeLow (v.chars ++ rest) = none
    rw [hcs, List.cons_append, WrittenRange.takeLow_cons hne]
    simp only [Lexeme.signed_eq_none_of_startsWord hc]

end Term

namespace Comparison

variable (o : Comparison) {rest : List Char}

/-- A comparison ends a name. -/
theorem stops_symbol : Lexeme.Stops Lexeme.continuesWord (o.symbol.toList ++ rest) := by
  cases o <;> exact .cons (by decide) _

/-- Behind a name and a comparison there are no bounds. -/
theorem noBounds_symbol (a : Term) (hr : Closes rest) :
    NoBounds (o.symbol.toList ++ (a.chars ++ rest)) := by
  intro bounds h
  cases o with
  | same =>
    obtain rfl := (List.cons.inj h).2
    exact a.takeLow_eq_none hr
  | equal =>
    obtain rfl := (List.cons.inj h).2
    rfl
  | differ | less | atMost | greater | atLeast =>
    exact absurd (List.cons.inj h).1 (by decide)

end Comparison

/-- How a piece of a condition is written. -/
def Item.chars (i : Item) : List Char := i.pieces.flatten

namespace Bounds

/-- The range that bounds write for a variable. -/
def written (v : Variable) : Bounds → WrittenRange
  | atLeast low => ⟨v.chars, some low.chars, none⟩
  | atMost high => ⟨v.chars, none, some high.chars⟩
  | between low high => ⟨v.chars, some low.chars, some high.chars⟩

variable (v : Variable) (b : Bounds)

/-- A range means the comparisons that its tokens spell. -/
theorem comparisons?_written :
    (b.written v).comparisons? = some ((Item.range v b).tokens.flatMap Token.chars) := by
  cases b <;>
    simp [WrittenRange.comparisons?, written, Item.tokens, tokens, Term.token, Atom.chars]

/-- A range is found where it is written. -/
theorem take?_append {rest : List Char} (hr : Closes rest) :
    WrittenRange.take? ((Item.range v b).chars ++ rest) = some (b.written v, rest) := by
  have hword (bounds : List Char) :
      Lexeme.word (v.chars ++ '=' :: bounds) = some (v.chars, '=' :: bounds) :=
    v.word_append (.cons (by decide) bounds)
  have hpoints (behind : List Char) :
      WrittenRange.takeLow ('.' :: '.' :: behind) = some (none, behind) := rfl
  have hnumber (n : SignedNumeral) : Lexeme.signed (n.chars ++ rest) = some (n.chars, rest) :=
    n.signed_append hr.ends.digit hr.ends.point
  cases b with
  | atLeast low =>
    simp [Item.chars, Item.pieces, pieces, WrittenRange.take?, hword, low.takeLow_append,
      hr.signed_eq_none, written]
  | atMost high =>
    simp [Item.chars, Item.pieces, pieces, WrittenRange.take?, hword, hpoints, hnumber, written]
  | between low high =>
    simp [Item.chars, Item.pieces, pieces, WrittenRange.take?, hword, low.takeLow_append, hnumber,
      written]

end Bounds

/-- A token among pieces is written as it is alone. -/
@[simp] theorem Item.chars_token (t : Token) : (Item.token t).chars = t.chars :=
  List.append_nil _

/-- An operand is written as its token. -/
@[simp] theorem Term.chars_token (a : Term) : a.token.chars = a.chars :=
  Atom.chars_spell SignedNumeral.chars a

/-- A connective closes a guard. -/
theorem Connective.closes_symbol (o : Connective) (rest : List Char) :
    Closes (o.symbol.toList ++ rest) := by
  rintro c hc
  cases o with
  | and => exact .inr (.inl (Option.some.inj hc).symm)
  | or => exact .inr (.inr (Option.some.inj hc).symm)

/-- No word starts in an operator. -/
theorem startsWord_of_mem_operator {s : String} {c : Char}
    (h : s.toList.all (fun c => !Lexeme.startsWord c) = true) (hc : c ∈ s.toList) :
    Lexeme.startsWord c = false := by
  simpa using List.all_eq_true.1 h c hc

/-- **A written guard is replaced by its tokens**, whatever closes it. -/
theorem Guard.Written.expandRanges_append {d : Demand} {g : Guard} {is : List Item}
    (h : g.Written d is) {rest : List Char} (hr : Closes rest) :
    expandRanges (is.flatMap Item.chars ++ rest) =
      ((is.flatMap Item.tokens).flatMap Token.chars ++ ·) <$> expandRanges rest := by
  induction h generalizing rest with
  | operand d a =>
    simp only [List.flatMap_singleton, Item.chars_token, Term.chars_token, Item.tokens]
    exact a.expandRanges_append hr.ends.word hr.noBounds
  | compare hd o l r =>
    have hsymbol : ∀ c ∈ o.symbol.toList, Lexeme.startsWord c = false := fun _ =>
      startsWord_of_mem_operator (by cases o <;> decide)
    have hright := r.expandRanges_append hr.ends.word hr.noBounds
    have hleft := l.expandRanges_append o.stops_symbol (o.noBounds_symbol r hr)
    have hchars : [Item.token l.token, .token (.operator o.symbol), .token r.token].flatMap
        Item.chars ++ rest = l.chars ++ (o.symbol.toList ++ (r.chars ++ rest)) := by simp
    rw [hchars, hleft, expandRanges_append_of_not_startsWord hsymbol, hright]
    simp [Item.tokens]
  | range d v b =>
    rw [List.flatMap_singleton, List.flatMap_singleton]
    exact expandRanges_of_take? (b.take?_append v hr) (b.comparisons?_written v)
  | @group d g is h ih =>
    have hopen (cs : List Char) : expandRanges ('(' :: cs) = ('(' :: ·) <$> expandRanges cs :=
      expandRanges_cons (WrittenRange.take?_eq_none (by decide) cs)
    have hclose : expandRanges (')' :: rest) = (')' :: ·) <$> expandRanges rest :=
      expandRanges_cons (WrittenRange.take?_eq_none (by decide) rest)
    have hcloses : Closes (')' :: rest) := fun c hc => .inl (Option.some.inj hc).symm
    have hchars : (Item.token .opening :: (is ++ [.token .closing])).flatMap Item.chars ++ rest =
        '(' :: (is.flatMap Item.chars ++ ')' :: rest) := by simp
    rw [hchars, hopen, ih hcloses, hclose]
    simp [Item.tokens]
  | @not d g is h ih =>
    have hnot (cs : List Char) : expandRanges ('!' :: cs) = ('!' :: ·) <$> expandRanges cs :=
      expandRanges_cons (WrittenRange.take?_eq_none (by decide) cs)
    have hchars : (Item.token (.operator "!") :: is).flatMap Item.chars ++ rest =
        '!' :: (is.flatMap Item.chars ++ rest) := by simp
    rw [hchars, hnot, ih hr]
    simp [Item.tokens]
  | @connect d o hd l r il ir hl hr' ihl ihr =>
    have hsymbol : ∀ c ∈ o.symbol.toList, Lexeme.startsWord c = false := fun _ =>
      startsWord_of_mem_operator (by cases o <;> decide)
    have hchars : (il ++ Item.token (.operator o.symbol) :: ir).flatMap Item.chars ++ rest =
        il.flatMap Item.chars ++ (o.symbol.toList ++ (ir.flatMap Item.chars ++ rest)) := by simp
    rw [hchars, ihl (o.closes_symbol _), expandRanges_append_of_not_startsWord hsymbol, ihr hr]
    simp [Item.tokens]

/-- A character that is no point separates points. -/
theorem hasTwoPoints_cons {c : Char} (h : c ≠ '.') (cs : List Char) :
    hasTwoPoints (c :: cs) = hasTwoPoints cs := by
  rw [hasTwoPoints]
  intro _ heq
  exact absurd heq h

/-- A point stands alone in front of a character that is none. -/
theorem hasTwoPoints_point {d : Char} (h : d ≠ '.') (cs : List Char) :
    hasTwoPoints ('.' :: d :: cs) = hasTwoPoints (d :: cs) := by
  rw [hasTwoPoints]
  intro _ _ heq
  exact absurd (List.cons.inj heq).1 h

/-- A text without points brings no two of them together. -/
theorem hasTwoPoints_append {cs : List Char} (h : ∀ c ∈ cs, c ≠ '.') (rest : List Char) :
    hasTwoPoints (cs ++ rest) = hasTwoPoints rest := by
  induction cs with
  | nil => rfl
  | cons c cs ih =>
    have hc := h c (List.mem_cons_self ..)
    have hcs := ih fun d hd => h d (List.mem_cons_of_mem _ hd)
    rw [List.cons_append, hasTwoPoints_cons hc, hcs]

/-- An operator without points brings no two of them together. -/
theorem hasTwoPoints_append_operator {s : String} (h : s.toList.all (· != '.') = true)
    (rest : List Char) : hasTwoPoints (s.toList ++ rest) = hasTwoPoints rest :=
  hasTwoPoints_append (fun c hc => by simpa using List.all_eq_true.1 h c hc) rest

/-- Behind the point of a number there stands a digit. -/
theorem Numeral.hasTwoPoints_append (n : Numeral) (rest : List Char) :
    hasTwoPoints (n.chars ++ rest) = hasTwoPoints rest := by
  have hdigits (ds : Digits) (rest : List Char) :
      hasTwoPoints (ds.chars ++ rest) = hasTwoPoints rest :=
    Gamebook.hasTwoPoints_append (fun c hc => ds.ne_of_mem hc (by decide)) rest
  cases hf : n.fraction with
  | none =>
    simp only [chars, hf]
    exact hdigits n.whole rest
  | some f =>
    obtain ⟨d, cs, hcs, hd⟩ := f.exists_cons
    have hpoint : hasTwoPoints ('.' :: (f.chars ++ rest)) = hasTwoPoints (f.chars ++ rest) := by
      rw [hcs, List.cons_append]
      refine hasTwoPoints_point ?_ _
      rintro rfl
      exact absurd hd (by decide)
    simp only [chars, hf, List.append_assoc, List.cons_append]
    rw [hdigits, hpoint, hdigits]

/-- An operand brings no two points together. -/
theorem Term.hasTwoPoints_append (a : Term) (rest : List Char) :
    hasTwoPoints (a.chars ++ rest) = hasTwoPoints rest := by
  cases a with
  | number n =>
    show hasTwoPoints (n.chars ++ rest) = _
    unfold SignedNumeral.chars
    split
    · rw [List.cons_append, hasTwoPoints_cons (by decide), Numeral.hasTwoPoints_append]
    · exact n.magnitude.hasTwoPoints_append rest
  | «variable» v =>
    refine Gamebook.hasTwoPoints_append (fun c hc => ?_) rest
    rintro rfl
    exact absurd (v.name.continuesWord hc) (by decide)

namespace Condition

/-- The tokens of a condition bring no two points together. -/
theorem hasTwoPoints_append_of_writes {d : Demand} {t : Tree Term UnaryOp InfixOp}
    {ts : List Token} (h : Condition.Writes d t ts) (rest : List Char) :
    hasTwoPoints (ts.flatMap Token.chars ++ rest) = hasTwoPoints rest := by
  have hunary : ∀ u ∈ grammar.unary, u.1.toList.all (· != '.') = true := by decide
  have hbinary : ∀ b ∈ grammar.binary, b.1.toList.all (· != '.') = true := by decide
  induction h generalizing rest with
  | leaf d o =>
    rw [List.flatMap_singleton, Atom.chars_spell]
    exact o.hasTwoPoints_append rest
  | @group d t ts h ih =>
    have hchars : (Token.opening :: (ts ++ [.closing])).flatMap Token.chars ++ rest =
        '(' :: (ts.flatMap Token.chars ++ ')' :: rest) := by simp
    rw [hchars, hasTwoPoints_cons (by decide), ih, hasTwoPoints_cons (by decide)]
  | @unary d s op t ts hop h ih =>
    have hchars : (Token.operator s :: ts).flatMap Token.chars ++ rest =
        s.toList ++ (ts.flatMap Token.chars ++ rest) := by simp
    rw [hchars, hasTwoPoints_append_operator (hunary _ (Grammar.mem_of_lookup hop)), ih]
  | @binary d s op l r tl tr hop hd hl hr ihl ihr =>
    have hchars : (tl ++ Token.operator s :: tr).flatMap Token.chars ++ rest =
        tl.flatMap Token.chars ++ (s.toList ++ (tr.flatMap Token.chars ++ rest)) := by simp
    rw [hchars, ihl, hasTwoPoints_append_operator (hbinary _ (Grammar.mem_of_lookup hop)), ihr]

end Condition

end Gamebook
