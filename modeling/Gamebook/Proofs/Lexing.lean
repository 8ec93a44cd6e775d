/-
# Formulas are cut into their tokens

The texts of the tokens of a formula, one behind the other, are cut into these
tokens again (`Alphabet.Spells.tokens_of_writes`): behind an operand there stands
nothing that goes on a number or a word, and behind an operator no equality sign,
which would make another operator of it.  Both alphabets spell the formulas of
their grammars in this way (`Arithmetic.spells`, `Condition.spells`).

Blanks between the tokens are lost before (`Text.Spaced`).
-/

import Gamebook.Proofs.Operands
import Gamebook.Proofs.Writing
import Gamebook.Script.Action
import Gamebook.Script.Condition
import Mathlib.Data.List.Infix

namespace Gamebook

namespace Text

/-- A text without blanks. -/
def Solid (cs : List Char) : Prop := ∀ c ∈ cs, isBlank c = false

instance (cs : List Char) : Decidable (Solid cs) :=
  decidable_of_iff (cs.all (fun c => !isBlank c) = true) (by simp [Solid])

/-- A text without blanks is compact. -/
theorem Solid.compactChars_eq {cs : List Char} (h : Solid cs) : compactChars cs = cs :=
  List.filter_eq_self.2 fun c hc => by simp [h c hc]

/-- A text without blanks is compact. -/
theorem Solid.compact_ofList {cs : List Char} (h : Solid cs) :
    compact (String.ofList cs) = String.ofList cs := by
  rw [compact, String.toList_ofList, h.compactChars_eq]

/-- Texts without blanks have none together. -/
theorem Solid.append {a b : List Char} (ha : Solid a) (hb : Solid b) : Solid (a ++ b) := by
  intro c hc
  rcases List.mem_append.1 hc with hc | hc
  · exact ha c hc
  · exact hb c hc

/-- A character that is no blank in front of a text without blanks leaves it so. -/
theorem Solid.cons {c : Char} {cs : List Char} (hc : isBlank c = false) (h : Solid cs) :
    Solid (c :: cs) := by
  intro d hd
  rcases List.mem_cons.1 hd with rfl | hd
  · exact hc
  · exact h d hd

/-- Pieces without blanks have none together. -/
theorem Solid.flatten {pieces : List (List Char)} (h : ∀ p ∈ pieces, Solid p) :
    Solid pieces.flatten := by
  intro c hc
  obtain ⟨p, hp, hc⟩ := List.mem_flatten.1 hc
  exact h p hp c hc

/-- Pieces of text with any blanks before, between and behind them. -/
inductive Spaced : List (List Char) → List Char → Prop
  | nil (blanks : List Char) (h : blanks.all isBlank = true) : Spaced [] blanks
  | cons (blanks : List Char) {piece text : List Char} {pieces : List (List Char)}
      (h : blanks.all isBlank = true) (hrest : Spaced pieces text) :
      Spaced (piece :: pieces) (blanks ++ (piece ++ text))

/-- Compacting loses the blanks between the pieces and those in them. -/
theorem Spaced.compactChars_flatMap {pieces : List (List Char)} {text : List Char}
    (h : Spaced pieces text) : compactChars text = pieces.flatMap compactChars := by
  have hblank {blanks : List Char} (h : blanks.all isBlank = true) : compactChars blanks = [] :=
    List.filter_eq_nil_iff.2 fun c hc => by simp [List.all_eq_true.1 h c hc]
  induction h with
  | nil blanks h => exact hblank h
  | cons blanks h hrest ih =>
    rw [compactChars_append, compactChars_append, hblank h, ih, List.flatMap_cons,
      List.nil_append]

/-- Compacting loses the blanks between solid pieces and nothing else. -/
theorem Spaced.compactChars_eq {pieces : List (List Char)} {text : List Char}
    (h : Spaced pieces text) (hp : ∀ p ∈ pieces, Solid p) :
    compactChars text = pieces.flatten := by
  have hpieces : pieces.map compactChars = pieces.map id :=
    List.map_congr_left fun p hmem => (hp p hmem).compactChars_eq
  rw [h.compactChars_flatMap, List.flatMap_def, hpieces, List.map_id]

/-- A text with characters is not empty. -/
theorem ofList_ne_empty {cs : List Char} (h : cs ≠ []) : String.ofList cs ≠ "" := by
  intro he
  apply h
  rw [← String.toList_ofList (l := cs), he]
  rfl

end Text

/-- No digit is a blank. -/
theorem Digits.solid (ds : Digits) : Text.Solid ds.chars := fun c hc =>
  Text.isBlank_of_isDigit (ds.isDigit c hc)

/-- A number without a sign has no blanks. -/
theorem Numeral.solid (n : Numeral) : Text.Solid n.chars := by
  unfold chars
  split
  · exact n.whole.solid
  · rename_i f _
    exact n.whole.solid.append (f.solid.cons (by decide))

/-- A number has no blanks. -/
theorem SignedNumeral.solid (n : SignedNumeral) : Text.Solid n.chars := by
  unfold chars
  split
  · exact n.magnitude.solid.cons (by decide)
  · exact n.magnitude.solid

/-- A name has no blanks. -/
theorem Name.solid (n : Name) : Text.Solid n.chars := fun _ hc =>
  Lexeme.isBlank_of_continuesWord (n.continuesWord hc)

namespace Alphabet

/-- The first token of a text, and those behind it. -/
theorem tokens_of_next {a : Alphabet} {cs rest : List Char} {t : Token}
    (h : a.next cs = some (t, rest)) (hlt : rest.length < cs.length) :
    a.tokens cs = (t :: ·) <$> a.tokens rest := by
  cases cs with
  | nil => exact absurd hlt (Nat.not_lt_zero _)
  | cons c cs =>
    rw [tokens, h]
    simp only [if_pos (Nat.le_of_lt_succ hlt)]
    rw [bind_pure_comp]

/-- A token and those behind it, where its text is cut off. -/
theorem tokens_append_of_next {a : Alphabet} (text : List Char) {rest : List Char} {t : Token}
    {ts : List Token} (h : a.next (text ++ rest) = some (t, rest)) (hne : text ≠ [])
    (hts : a.tokens rest = .ok ts) : a.tokens (text ++ rest) = .ok (t :: ts) := by
  have hlt : rest.length < (text ++ rest).length := by
    have := List.length_pos_iff.2 hne
    rw [List.length_append]
    omega
  rw [tokens_of_next h hlt, hts]
  rfl

/-- Tokens that are cut apart where their texts stand next to each other. -/
inductive Legible (a : Alphabet) : List Token → Prop
  | nil : Legible a []
  | cons {t : Token} {ts : List Token} (hne : t.chars ≠ [])
      (h : a.next (t.chars ++ ts.flatMap Token.chars) = some (t, ts.flatMap Token.chars))
      (hts : Legible a ts) : Legible a (t :: ts)

/-- Legible tokens are cut apart. -/
theorem tokens_of_legible {a : Alphabet} {ts : List Token} (h : a.Legible ts) :
    a.tokens (ts.flatMap Token.chars) = .ok ts := by
  induction h with
  | nil => rw [List.flatMap_nil, tokens]
  | cons hne h hts ih => exact tokens_append_of_next _ h hne ih

/-- Tokens that an alphabet cuts apart are what a source is cut into. -/
theorem tokenize_eq {a : Alphabet} {place : Place} {cs : List Char} {ts : List Token}
    (h : a.tokens cs = .ok ts) : a.tokenize place (String.ofList cs) = pure ts := by
  rw [tokenize, String.toList_ofList, h]

variable {α β ω : Type}

/-- An alphabet whose tokens spell the formulas of a grammar. -/
structure Spells (a : Alphabet) (g : Grammar α β) (spell : ω → Operand) : Prop where
  operand : ∀ o rest, Lexeme.Ends rest →
    a.next ((Token.operand (spell o)).chars ++ rest) = some (.operand (spell o), rest)
  operand_opens : ∀ o, Lexeme.Opens (Token.operand (spell o)).chars
  opening : ∀ rest, a.next ('(' :: rest) = some (.opening, rest)
  closing : ∀ rest, a.next (')' :: rest) = some (.closing, rest)
  unary : ∀ u ∈ g.unary, ∀ rest, Lexeme.Opens rest →
    a.next (u.1.toList ++ rest) = some (.operator u.1, rest)
  unary_opens : ∀ u ∈ g.unary, Lexeme.Opens u.1.toList
  binary : ∀ b ∈ g.binary, ∀ rest, Lexeme.Opens rest →
    a.next (b.1.toList ++ rest) = some (.operator b.1, rest)
  binary_ends : ∀ b ∈ g.binary, ∀ rest, Lexeme.Ends (b.1.toList ++ rest)
  binary_ne_nil : ∀ b ∈ g.binary, b.1.toList ≠ []

namespace Spells

variable {a : Alphabet} {g : Grammar α β} {spell : ω → Operand} {d : Demand} {t : Tree ω α β}
  {ts : List Token}

/-- No formula starts with an equality sign. -/
theorem opens (ha : a.Spells g spell) (h : g.Writes spell d t ts) :
    Lexeme.Opens (ts.flatMap Token.chars) := by
  induction h with
  | leaf d o => exact (ha.operand_opens o).append []
  | group d h ih => exact ⟨'(', _, rfl, by decide⟩
  | unary d hop h ih => exact (ha.unary_opens _ (Grammar.mem_of_lookup hop)).append _
  | binary hop hd hl hr ihl ihr =>
    rw [List.flatMap_append]
    exact ihl.append _

/-- Formulas are legible in front of all that ends a number or a word. -/
theorem legible_append (ha : a.Spells g spell) (h : g.Writes spell d t ts) {rest : List Token}
    (hr : a.Legible rest) (he : Lexeme.Ends (rest.flatMap Token.chars)) :
    a.Legible (ts ++ rest) := by
  induction h generalizing rest with
  | leaf d o => exact .cons (ha.operand_opens o).ne_nil (ha.operand o _ he) hr
  | @group d t ts h ih =>
    have hclose : a.Legible (.closing :: rest) := .cons (by decide) (ha.closing _) hr
    have hin := ih hclose (.cons (by decide) _)
    rw [List.cons_append, List.append_assoc]
    exact .cons (by decide) (ha.opening _) hin
  | @unary d s op t ts hop h ih =>
    have hmem := Grammar.mem_of_lookup hop
    have hopens : Lexeme.Opens ((ts ++ rest).flatMap Token.chars) := by
      rw [List.flatMap_append]
      exact (ha.opens h).append _
    exact .cons (ha.unary_opens _ hmem).ne_nil (ha.unary _ hmem _ hopens) (ih hr he)
  | @binary d s op l r tl tr hop hd hl hr' ihl ihr =>
    have hmem := Grammar.mem_of_lookup hop
    have hopens : Lexeme.Opens ((tr ++ rest).flatMap Token.chars) := by
      rw [List.flatMap_append]
      exact (ha.opens hr').append _
    have hright : a.Legible (.operator s :: (tr ++ rest)) :=
      .cons (ha.binary_ne_nil _ hmem) (ha.binary _ hmem _ hopens) (ihr hr he)
    rw [List.append_assoc]
    exact ihl hright (ha.binary_ends _ hmem _)

/-- **The tokens of a formula are cut apart.** -/
theorem tokens_of_writes (ha : a.Spells g spell) (h : g.Writes spell d t ts) :
    a.tokens (ts.flatMap Token.chars) = .ok ts := by
  have hlegible := ha.legible_append h .nil .nil
  rw [List.append_nil] at hlegible
  exact tokens_of_legible hlegible

end Spells
end Alphabet

/-- The tokens of a formula have no blanks in them if its operands and its
operators have none. -/
theorem Grammar.Writes.solid {α β ω : Type} {g : Grammar α β} {spell : ω → Operand} {d : Demand}
    {t : Tree ω α β} {ts : List Token} (h : g.Writes spell d t ts)
    (ho : ∀ o, Text.Solid (Token.operand (spell o)).chars)
    (hu : ∀ u ∈ g.unary, Text.Solid u.1.toList) (hb : ∀ b ∈ g.binary, Text.Solid b.1.toList) :
    ∀ p ∈ ts.map Token.chars, Text.Solid p := by
  induction h with
  | leaf d o => simpa using ho o
  | group d h ih =>
    intro p hp
    simp only [List.map_cons, List.map_append, List.map_nil, List.mem_cons, List.mem_append,
      List.not_mem_nil, or_false] at hp
    rcases hp with rfl | hp | rfl
    · decide
    · exact ih p hp
    · decide
  | unary d hop h ih =>
    intro p hp
    rcases List.mem_cons.1 hp with rfl | hp
    · exact hu _ (mem_of_lookup hop)
    · exact ih p hp
  | binary hop hd hl hr ihl ihr =>
    intro p hp
    rw [List.map_append, List.map_cons] at hp
    rcases List.mem_append.1 hp with hp | hp
    · exact ihl p hp
    · rcases List.mem_cons.1 hp with rfl | hp
      · exact hb _ (mem_of_lookup hop)
      · exact ihr p hp

/-- The operator or the parenthesis at the front of a text. -/
def Alphabet.nextSign (a : Alphabet) (cs : List Char) : Option (Token × List Char) :=
  match Lexeme.symbol a.symbols cs with
  | some (text, rest) => some (.operator (String.ofList text), rest)
  | none =>
    match cs with
    | '(' :: rest => some (.opening, rest)
    | ')' :: rest => some (.closing, rest)
    | _ => none

/-- A sign comes last among the tokens. -/
theorem Alphabet.next_eq (a : Alphabet) (cs : List Char) : a.next cs =
    match a.number cs with
    | some (text, rest) => some (.operand (.number (String.ofList text)), rest)
    | none =>
      match Lexeme.word cs with
      | some (text, rest) => some (.operand (.word (String.ofList text)), rest)
      | none => a.nextSign cs := rfl

/-- What cuts a token off the front of a text. -/
inductive Alphabet.Takes (a : Alphabet) (cs : List Char) : Token → List Char → Prop
  | number {text rest : List Char} (h : a.number cs = some (text, rest)) :
      Takes a cs (.operand (.number (String.ofList text))) rest
  | word {text rest : List Char} (h : Lexeme.word cs = some (text, rest)) :
      Takes a cs (.operand (.word (String.ofList text))) rest
  | operator {text rest : List Char} (h : Lexeme.symbol a.symbols cs = some (text, rest)) :
      Takes a cs (.operator (String.ofList text)) rest
  | opening {rest : List Char} (h : cs = '(' :: rest) : Takes a cs .opening rest
  | closing {rest : List Char} (h : cs = ')' :: rest) : Takes a cs .closing rest

/-- What is cut off a text is a number, a word, an operator or a parenthesis, in the order in
which these are tried. -/
theorem Alphabet.takes_of_next {a : Alphabet} {cs rest : List Char} {t : Token}
    (h : a.next cs = some (t, rest)) : a.Takes cs t rest := by
  unfold next at h
  split at h
  · rename_i hnumber
    obtain ⟨rfl, rfl⟩ := Prod.mk.inj (Option.some.inj h)
    exact .number hnumber
  · split at h
    · rename_i hword
      obtain ⟨rfl, rfl⟩ := Prod.mk.inj (Option.some.inj h)
      exact .word hword
    · split at h
      · rename_i hsymbol
        obtain ⟨rfl, rfl⟩ := Prod.mk.inj (Option.some.inj h)
        exact .operator hsymbol
      · split at h
        · obtain ⟨rfl, rfl⟩ := Prod.mk.inj (Option.some.inj h)
          exact .opening rfl
        · obtain ⟨rfl, rfl⟩ := Prod.mk.inj (Option.some.inj h)
          exact .closing rfl
        · contradiction

/-- Where neither a number nor a word starts, a sign is next. -/
theorem Alphabet.next_eq_nextSign {a : Alphabet} {c : Char} {cs : List Char}
    (hn : a.number (c :: cs) = none) (hw : Lexeme.startsWord c = false) :
    a.next (c :: cs) = a.nextSign (c :: cs) := by
  rw [next_eq, hn, Lexeme.word_eq_none hw]

namespace Arithmetic

/-- A sign of arithmetic is next wherever it stands. -/
theorem next_of_sign {c : Char} {cs : List Char} {next : Token × List Char}
    (hc : Lexeme.isMark c = true) (h : alphabet.nextSign (c :: cs) = some next) :
    alphabet.next (c :: cs) = some next := by
  have hnumber : alphabet.number (c :: cs) = none :=
    Lexeme.unsigned_eq_none (.cons (Lexeme.isDigit_of_isMark hc) cs)
  rw [Alphabet.next_eq_nextSign hnumber (Lexeme.startsWord_of_isMark hc), h]

/-- **Arithmetic is spelt with its alphabet.** -/
theorem spells : alphabet.Spells grammar (Atom.spell Numeral.chars) where
  operand o rest he := by
    rw [Atom.chars_spell]
    cases o with
    | number n =>
      simp only [Alphabet.next, alphabet, Atom.chars, n.unsigned_append he.digit he.point, Atom.spell]
    | «variable» v =>
      obtain ⟨c, cs, hcs, hc, -⟩ := v.exists_cons
      have hnone : Lexeme.unsigned (v.chars ++ rest) = none := by
        rw [hcs]
        exact Lexeme.unsigned_eq_none (.cons (Lexeme.isDigit_of_startsWord hc) _)
      simp only [Alphabet.next, alphabet, Atom.chars, hnone, v.word_append he.word, Atom.spell]
  operand_opens o := by
    rw [Atom.chars_spell]
    cases o with
    | number n => exact n.opens
    | «variable» v => exact v.opens
  opening rest := next_of_sign (by decide) rfl
  closing rest := next_of_sign (by decide) rfl
  unary u hu rest _ := by
    simp only [grammar, List.mem_cons, List.not_mem_nil, or_false] at hu
    rcases hu with rfl | rfl <;> exact next_of_sign (by decide) rfl
  unary_opens u hu := by
    simp only [grammar, List.mem_cons, List.not_mem_nil, or_false] at hu
    rcases hu with rfl | rfl <;> exact ⟨_, _, rfl, by decide⟩
  binary b hb rest _ := by
    simp only [grammar, List.mem_cons, List.not_mem_nil, or_false] at hb
    rcases hb with rfl | rfl | rfl | rfl | rfl <;>
      exact next_of_sign (by decide) rfl
  binary_ends b hb rest := by
    simp only [grammar, List.mem_cons, List.not_mem_nil, or_false] at hb
    rcases hb with rfl | rfl | rfl | rfl | rfl <;>
      exact .cons (by decide) _
  binary_ne_nil := by decide

end Arithmetic

namespace Condition

/-- A sign of conditions is next wherever it stands. -/
theorem next_of_sign {c : Char} {cs : List Char} {next : Token × List Char}
    (hc : Lexeme.isMark c = true) (hm : c ≠ '-') (h : alphabet.nextSign (c :: cs) = some next) :
    alphabet.next (c :: cs) = some next := by
  have hnumber : alphabet.number (c :: cs) = none :=
    Lexeme.signed_eq_none (Lexeme.isDigit_of_isMark hc) hm cs
  rw [Alphabet.next_eq_nextSign hnumber (Lexeme.startsWord_of_isMark hc), h]

/-- **Conditions are spelt with their alphabet.** -/
theorem spells : alphabet.Spells grammar (Atom.spell SignedNumeral.chars) where
  operand o rest he := by
    rw [Atom.chars_spell]
    cases o with
    | number n =>
      simp only [Alphabet.next, alphabet, Atom.chars, n.signed_append he.digit he.point, Atom.spell]
    | «variable» v =>
      obtain ⟨c, cs, hcs, hc, -⟩ := v.exists_cons
      have hnone : Lexeme.signed (v.chars ++ rest) = none := by
        rw [hcs]
        exact Lexeme.signed_eq_none_of_startsWord hc _
      simp only [Alphabet.next, alphabet, Atom.chars, hnone, v.word_append he.word, Atom.spell]
  operand_opens o := by
    rw [Atom.chars_spell]
    cases o with
    | number n => exact n.opens
    | «variable» v => exact v.opens
  opening rest := next_of_sign (by decide) (by decide) rfl
  closing rest := next_of_sign (by decide) (by decide) rfl
  unary u hu rest ho := by
    simp only [grammar, List.mem_cons, List.not_mem_nil, or_false] at hu
    subst hu
    obtain ⟨c, rest, rfl, hc⟩ := ho
    have hsign : alphabet.nextSign ('!' :: c :: rest) = some (.operator "!", c :: rest) := by
      simp [Alphabet.nextSign, alphabet, Lexeme.symbol, List.isPrefixOf?, hc.symm]
    exact next_of_sign (by decide) (by decide) hsign
  unary_opens u hu := by
    simp only [grammar, List.mem_cons, List.not_mem_nil, or_false] at hu
    subst hu
    exact ⟨_, _, rfl, by decide⟩
  binary b hb rest ho := by
    obtain ⟨c, rest, rfl, hc⟩ := ho
    have hsign : alphabet.nextSign (b.1.toList ++ c :: rest) = some (.operator b.1, c :: rest) := by
      simp only [grammar, List.mem_cons, List.not_mem_nil, or_false] at hb
      rcases hb with rfl | rfl | rfl | rfl | rfl | rfl | rfl | rfl | rfl <;>
        simp [Alphabet.nextSign, alphabet, Lexeme.symbol, List.isPrefixOf?, hc.symm]
    simp only [grammar, List.mem_cons, List.not_mem_nil, or_false] at hb
    rcases hb with rfl | rfl | rfl | rfl | rfl | rfl | rfl | rfl | rfl <;>
      exact next_of_sign (by decide) (by decide) hsign
  binary_ends b hb rest := by
    simp only [grammar, List.mem_cons, List.not_mem_nil, or_false] at hb
    rcases hb with rfl | rfl | rfl | rfl | rfl | rfl | rfl | rfl | rfl <;>
      exact .cons (by decide) _
  binary_ne_nil := by decide

end Condition

end Gamebook
