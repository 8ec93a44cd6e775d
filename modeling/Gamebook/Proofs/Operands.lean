/-
# Operands as they are written

A number is digits of any script, with a fraction or without, and in conditions
a minus sign may stand before it; a variable is named by one segment or by two
with a colon between them, and the name starts with a letter or an underscore.

Such operands are taken whole from the front of a text, as long as what stands
behind them goes on neither a number nor a word (`Lexeme.Ends`), and they are
read as what they mean: a number as its value, a variable as the identifier of
its name inside the scope (`Atom.run_leaf`).
-/

import Gamebook.Proofs.Tree

namespace Gamebook

namespace Lexeme

/-- A letter lies between the first capital and the last small one. -/
theorem toNat_of_isAlpha {c : Char} (h : c.isAlpha = true) : 65 ≤ c.toNat ∧ c.toNat ≤ 122 := by
  have hdef : c.isAlpha =
      (decide (65 ≤ c.val ∧ c.val ≤ 90) || (decide (97 ≤ c.val) && decide (c.val ≤ 122))) := rfl
  have hc : c.val.toNat = c.toNat := rfl
  simp only [hdef, Bool.or_eq_true, Bool.and_eq_true, decide_eq_true_eq,
    UInt32.le_iff_toNat_le, hc] at h
  rcases h with ⟨hlo, hhi⟩ | ⟨hlo, hhi⟩
  · exact ⟨hlo, Nat.le_trans hhi (by decide)⟩
  · exact ⟨Nat.le_trans (by decide) hlo, hhi⟩

/-- What goes on a word lies between the digit zero and the letter z. -/
theorem toNat_of_continuesWord {c : Char} (h : continuesWord c = true) :
    48 ≤ c.toNat ∧ c.toNat ≤ 122 := by
  have hdef : continuesWord c = (c.isAlpha || c.isDigit || c == '_' || c == ':') := rfl
  simp only [hdef, Bool.or_eq_true, beq_iff_eq] at h
  rcases h with ((h | h) | rfl) | rfl
  · have := toNat_of_isAlpha h
    omega
  · obtain ⟨hlo, hhi⟩ := Char.isDigit_iff_toNat.1 h
    exact ⟨hlo, Nat.le_trans hhi (by decide)⟩
  · decide
  · decide

/-- What starts a word goes on one. -/
theorem continuesWord_of_startsWord {c : Char} (h : startsWord c = true) :
    continuesWord c = true := by
  have hdef : continuesWord c = (c.isAlpha || c.isDigit || c == '_' || c == ':') := rfl
  simp only [startsWord, Bool.or_eq_true] at h
  simp only [hdef, Bool.or_eq_true]
  rcases h with h | h
  · exact .inl (.inl (.inl h))
  · exact .inl (.inr h)

/-- What starts a word lies behind the digits. -/
theorem le_of_startsWord {c : Char} (h : startsWord c = true) : 65 ≤ c.toNat := by
  simp only [startsWord, Bool.or_eq_true, beq_iff_eq] at h
  rcases h with h | rfl
  · exact (toNat_of_isAlpha h).1
  · decide

/-- No digit starts a word. -/
theorem isDigit_of_startsWord {c : Char} (h : startsWord c = true) : Text.isDigit c = false := by
  have hlo := le_of_startsWord h
  have hhi := (toNat_of_continuesWord (continuesWord_of_startsWord h)).2
  rw [Bool.eq_false_iff]
  intro hd
  obtain ⟨z, hz, h1, h2⟩ := Text.exists_zero_of_isDigit hd
  have hapart : ∀ z ∈ Text.digitZeros, z + 10 ≤ 65 ∨ 122 < z := by decide
  have := hapart z hz
  omega

/-- What goes on a word is not blank. -/
theorem isBlank_of_continuesWord {c : Char} (h : continuesWord c = true) :
    Text.isBlank c = false := by
  obtain ⟨hlo, hhi⟩ := toNat_of_continuesWord h
  rw [Bool.eq_false_iff]
  intro hb
  obtain ⟨r, hr, h1, h2⟩ := Text.exists_range_of_inRanges hb
  have hapart : ∀ r ∈ Text.blankRanges, r.2 < 48 ∨ 122 < r.1 := by decide
  have := hapart r hr
  omega

/-- A text at whose front no character of a kind stands. -/
def Stops (p : Char → Bool) (rest : List Char) : Prop := ∀ c ∈ rest.head?, p c = false

/-- A character that is not of a kind stops that kind, whatever stands behind it. -/
theorem Stops.cons {p : Char → Bool} {c : Char} (h : p c = false) (rest : List Char) :
    Stops p (c :: rest) := by
  intro d hd
  obtain rfl : c = d := by simpa using hd
  exact h

/-- Characters of a kind are taken up to where they stop. -/
theorem takeWhile_of_stops {p : Char → Bool} {cs rest : List Char} (h : ∀ c ∈ cs, p c = true)
    (hr : Stops p rest) : (cs ++ rest).takeWhile p = cs := by
  rw [List.takeWhile_append_of_pos h]
  cases rest with
  | nil => simp
  | cons c rest =>
    have hc := hr c rfl
    simp [hc]

/-- Characters of a kind are dropped up to where they stop. -/
theorem dropWhile_of_stops {p : Char → Bool} {cs rest : List Char} (h : ∀ c ∈ cs, p c = true)
    (hr : Stops p rest) : (cs ++ rest).dropWhile p = rest := by
  rw [List.dropWhile_append_of_pos h]
  cases rest with
  | nil => simp
  | cons c rest =>
    have hc := hr c rfl
    simp [hc]

/-- Where no digit stands, none is taken. -/
theorem digits_eq_none {cs : List Char} (h : Stops Text.isDigit cs) : digits cs = none := by
  cases cs with
  | nil => rfl
  | cons c cs =>
    have hc := h c rfl
    simp [digits, hc]

/-- Where no digit stands, no number stands. -/
theorem unsigned_eq_none {cs : List Char} (h : Stops Text.isDigit cs) :
    unsigned cs = none := by
  rw [unsigned, digits_eq_none h]
  rfl

/-- Where no minus sign stands, a number has none. -/
theorem signed_of_ne {c : Char} (hc : c ≠ '-') (cs : List Char) :
    signed (c :: cs) = unsigned (c :: cs) := by
  rw [signed]
  intro tail h
  exact hc (List.cons.inj h).1

/-- Where neither a digit nor a minus sign stands, no signed number stands. -/
theorem signed_eq_none {c : Char} (hd : Text.isDigit c = false) (hc : c ≠ '-')
    (cs : List Char) : signed (c :: cs) = none := by
  rw [signed_of_ne hc]
  exact unsigned_eq_none (.cons hd cs)

/-- Where nothing that starts a word stands, no word stands. -/
theorem word_eq_none {c : Char} (h : startsWord c = false) (cs : List Char) :
    word (c :: cs) = none := by
  rw [word, if_neg (by simp [h])]

/-- What starts a word starts no signed number. -/
theorem signed_eq_none_of_startsWord {c : Char} (h : startsWord c = true) (cs : List Char) :
    signed (c :: cs) = none := by
  refine signed_eq_none (isDigit_of_startsWord h) ?_ cs
  rintro rfl
  exact absurd h (by decide)

/-- Whether a character belongs to no number and no word. -/
def isMark (c : Char) : Bool := !continuesWord c && !Text.isDigit c && c != '.'

/-- A mark goes on no word. -/
theorem continuesWord_of_isMark {c : Char} (h : isMark c = true) : continuesWord c = false := by
  simp only [isMark, Bool.and_eq_true, Bool.not_eq_true'] at h
  exact h.1.1

/-- A mark is no digit. -/
theorem isDigit_of_isMark {c : Char} (h : isMark c = true) : Text.isDigit c = false := by
  simp only [isMark, Bool.and_eq_true, Bool.not_eq_true'] at h
  exact h.1.2

/-- A mark is no decimal point. -/
theorem ne_point_of_isMark {c : Char} (h : isMark c = true) : c ≠ '.' := by
  simp only [isMark, Bool.and_eq_true, bne_iff_ne] at h
  exact h.2

/-- A mark starts no word, since it goes on none. -/
theorem startsWord_of_isMark {c : Char} (h : isMark c = true) : startsWord c = false := by
  rw [Bool.eq_false_iff]
  intro hstart
  have hmark := continuesWord_of_isMark h
  rw [continuesWord_of_startsWord hstart] at hmark
  exact Bool.noConfusion hmark

/-- What stands behind a number or a word and goes on neither. -/
structure Ends (rest : List Char) : Prop where
  word : Stops continuesWord rest
  digit : Stops Text.isDigit rest
  point : ∀ behind, rest = '.' :: behind → Stops Text.isDigit behind

namespace Ends

/-- A text has an end. -/
theorem nil : Ends [] := ⟨nofun, nofun, nofun⟩

/-- A character of no number and no word ends both. -/
theorem cons {c : Char} (hc : isMark c = true) (rest : List Char) : Ends (c :: rest) where
  word := .cons (continuesWord_of_isMark hc) rest
  digit := .cons (isDigit_of_isMark hc) rest
  point _ h := absurd (List.cons.inj h).1 (ne_point_of_isMark hc)

end Ends

/-- What may stand behind an operator: no equality sign, which could be the
end of the operator. -/
def Opens (cs : List Char) : Prop := ∃ c rest, cs = c :: rest ∧ c ≠ '='

/-- What may stand behind an operator may stand there with more behind it. -/
theorem Opens.append {cs : List Char} (h : Opens cs) (rest : List Char) :
    Opens (cs ++ rest) := by
  obtain ⟨c, cs, rfl, hc⟩ := h
  exact ⟨c, cs ++ rest, rfl, hc⟩

/-- Something stands behind an operator. -/
theorem Opens.ne_nil {cs : List Char} (h : Opens cs) : cs ≠ [] := by
  obtain ⟨c, cs, rfl, -⟩ := h
  exact List.cons_ne_nil _ _

end Lexeme

/-- One or more decimal digits. -/
structure Digits where
  chars : List Char
  ne_nil : chars ≠ []
  all_isDigit : chars.all Text.isDigit = true

/-- A number without a sign: digits and maybe a fraction. -/
structure Numeral where
  whole : Digits
  fraction : Option Digits

/-- A number with or without a minus sign. -/
structure SignedNumeral where
  isNegative : Bool
  magnitude : Numeral

/-- One or more letters, digits and underscores. -/
structure Segment where
  chars : List Char
  isWord : isWord chars = true

/-- An identifier as it is written, with or without a scope of its own. -/
inductive Name where
  | short (name : Segment)
  | full (scope name : Segment)

namespace Numeral

/-- The digits of the fraction. -/
def places (n : Numeral) : List Char := (n.fraction.map Digits.chars).getD []

/-- How a number is written. -/
def chars (n : Numeral) : List Char :=
  match n.fraction with
  | none => n.whole.chars
  | some f => n.whole.chars ++ '.' :: f.chars

/-- The value that a number writes. -/
def value (n : Numeral) : Float :=
  Decimal.ofScaled ⟨Text.digitsValue (n.whole.chars ++ n.places), -(n.places.length : Int)⟩

end Numeral

namespace SignedNumeral

/-- How a number is written. -/
def chars (n : SignedNumeral) : List Char :=
  if n.isNegative then '-' :: n.magnitude.chars else n.magnitude.chars

/-- The value that a number writes. -/
def value (n : SignedNumeral) : Float :=
  if n.isNegative then -n.magnitude.value else n.magnitude.value

end SignedNumeral

namespace Segment

/-- The text of a segment. -/
def text (s : Segment) : String := String.ofList s.chars

/-- A segment is made of letters, digits and underscores. -/
theorem isWordChar (s : Segment) {c : Char} (h : c ∈ s.chars) : isWordChar c = true := by
  have hs := s.isWord
  simp only [Gamebook.isWord, Bool.and_eq_true, List.all_eq_true] at hs
  exact hs.2 c h

/-- A segment has a character. -/
theorem ne_nil (s : Segment) : s.chars ≠ [] := by
  intro h
  have hs := s.isWord
  rw [h] at hs
  exact absurd hs (by decide)

/-- A segment is a segment of an identifier. -/
theorem isSegment_text (s : Segment) : isSegment s.text = true := by
  have hlast : s.chars.getLast? ≠ some '\n' := by
    intro h
    have := s.isWordChar (List.mem_of_getLast? h)
    exact absurd this (by decide)
  rw [isSegment, text, String.toList_ofList, isSegmentChars, if_neg hlast]
  exact s.isWord

/-- No colon stands in a segment. -/
theorem beq_colon (s : Segment) {c : Char} (h : c ∈ s.chars) : (c == ':') = false := by
  rw [beq_eq_false_iff_ne]
  rintro rfl
  exact absurd (s.isWordChar h) (by decide)

end Segment

namespace Name

/-- How a name is written. -/
def chars : Name → List Char
  | short name => name.chars
  | full scope name => scope.chars ++ ':' :: name.chars

/-- The identifier that a name means inside a scope. -/
def identifier (scope : String) (h : isSegment scope = true) : Name → Identifier
  | short name => ⟨scope, name.text, h, name.isSegment_text⟩
  | full own name => ⟨own.text, name.text, own.isSegment_text, name.isSegment_text⟩

/-- **A name is read as its identifier.** -/
theorem ofText?_chars {scope : String} (h : isSegment scope = true) (n : Name) :
    Identifier.ofText? scope (String.ofList n.chars) = some (n.identifier scope h) := by
  have hcolon : ((':' : Char) == ':') = true := by decide
  cases n with
  | short name =>
    have hsplit := List.splitOnP_eq_singleton fun c hc => name.beq_colon hc
    simp only [Identifier.ofText?, chars, String.toList_ofList, hsplit]
    exact dif_pos ⟨h, name.isSegment_text⟩
  | full own name =>
    have hsplit := List.splitOnP_append_cons_of_forall_mem
      (fun c hc => own.beq_colon hc) _ hcolon name.chars
    have hname := List.splitOnP_eq_singleton fun c hc => name.beq_colon hc
    simp only [Identifier.ofText?, chars, String.toList_ofList, hsplit, hname]
    exact dif_pos ⟨own.isSegment_text, name.isSegment_text⟩

end Name

namespace Digits

variable (ds : Digits)

/-- Digits are digits one by one. -/
theorem isDigit : ∀ c ∈ ds.chars, Text.isDigit c = true := List.all_eq_true.1 ds.all_isDigit

/-- A character that is no digit does not stand among digits. -/
theorem ne_of_mem {c : Char} (h : c ∈ ds.chars) {d : Char} (hd : Text.isDigit d = false) :
    c ≠ d := by
  rintro rfl
  exact absurd (ds.isDigit c h) (by simp [hd])

/-- The front of a text that starts with digits. -/
theorem exists_cons : ∃ d cs, ds.chars = d :: cs ∧ Text.isDigit d = true := by
  obtain ⟨d, cs, h⟩ := List.exists_cons_of_ne_nil ds.ne_nil
  exact ⟨d, cs, h, ds.isDigit d (h ▸ List.mem_cons_self ..)⟩

/-- Digits are taken up to where they stop. -/
theorem digits_append {rest : List Char} (h : Lexeme.Stops Text.isDigit rest) :
    Lexeme.digits (ds.chars ++ rest) = some (ds.chars, rest) := by
  obtain ⟨d, cs, hcs, -⟩ := ds.exists_cons
  rw [Lexeme.digits, Lexeme.takeWhile_of_stops ds.isDigit h, Lexeme.dropWhile_of_stops ds.isDigit h,
    hcs]

end Digits

namespace Numeral

variable (n : Numeral)

/-- A number without a sign starts with a digit. -/
theorem isDigit_head : ∃ d cs, n.chars = d :: cs ∧ Text.isDigit d = true := by
  obtain ⟨d, cs, h, hd⟩ := n.whole.exists_cons
  unfold chars
  split
  · exact ⟨d, cs, h, hd⟩
  · exact ⟨d, _, by rw [h, List.cons_append], hd⟩

/-- A number is taken up to where it ends. -/
theorem unsigned_append {rest : List Char} (h : Lexeme.Stops Text.isDigit rest)
    (hp : ∀ behind, rest = '.' :: behind → Lexeme.Stops Text.isDigit behind) :
    Lexeme.unsigned (n.chars ++ rest) = some (n.chars, rest) := by
  cases hf : n.fraction with
  | none =>
    simp only [chars, hf, Lexeme.unsigned, n.whole.digits_append h, Option.bind_eq_bind,
      Option.bind_some]
    split
    · rename_i behind
      rw [Lexeme.digits_eq_none (hp behind rfl)]
    · rfl
  | some f =>
    have hpoint : Lexeme.Stops Text.isDigit ('.' :: (f.chars ++ rest)) := .cons (by decide) _
    simp only [chars, hf, Lexeme.unsigned, List.append_assoc, List.cons_append,
      n.whole.digits_append hpoint, f.digits_append h, Option.bind_eq_bind, Option.bind_some]

/-- A number is no minus sign. -/
theorem signed_append {rest : List Char} (h : Lexeme.Stops Text.isDigit rest)
    (hp : ∀ behind, rest = '.' :: behind → Lexeme.Stops Text.isDigit behind) :
    Lexeme.signed (n.chars ++ rest) = some (n.chars, rest) := by
  have hun := n.unsigned_append h hp
  obtain ⟨d, cs, hcs, hd⟩ := n.isDigit_head
  have hne : d ≠ '-' := by
    rintro rfl
    exact absurd hd (by decide)
  rw [hcs, List.cons_append] at hun ⊢
  rw [Lexeme.signed_of_ne hne, hun]

/-- The point parts the digits of a number. -/
theorem splitAtFirst_chars :
    Text.splitAtFirst (· == '.') n.chars = (n.whole.chars, n.fraction.map Digits.chars) := by
  have hwhole : ∀ c ∈ n.whole.chars, (c == '.') = false := fun c hc =>
    beq_eq_false_iff_ne.2 (n.whole.ne_of_mem hc (by decide))
  cases hf : n.fraction with
  | none => simpa only [chars, hf, Option.map_none] using Text.splitAtFirst_eq_none hwhole
  | some f =>
    have h := Text.splitAtFirst_append hwhole (c := '.') (by decide) f.chars
    simpa only [chars, hf, Option.map_some] using h

/-- The value of a number is read off its text. -/
theorem numeralValue_chars : Expr.numeralValue (String.ofList n.chars) = n.value := by
  obtain ⟨d, cs, hcs, hd⟩ := n.isDigit_head
  have hne : d ≠ '-' := by
    rintro rfl
    exact absurd hd (by decide)
  rw [Expr.numeralValue, String.toList_ofList]
  split
  · rename_i tail heq
    exact absurd (List.cons.inj (hcs.symm.trans heq)).1 hne
  · simp only [splitAtFirst_chars]
    rfl

end Numeral

namespace SignedNumeral

variable (n : SignedNumeral)

/-- A signed number is taken up to where it ends. -/
theorem signed_append {rest : List Char} (h : Lexeme.Stops Text.isDigit rest)
    (hp : ∀ behind, rest = '.' :: behind → Lexeme.Stops Text.isDigit behind) :
    Lexeme.signed (n.chars ++ rest) = some (n.chars, rest) := by
  cases hn : n.isNegative with
  | false =>
    simp only [chars, hn]
    exact n.magnitude.signed_append h hp
  | true =>
    simp only [chars, hn, if_true, List.cons_append, Lexeme.signed,
      n.magnitude.unsigned_append h hp, Option.map_some]

/-- The value of a signed number is read off its text. -/
theorem numeralValue_chars : Expr.numeralValue (String.ofList n.chars) = n.value := by
  cases hn : n.isNegative with
  | false =>
    simp only [chars, value, hn]
    exact n.magnitude.numeralValue_chars
  | true =>
    simp only [chars, value, hn, if_true, Expr.numeralValue, String.toList_ofList,
      Numeral.splitAtFirst_chars]
    rfl

end SignedNumeral

/-- The name of a variable: it starts with a letter or an underscore. -/
structure Variable where
  name : Name
  starts : ∀ c ∈ name.chars.head?, Lexeme.startsWord c = true

/-- An operand as it is written, with numbers of a kind. -/
inductive Atom (ν : Type) where
  | number (n : ν)
  | «variable» (v : Variable)

namespace Name

/-- Every character of a name, the colon too, goes on a word. -/
theorem continuesWord (n : Name) {c : Char} (h : c ∈ n.chars) :
    Lexeme.continuesWord c = true := by
  have hseg (s : Segment) {c : Char} (h : c ∈ s.chars) : Lexeme.continuesWord c = true := by
    have hw := s.isWordChar h
    simp only [isWordChar] at hw
    simp only [Lexeme.continuesWord, hw, Bool.true_or]
  cases n with
  | short name => exact hseg name h
  | full own name =>
    rcases List.mem_append.1 h with h | h
    · exact hseg own h
    · rcases List.mem_cons.1 h with rfl | h
      · decide
      · exact hseg name h

/-- A name has a character. -/
theorem ne_nil (n : Name) : n.chars ≠ [] := by
  cases n with
  | short name => exact name.ne_nil
  | full own name => exact fun h => own.ne_nil (List.append_eq_nil_iff.1 h).1

end Name

namespace Variable

variable (v : Variable)

/-- How a variable is written. -/
def chars : List Char := v.name.chars

/-- A variable is a word: its first character starts one, and the others go on with it. -/
theorem exists_cons : ∃ c cs, v.chars = c :: cs ∧ Lexeme.startsWord c = true ∧
    ∀ d ∈ cs, Lexeme.continuesWord d = true := by
  obtain ⟨c, cs, h⟩ := List.exists_cons_of_ne_nil v.name.ne_nil
  refine ⟨c, cs, h, v.starts c (by rw [h]; rfl), fun d hd => v.name.continuesWord ?_⟩
  rw [h]
  exact List.mem_cons_of_mem _ hd

/-- A variable is taken up to where it ends. -/
theorem word_append {rest : List Char} (h : Lexeme.Stops Lexeme.continuesWord rest) :
    Lexeme.word (v.chars ++ rest) = some (v.chars, rest) := by
  obtain ⟨c, cs, hcs, hc, hall⟩ := v.exists_cons
  rw [hcs, List.cons_append, Lexeme.word, if_pos hc, Lexeme.takeWhile_of_stops hall h,
    Lexeme.dropWhile_of_stops hall h]

end Variable

/-- No variable starts with an equality sign. -/
theorem Variable.opens (v : Variable) : Lexeme.Opens v.chars := by
  obtain ⟨c, cs, h, hc, -⟩ := v.exists_cons
  refine ⟨c, cs, h, ?_⟩
  rintro rfl
  exact absurd hc (by decide)

/-- No number starts with an equality sign. -/
theorem Numeral.opens (n : Numeral) : Lexeme.Opens n.chars := by
  obtain ⟨d, cs, h, hd⟩ := n.isDigit_head
  refine ⟨d, cs, h, ?_⟩
  rintro rfl
  exact absurd hd (by decide)

/-- No signed number starts with an equality sign. -/
theorem SignedNumeral.opens (n : SignedNumeral) : Lexeme.Opens n.chars := by
  cases hn : n.isNegative with
  | false =>
    simp only [chars, hn]
    exact n.magnitude.opens
  | true =>
    simp only [chars, hn, if_true]
    exact ⟨'-', _, rfl, by decide⟩

/-- The characters of a token. -/
def Token.chars (t : Token) : List Char := t.text.toList

/-- An operator has the characters of its symbol. -/
@[simp] theorem Token.chars_operator (s : String) : (Token.operator s).chars = s.toList := rfl

/-- An opening parenthesis is one character. -/
@[simp] theorem Token.chars_opening : Token.opening.chars = ['('] := rfl

/-- A closing parenthesis is one character. -/
@[simp] theorem Token.chars_closing : Token.closing.chars = [')'] := rfl

namespace Atom

variable {ν : Type}

/-- How an operand is written. -/
def chars (write : ν → List Char) : Atom ν → List Char
  | number n => write n
  | «variable» v => v.chars

/-- The operand of a token. -/
def spell (write : ν → List Char) : Atom ν → Operand
  | number n => .number (String.ofList (write n))
  | «variable» v => .word (String.ofList v.chars)

/-- The token of an operand is written as the operand is. -/
@[simp] theorem chars_spell (write : ν → List Char) (a : Atom ν) :
    (Token.operand (a.spell write)).chars = a.chars write := by
  cases a <;> exact String.toList_ofList

/-- What an operand means inside a scope. -/
def meaning (value : ν → Float) (scope : String) (h : isSegment scope = true) : Atom ν → Expr
  | number n => .number (value n)
  | «variable» v => .variable (v.name.identifier scope h)

/-- **An operand is read as what it means.** -/
theorem run_leaf {write : ν → List Char} {value : ν → Float}
    (hv : ∀ n, Expr.numeralValue (String.ofList (write n)) = value n) {scope : String}
    (h : isSegment scope = true) (a : Atom ν) (c : Context) :
    ∃ raw, (Expr.leaf scope (a.spell write)).run c = .ok (a.meaning value scope h, c.visit raw) := by
  cases a with
  | number n =>
    refine ⟨c.identifier, ?_⟩
    rw [spell, Expr.leaf, hv]
    rfl
  | «variable» v =>
    refine ⟨.string (String.ofList v.chars), ?_⟩
    have hread := Identifier.resolve_eq_ok (v.name.ofText?_chars h) c
    exact Compile.run_bind_of_ok hread

end Atom

end Gamebook
