/-
# Tokens are cut off as long as they go

The tokens of each kind are written in texts of a class (`Language.Form`):

| kind | how it is written |
| --- | --- |
| number | digits, with a fraction or without; in conditions also with a minus sign |
| word | a letter or an underscore, and letters, digits, underscores and colons behind it |
| operator | one of the symbols of the alphabet |
| parenthesis | itself |

What takes a token from the front of a text takes the longest text of its class that stands
there, and takes nothing only where none stands (`Lexeme.Greedy`).  A fraction without digits
is left alone with its point, so this is more than a look at the next character.  For operators
it is a matter of the order in which the symbols are listed: none is listed before one that it
begins (`Lexeme.greedy_symbol`).

The first character of a token tells its kind (`Language.exists_cons_of_form`).  So in whatever
order the kinds are tried, one token at the most is the longest of its kind at the front of a
text, and this one is cut off (`Language.next_eq_some_iff`).  It stays the longest where the
text behind it is cut short.  So tokens that are all the longest where they stand are what their
text is cut into, and this is the only way in which a text is cut (`Language.tokens_eq_ok_iff`)
or refused (`Language.tokens_eq_error_iff`).
-/

import Gamebook.Proofs.Characters

namespace Gamebook

/-! ## The longest text of a class -/

namespace Lexeme

/-- A class of texts: how something is written. -/
abbrev Spelling := List Char → Prop

/-- The longest text of a class that stands at the front of another text. -/
structure Longest (p : Spelling) (text cs : List Char) : Prop where
  mem : p text
  stands : text <+: cs
  longest : ∀ other, p other → other <+: cs → other.length ≤ text.length

/-- What takes the longest text of a class: what it takes is of the class, and whatever of the
class stands at the front is a part of what it takes. -/
structure Greedy (p : Spelling) (take : Taker) : Prop where
  sound : ∀ {cs text rest}, take cs = some (text, rest) → p text ∧ cs = text ++ rest
  complete : ∀ {text cs}, p text → text <+: cs →
    ∃ taken rest, take cs = some (taken, rest) ∧ text <+: taken

namespace Longest

variable {p : Spelling} {text other cs cs' : List Char}

/-- A text starts with one longest text of a class. -/
theorem unique (h : Longest p text cs) (h' : Longest p other cs) : text = other :=
  (List.prefix_of_prefix_length_le h.stands h'.stands
    (h'.longest text h.mem h.stands)).eq_of_length_le (h.longest other h'.mem h'.stands)

/-- The longest text stays the longest where less stands behind it. -/
theorem shorten (h : Longest p text cs) (hshort : cs' <+: cs) (hstands : text <+: cs') :
    Longest p text cs' :=
  ⟨h.mem, hstands, fun other hmem hother => h.longest other hmem (hother.trans hshort)⟩

end Longest

namespace Greedy

variable {p : Spelling} {take : Taker} (h : Greedy p take) {cs text rest : List Char}

include h

/-- What is taken is the longest text of the class. -/
theorem longest (htake : take cs = some (text, rest)) : Longest p text cs := by
  obtain ⟨hmem, hcs⟩ := h.sound htake
  refine ⟨hmem, ⟨rest, hcs.symm⟩, fun other hother hstands => ?_⟩
  obtain ⟨taken, behind, htaken, hother⟩ := h.complete hother hstands
  obtain ⟨rfl, -⟩ := Prod.mk.inj (Option.some.inj (htaken.symm.trans htake))
  exact hother.length_le

/-- Nothing is taken only where nothing of the class stands. -/
theorem none_stands (htake : take cs = none) (hmem : p text) : ¬text <+: cs := by
  intro hstands
  obtain ⟨taken, rest, htaken, -⟩ := h.complete hmem hstands
  rw [htake] at htaken
  contradiction

end Greedy

/-! ## Numbers, words and operators -/

/-- A run at the front of a text is a part of the longest one. -/
theorem prefix_takeWhile {p : Char → Bool} {run cs : List Char} (hrun : ∀ c ∈ run, p c = true)
    (h : run <+: cs) : run <+: cs.takeWhile p := by
  obtain ⟨rest, rfl⟩ := h
  rw [List.takeWhile_append_of_pos hrun]
  exact List.prefix_append ..

/-- Digits are taken greedily. -/
theorem greedy_digits : Greedy (fun text => ∃ ds : Digits, ds.chars = text) digits where
  sound {cs text rest} h := by
    obtain ⟨hcs, -⟩ := inked_digits h
    unfold digits at h
    split at h
    · contradiction
    · rename_i hne
      obtain ⟨rfl, -⟩ := Prod.mk.inj (Option.some.inj h)
      exact ⟨⟨⟨_, hne, List.all_takeWhile⟩, rfl⟩, hcs⟩
  complete {text cs} := by
    rintro ⟨ds, rfl⟩ hstands
    have hrun := prefix_takeWhile ds.isDigit hstands
    have hne : cs.takeWhile Text.isDigit ≠ [] := fun hnil =>
      ds.ne_nil (List.prefix_nil.1 (hnil ▸ hrun))
    refine ⟨cs.takeWhile Text.isDigit, cs.dropWhile Text.isDigit, ?_, hrun⟩
    unfold digits
    split
    · contradiction
    · rfl

/-- Digits are taken, with a fraction or without. -/
theorem exists_unsigned_of_digits {cs whole rest : List Char}
    (h : digits cs = some (whole, rest)) :
    ∃ places after, unsigned cs = some (whole ++ places, after) := by
  simp only [unsigned, h, Option.bind_eq_bind, Option.bind_some]
  split
  · split
    · exact ⟨_, _, rfl⟩
    · exact ⟨[], _, by rw [List.append_nil]⟩
  · exact ⟨[], _, by rw [List.append_nil]⟩

/-- A number is taken with its fraction, if it has one. -/
theorem greedy_unsigned : Greedy (fun text => ∃ n : Numeral, n.chars = text) unsigned where
  sound {cs text rest} h := by
    refine ⟨?_, (inked_unsigned h).1⟩
    simp only [unsigned, Option.bind_eq_bind, Option.bind_eq_some_iff] at h
    obtain ⟨⟨whole, behind⟩, hwhole, h⟩ := h
    obtain ⟨⟨ds, rfl⟩, -⟩ := greedy_digits.sound hwhole
    simp only at h
    split at h
    · split at h
      · rename_i fraction after hfraction
        obtain ⟨⟨fs, rfl⟩, -⟩ := greedy_digits.sound hfraction
        obtain ⟨rfl, -⟩ := Prod.mk.inj (Option.some.inj h)
        exact ⟨⟨ds, some fs⟩, rfl⟩
      · obtain ⟨rfl, -⟩ := Prod.mk.inj (Option.some.inj h)
        exact ⟨⟨ds, none⟩, rfl⟩
    · obtain ⟨rfl, -⟩ := Prod.mk.inj (Option.some.inj h)
      exact ⟨⟨ds, none⟩, rfl⟩
  complete {text cs} := by
    rintro ⟨⟨ds, fraction⟩, rfl⟩ ⟨behind, rfl⟩
    cases fraction with
    | none =>
      show ∃ taken rest, unsigned (ds.chars ++ behind) = some (taken, rest) ∧ ds.chars <+: taken
      obtain ⟨whole, rest, hwhole, hds⟩ :=
        greedy_digits.complete ⟨ds, rfl⟩ (List.prefix_append ds.chars behind)
      obtain ⟨places, after, htaken⟩ := exists_unsigned_of_digits hwhole
      exact ⟨whole ++ places, after, htaken, hds.trans (List.prefix_append ..)⟩
    | some fs =>
      -- the point ends the whole digits, and the digits behind it are taken as far as they go
      have hwhole : digits (ds.chars ++ '.' :: (fs.chars ++ behind)) =
          some (ds.chars, '.' :: (fs.chars ++ behind)) := ds.digits_append (.cons (by decide) _)
      obtain ⟨places, after, hplaces, hfs⟩ :=
        greedy_digits.complete ⟨fs, rfl⟩ (List.prefix_append fs.chars behind)
      refine ⟨ds.chars ++ '.' :: places, after, ?_, ?_⟩
      · simp [Numeral.chars, unsigned, hwhole, hplaces]
      · exact (List.prefix_append_right_inj _).2 (List.cons_prefix_cons.2 ⟨rfl, hfs⟩)

/-- The minus sign of a number is taken with it. -/
theorem greedy_signed : Greedy (fun text => ∃ n : SignedNumeral, n.chars = text) signed where
  sound {cs text rest} h := by
    refine ⟨?_, (inked_signed h).1⟩
    unfold signed at h
    split at h
    · obtain ⟨⟨number, after⟩, hnumber, h⟩ := Option.map_eq_some_iff.1 h
      obtain ⟨rfl, -⟩ := Prod.mk.inj h
      obtain ⟨⟨n, rfl⟩, -⟩ := greedy_unsigned.sound hnumber
      exact ⟨⟨true, n⟩, rfl⟩
    · obtain ⟨⟨n, rfl⟩, -⟩ := greedy_unsigned.sound h
      exact ⟨⟨false, n⟩, rfl⟩
  complete {text cs} := by
    rintro ⟨⟨isNegative, n⟩, rfl⟩ ⟨behind, rfl⟩
    obtain ⟨number, rest, hnumber, hn⟩ :=
      greedy_unsigned.complete ⟨n, rfl⟩ (List.prefix_append n.chars behind)
    cases isNegative with
    | true =>
      show ∃ taken rest, signed ('-' :: (n.chars ++ behind)) = some (taken, rest) ∧
        '-' :: n.chars <+: taken
      exact ⟨'-' :: number, rest, by simp [signed, hnumber], List.cons_prefix_cons.2 ⟨rfl, hn⟩⟩
    | false =>
      show ∃ taken rest, signed (n.chars ++ behind) = some (taken, rest) ∧ n.chars <+: taken
      refine ⟨number, rest, ?_, hn⟩
      obtain ⟨d, ds, hds, hd⟩ := n.isDigit_head
      rw [← hnumber, hds, List.cons_append]
      exact signed_of_ne (by rintro rfl; exact absurd hd (by decide)) _

/-- How words are written. -/
def IsWord (text : List Char) : Prop :=
  ∃ c cs, text = c :: cs ∧ startsWord c = true ∧ ∀ d ∈ cs, continuesWord d = true

/-- Words are taken greedily. -/
theorem greedy_word : Greedy IsWord word where
  sound {cs text rest} h := by
    refine ⟨?_, (inked_word h).1⟩
    unfold word at h
    split at h
    · contradiction
    · split at h
      · rename_i hstart
        obtain ⟨rfl, -⟩ := Prod.mk.inj (Option.some.inj h)
        exact ⟨_, _, rfl, hstart, List.all_eq_true.1 List.all_takeWhile⟩
      · contradiction
  complete {text cs} := by
    rintro ⟨c, run, rfl, hstart, hrun⟩ ⟨behind, rfl⟩
    have hprefix := prefix_takeWhile hrun (List.prefix_append run behind)
    exact ⟨_, _, if_pos hstart, List.cons_prefix_cons.2 ⟨rfl, hprefix⟩⟩

/-- The first listed symbol that a text starts with is the longest one if no symbol is listed
before one that it begins. -/
theorem greedy_symbol {symbols : List String}
    (h : symbols.Pairwise fun s t => ¬s.toList <+: t.toList) :
    Greedy (fun text => ∃ s ∈ symbols, s.toList = text) (symbol symbols) where
  sound {cs text rest} htake := by
    obtain ⟨s, hs, htake⟩ := List.exists_of_findSome?_eq_some htake
    obtain ⟨after, hafter, htake⟩ := Option.map_eq_some_iff.1 htake
    obtain ⟨rfl, rfl⟩ := Prod.mk.inj htake
    exact ⟨⟨s, hs, rfl⟩, (List.append_eq_of_isPrefixOf?_eq_some hafter).symm⟩
  complete {text cs} := by
    rintro ⟨t, ht, rfl⟩ hstands
    induction symbols with
    | nil => contradiction
    | cons s symbols ih =>
      obtain ⟨hfirst, hothers⟩ := List.pairwise_cons.1 h
      cases hafter : s.toList.isPrefixOf? cs with
      | some rest =>
        -- of two symbols that the text starts with, one begins the other
        have hs : s.toList <+: cs := ⟨rest, List.append_eq_of_isPrefixOf?_eq_some hafter⟩
        refine ⟨s.toList, rest, by simp [symbol, hafter], ?_⟩
        rcases List.mem_cons.1 ht with rfl | ht
        · exact List.prefix_rfl
        · have hone := List.prefix_or_prefix_of_prefix hstands hs
          exact hone.resolve_right (hfirst t ht)
      | none =>
        have hne : t ≠ s := by
          rintro rfl
          obtain ⟨rest, rfl⟩ := hstands
          rw [List.isPrefixOf?_eq_some_iff_append_eq.2 rfl] at hafter
          contradiction
        obtain ⟨taken, rest, htaken, hprefix⟩ := ih hothers ((List.mem_cons.1 ht).resolve_left hne)
        exact ⟨taken, rest, by simpa [symbol, hafter] using htaken, hprefix⟩

end Lexeme

/-! ## The tokens of a language -/

/-- What a token can be. -/
inductive Token.Kind where
  | number
  | word
  | operator
  | opening
  | closing
  deriving Repr, DecidableEq

namespace Token

/-- The kind of a token. -/
def kind : Token → Kind
  | operand (.number _) => .number
  | operand (.word _) => .word
  | operator _ => .operator
  | opening => .opening
  | closing => .closing

/-- A token is its kind and its text. -/
theorem eq_of_kind_of_chars {t u : Token} (hkind : t.kind = u.kind) (hchars : t.chars = u.chars) :
    t = u := by
  have htext : t.text = u.text := String.toList_inj.1 hchars
  match t, u with
  | operand (.number _), operand (.number _) => exact congrArg (operand ∘ .number) htext
  | operand (.word _), operand (.word _) => exact congrArg (operand ∘ .word) htext
  | operator _, operator _ => exact congrArg operator htext
  | opening, opening => rfl
  | closing, closing => rfl

end Token

/-- The two languages of formulas. -/
inductive Language where
  | arithmetic
  | conditions
  deriving Repr, DecidableEq

namespace Language

open Lexeme

/-- The alphabet that a language is cut with. -/
def alphabet : Language → Alphabet
  | arithmetic => Arithmetic.alphabet
  | conditions => Condition.alphabet

/-- How numbers are written. -/
def IsNumber : Language → Spelling
  | arithmetic, text => ∃ n : Numeral, n.chars = text
  | conditions, text => ∃ n : SignedNumeral, n.chars = text

/-- How the tokens of a kind are written. -/
def Form (l : Language) : Token.Kind → Spelling
  | .number, text => l.IsNumber text
  | .word, text => IsWord text
  | .operator, text => ∃ s ∈ l.alphabet.symbols, s.toList = text
  | .opening, text => text = ['(']
  | .closing, text => text = [')']

/-- Whether a token can start at the front of a text. -/
def Starts (l : Language) (cs : List Char) : Prop := ∃ k text, l.Form k text ∧ text <+: cs

/-- Whether a token stands at the front of a text and no longer one of its kind does. -/
def IsLongest (l : Language) (t : Token) (cs : List Char) : Prop :=
  Longest (l.Form t.kind) t.chars cs

/-- Tokens with a rest behind them, each the longest of its kind where it stands. -/
def AllLongest (l : Language) (ts : List Token) (rest : List Char) : Prop :=
  ∀ before t behind, ts = before ++ t :: behind →
    l.IsLongest t ((t :: behind).flatMap Token.chars ++ rest)

/-- The kind of the tokens that start with a character. -/
def kindAt (l : Language) (c : Char) : Token.Kind :=
  if Text.isDigit c then .number
  else if startsWord c then .word
  else if c = '(' then .opening
  else if c = ')' then .closing
  else if l = conditions ∧ c = '-' then .number
  else .operator

variable {l : Language} {k k' : Token.Kind} {text text' cs rest : List Char} {t : Token}
  {ts : List Token}

/-- Numbers are taken greedily in both languages, with a sign in one of them. -/
theorem greedy_number (l : Language) : Greedy l.IsNumber l.alphabet.number :=
  match l with
  | arithmetic => greedy_unsigned
  | conditions => greedy_signed

/-- Operators are taken greedily: a symbol that begins with another one is tried before it. -/
theorem greedy_operator (l : Language) :
    Greedy (l.Form .operator) (symbol l.alphabet.symbols) :=
  match l with
  | arithmetic => greedy_symbol (by decide)
  | conditions => greedy_symbol (by decide)

/-- **The first character of a token tells its kind.** -/
theorem exists_cons_of_form (h : l.Form k text) : ∃ c cs, text = c :: cs ∧ l.kindAt c = k := by
  have hdigit {c : Char} (hc : Text.isDigit c = true) : l.kindAt c = .number := if_pos hc
  cases k with
  | number =>
    cases l with
    | arithmetic =>
      obtain ⟨n, rfl⟩ := h
      obtain ⟨d, ds, hds, hd⟩ := n.isDigit_head
      exact ⟨d, ds, hds, hdigit hd⟩
    | conditions =>
      obtain ⟨⟨isNegative, n⟩, rfl⟩ := h
      cases isNegative with
      | true => exact ⟨'-', n.chars, rfl, by decide⟩
      | false =>
        obtain ⟨d, ds, hds, hd⟩ := n.isDigit_head
        exact ⟨d, ds, hds, hdigit hd⟩
  | word =>
    obtain ⟨c, cs, rfl, hstart, -⟩ := h
    exact ⟨c, cs, rfl, by simp [kindAt, isDigit_of_startsWord hstart, hstart]⟩
  | operator =>
    obtain ⟨s, hs, rfl⟩ := h
    have hall : ∀ s ∈ l.alphabet.symbols, s.toList.head?.map l.kindAt = some .operator := by
      cases l <;> decide
    obtain ⟨c, hc, hkind⟩ := Option.map_eq_some_iff.1 (hall s hs)
    obtain ⟨cs, hcs⟩ := List.head?_eq_some_iff.1 hc
    exact ⟨c, cs, hcs, hkind⟩
  | opening => exact ⟨'(', [], h, by cases l <;> decide⟩
  | closing => exact ⟨')', [], h, by cases l <;> decide⟩

/-- No token is written without characters. -/
theorem ne_nil_of_form (h : l.Form k text) : text ≠ [] := by
  obtain ⟨c, cs, rfl, -⟩ := exists_cons_of_form h
  exact List.cons_ne_nil c cs

/-- Tokens of one kind only start at the front of a text. -/
theorem kind_eq (h : l.Form k text) (hstands : text <+: cs) (h' : l.Form k' text')
    (hstands' : text' <+: cs) : k = k' := by
  obtain ⟨c, front, rfl, rfl⟩ := exists_cons_of_form h
  obtain ⟨d, front', rfl, rfl⟩ := exists_cons_of_form h'
  obtain ⟨behind, rfl⟩ := hstands
  rw [(List.cons_prefix_cons.1 hstands').1]

/-- No token starts at the end of a text. -/
theorem not_starts_nil : ¬l.Starts [] := by
  rintro ⟨k, text, hform, hstands⟩
  exact ne_nil_of_form hform (List.prefix_nil.1 hstands)

/-! ## The token at the front of a text -/

/-- What takes the tokens of a kind greedily takes the longest one, and leaves what stands behind
it. -/
theorem isLongest_of_take {take : Taker} (hgreedy : Greedy (l.Form t.kind) take)
    (htext : t.text = String.ofList text) (htake : take cs = some (text, rest)) :
    l.IsLongest t cs ∧ cs = t.chars ++ rest := by
  obtain rfl : t.chars = text := by rw [Token.chars, htext, String.toList_ofList]
  exact ⟨hgreedy.longest htake, (hgreedy.sound htake).2⟩

/-- The only text of a class is the longest one. -/
theorem longest_singleton (c : Char) (rest : List Char) : Longest (· = [c]) [c] (c :: rest) :=
  ⟨rfl, ⟨rest, rfl⟩, by rintro _ rfl _; exact Nat.le_refl _⟩

/-- What is cut off the front of a text is the longest token of its kind. -/
theorem isLongest_of_next (h : l.alphabet.next cs = some (t, rest)) :
    l.IsLongest t cs ∧ cs = t.chars ++ rest := by
  cases Alphabet.takes_of_next h with
  | number h => exact isLongest_of_take (greedy_number l) rfl h
  | word h => exact isLongest_of_take greedy_word rfl h
  | operator h => exact isLongest_of_take (greedy_operator l) rfl h
  | opening h => exact ⟨h ▸ longest_singleton '(' rest, h⟩
  | closing h => exact ⟨h ▸ longest_singleton ')' rest, h⟩

/-- Where nothing is cut off, no token starts. -/
theorem not_starts_of_next (h : l.alphabet.next cs = none) : ¬l.Starts cs := by
  rintro ⟨k, text, hform, hstands⟩
  rw [Alphabet.next_eq] at h
  split at h
  · contradiction
  · rename_i hnumber
    split at h
    · contradiction
    · rename_i hword
      unfold Alphabet.nextSign at h
      split at h
      · contradiction
      · rename_i hsymbol
        cases k with
        | number => exact (greedy_number l).none_stands hnumber hform hstands
        | word => exact greedy_word.none_stands hword hform hstands
        | operator => exact (greedy_operator l).none_stands hsymbol hform hstands
        | opening =>
          obtain rfl : text = ['('] := hform
          obtain ⟨behind, rfl⟩ := hstands
          contradiction
        | closing =>
          obtain rfl : text = [')'] := hform
          obtain ⟨behind, rfl⟩ := hstands
          contradiction

/-- Where a longest token stands, a token starts. -/
theorem starts_of_isLongest (h : l.IsLongest t cs) : l.Starts cs := ⟨_, _, h.mem, h.stands⟩

/-- Nothing is cut off exactly where no token starts. -/
theorem next_eq_none_iff : l.alphabet.next cs = none ↔ ¬l.Starts cs := by
  refine ⟨not_starts_of_next, fun h => ?_⟩
  cases hnext : l.alphabet.next cs with
  | none => rfl
  | some taken => exact absurd (starts_of_isLongest (isLongest_of_next hnext).1) h

/-- **One token is the longest of its kind at the front of a text, and it is cut off.** -/
theorem next_eq_some_iff : l.alphabet.next cs = some (t, rest) ↔
    l.IsLongest t cs ∧ cs = t.chars ++ rest := by
  refine ⟨isLongest_of_next, ?_⟩
  rintro ⟨hlongest, hcs⟩
  cases hnext : l.alphabet.next cs with
  | none => exact absurd (starts_of_isLongest hlongest) (not_starts_of_next hnext)
  | some taken =>
    obtain ⟨u, behind⟩ := taken
    obtain ⟨hu, hcs'⟩ := isLongest_of_next hnext
    have hkind : t.kind = u.kind := kind_eq hlongest.mem hlongest.stands hu.mem hu.stands
    have hchars : t.chars = u.chars := hlongest.unique (by rw [hkind]; exact hu)
    obtain rfl := Token.eq_of_kind_of_chars hkind hchars
    rw [List.append_cancel_left (hcs.symm.trans hcs')]

/-- A longest token has a character. -/
theorem ne_nil_of_isLongest (h : l.IsLongest t cs) : t.chars ≠ [] := ne_nil_of_form h.mem

/-! ## The tokens of a text -/

/-- Tokens are all longest just if the first one is, with the others behind it, and they are. -/
theorem allLongest_cons : l.AllLongest (t :: ts) rest ↔
    l.IsLongest t ((t :: ts).flatMap Token.chars ++ rest) ∧ l.AllLongest ts rest := by
  constructor
  · intro h
    exact ⟨h [] t ts rfl, fun before u behind hu => h (t :: before) u behind (congrArg _ hu)⟩
  · rintro ⟨hfirst, hothers⟩ before u behind hu
    cases before with
    | nil =>
      obtain ⟨rfl, rfl⟩ := List.cons.inj hu
      exact hfirst
    | cons v before => exact hothers before u behind (List.cons.inj hu).2

/-- Tokens are not empty where each is the longest of its kind. -/
theorem text_ne_empty_of_allLongest (h : l.AllLongest ts rest) (ht : t ∈ ts) : t.text ≠ "" := by
  obtain ⟨before, behind, rfl⟩ := List.append_of_mem ht
  intro hempty
  have hnil : t.chars = [] := by rw [Token.chars, hempty, String.toList_empty]
  exact ne_nil_of_isLongest (h before t behind rfl) hnil

/-- Tokens behind others are the longest where they stand. -/
theorem AllLongest.of_append {before : List Token} (h : l.AllLongest (before ++ ts) rest) :
    l.AllLongest ts rest := fun front t behind ht =>
  h (before ++ front) t behind (by rw [ht, List.append_assoc])

/-- Tokens stay the longest where less stands behind them. -/
theorem AllLongest.shorten {rest' : List Char} (h : l.AllLongest ts rest)
    (hshort : rest' <+: rest) : l.AllLongest ts rest' := fun before t behind ht =>
  (h before t behind ht).shorten ((List.prefix_append_right_inj _).2 hshort)
    (by rw [List.flatMap_cons, List.append_assoc]; exact List.prefix_append ..)

/-- Tokens are cut off, one after the other, where each is the longest of its kind. -/
theorem tokens_append_of_allLongest (h : l.AllLongest ts rest) :
    l.alphabet.tokens (ts.flatMap Token.chars ++ rest) = (ts ++ ·) <$> l.alphabet.tokens rest := by
  induction ts with
  | nil => exact (id_map _).symm
  | cons t ts ih =>
    obtain ⟨hlongest, hothers⟩ := allLongest_cons.1 h
    have hnext : l.alphabet.next ((t :: ts).flatMap Token.chars ++ rest) =
        some (t, ts.flatMap Token.chars ++ rest) :=
      next_eq_some_iff.2 ⟨hlongest, List.append_assoc ..⟩
    have hlt : (ts.flatMap Token.chars ++ rest).length <
        ((t :: ts).flatMap Token.chars ++ rest).length := by
      have hpos := List.length_pos_iff.2 (ne_nil_of_isLongest hlongest)
      simp only [List.flatMap_cons, List.length_append]
      omega
    rw [Alphabet.tokens_of_next hnext hlt, ih hothers, Functor.map_map]
    rfl

/-- Where no token starts, the text has come to its end or is refused. -/
theorem tokens_of_not_starts (h : ¬l.Starts cs) :
    l.alphabet.tokens cs = match cs with | [] => .ok [] | x :: _ => .error x := by
  cases cs with
  | nil => rw [Alphabet.tokens]
  | cons x cs => rw [Alphabet.tokens, next_eq_none_iff.2 h]

/-- **Every text is cut up to where no token starts.** -/
theorem exists_allLongest (l : Language) (cs : List Char) :
    ∃ ts rest, cs = ts.flatMap Token.chars ++ rest ∧ l.AllLongest ts rest ∧ ¬l.Starts rest := by
  induction hn : cs.length using Nat.strongRecOn generalizing cs with
  | ind n ih =>
    cases hnext : l.alphabet.next cs with
    | none => exact ⟨[], cs, rfl, by simp [AllLongest], not_starts_of_next hnext⟩
    | some taken =>
      obtain ⟨t, behind⟩ := taken
      obtain ⟨hlongest, rfl⟩ := isLongest_of_next hnext
      have hlt : behind.length < n := by
        have hpos := List.length_pos_iff.2 (ne_nil_of_isLongest hlongest)
        rw [← hn, List.length_append]
        omega
      obtain ⟨ts, rest, rfl, hall, hends⟩ := ih _ hlt behind rfl
      refine ⟨t :: ts, rest, (List.append_assoc ..).symm, allLongest_cons.2 ⟨?_, hall⟩, hends⟩
      rwa [List.flatMap_cons, List.append_assoc]

/-- Tokens that are all the longest are what their text is cut into. -/
theorem tokens_of_allLongest (h : l.AllLongest ts []) :
    l.alphabet.tokens (ts.flatMap Token.chars) = .ok ts := by
  have htokens := tokens_append_of_allLongest h
  rw [tokens_of_not_starts not_starts_nil, List.append_nil] at htokens
  exact htokens.trans (congrArg Except.ok (List.append_nil ts))

/-- Behind such tokens a text is refused where no token starts. -/
theorem tokens_of_allLongest_cons {x : Char} (h : l.AllLongest ts (x :: rest))
    (hends : ¬l.Starts (x :: rest)) :
    l.alphabet.tokens (ts.flatMap Token.chars ++ x :: rest) = .error x := by
  rw [tokens_append_of_allLongest h, tokens_of_not_starts hends]
  rfl

/-- **A text is cut into the tokens that it consists of**, each the longest of its kind. -/
theorem tokens_eq_ok_iff :
    l.alphabet.tokens cs = .ok ts ↔ ts.flatMap Token.chars = cs ∧ l.AllLongest ts [] := by
  constructor
  · intro h
    obtain ⟨us, rest, rfl, hall, hends⟩ := exists_allLongest l cs
    cases rest with
    | nil =>
      rw [List.append_nil] at h ⊢
      obtain rfl := Except.ok.inj ((tokens_of_allLongest hall).symm.trans h)
      exact ⟨rfl, hall⟩
    | cons x rest =>
      rw [tokens_of_allLongest_cons hall hends] at h
      contradiction
  · rintro ⟨rfl, hall⟩
    exact tokens_of_allLongest hall

/-- **A text is refused for the character behind its first tokens** where no token starts
there. -/
theorem tokens_eq_error_iff {x : Char} : l.alphabet.tokens cs = .error x ↔
    ∃ ts rest, cs = ts.flatMap Token.chars ++ x :: rest ∧ l.AllLongest ts (x :: rest) ∧
      ¬l.Starts (x :: rest) := by
  constructor
  · intro h
    obtain ⟨ts, rest, rfl, hall, hends⟩ := exists_allLongest l cs
    cases rest with
    | nil =>
      rw [List.append_nil, tokens_of_allLongest hall] at h
      contradiction
    | cons y rest =>
      obtain rfl := Except.error.inj ((tokens_of_allLongest_cons hall hends).symm.trans h)
      exact ⟨ts, rest, rfl, hall, hends⟩
  · rintro ⟨ts, rest, rfl, hall, hends⟩
    exact tokens_of_allLongest_cons hall hends

section Run

variable {place : Place} {source : String} {c c' : Context} {d : Diagnostic}

/-- Cutting leaves the context alone. -/
theorem run_tokenize (a : Alphabet) (place : Place) (source : String) (c : Context) :
    (a.tokenize place source).run c = match a.tokens source.toList with
      | .ok ts => .ok (ts, c)
      | .error x => .error ⟨place, .unexpectedCharacter x source, c⟩ := by
  rw [Alphabet.tokenize]
  cases a.tokens source.toList <;> rfl

/-- **A text is cut into tokens just if it is written in them and each is the longest of its kind
where it stands.** -/
theorem run_tokenize_eq_ok_iff : (l.alphabet.tokenize place source).run c = .ok (ts, c') ↔
    c' = c ∧ String.ofList (ts.flatMap Token.chars) = source ∧ l.AllLongest ts [] := by
  have hsource : String.ofList (ts.flatMap Token.chars) = source ↔
      ts.flatMap Token.chars = source.toList := by
    rw [← String.toList_inj, String.toList_ofList]
  rw [run_tokenize, hsource, ← tokens_eq_ok_iff]
  cases l.alphabet.tokens source.toList with
  | ok us => simp [and_comm, eq_comm]
  | error x => simp

/-- Cutting a text is stopped just at a character that its alphabet stops at, in the context that
it is cut in. -/
theorem run_tokenize_eq_error_iff : (l.alphabet.tokenize place source).run c = .error d ↔
    ∃ x, d = ⟨place, .unexpectedCharacter x source, c⟩ ∧
      l.alphabet.tokens source.toList = .error x := by
  rw [run_tokenize]
  cases l.alphabet.tokens source.toList with
  | ok us => simp
  | error x => simp [eq_comm]

end Run

/-- **Cutting into tokens loses nothing.**  A text is cut into tokens exactly if it consists of
them and each is the longest of its kind where it stands: no number and no word stops in front
of what goes on it, and no operator is cut off where a longer one stands.  None of these tokens
is empty, and the text of the last ones of them is cut into them again.  A text is refused
exactly for the character behind its first tokens if no token starts there; these tokens are
what the text in front of the character is cut into. -/
theorem tokenize_lossless (l : Language) (place : Place) (source : String) (c : Context) :
    (∀ ts c', (l.alphabet.tokenize place source).run c = .ok (ts, c') ↔
      c' = c ∧ String.ofList (ts.flatMap Token.chars) = source ∧ l.AllLongest ts []) ∧
    (∀ ts c', (l.alphabet.tokenize place source).run c = .ok (ts, c') →
      (∀ t ∈ ts, t.text ≠ "") ∧ ∀ before behind, ts = before ++ behind →
        (l.alphabet.tokenize place (String.ofList (behind.flatMap Token.chars))).run c =
          .ok (behind, c)) ∧
    ∀ d, (l.alphabet.tokenize place source).run c = .error d ↔
      ∃ ts x rest, d = ⟨place, .unexpectedCharacter x source, c⟩ ∧
        String.ofList (ts.flatMap Token.chars ++ x :: rest) = source ∧
        (l.alphabet.tokenize place (String.ofList (ts.flatMap Token.chars))).run c = .ok (ts, c) ∧
        l.AllLongest ts (x :: rest) ∧ ¬l.Starts (x :: rest) := by
  refine ⟨fun ts c' => run_tokenize_eq_ok_iff, fun ts c' h => ?_, fun d => ?_⟩
  · obtain ⟨-, -, hall⟩ := run_tokenize_eq_ok_iff.1 h
    refine ⟨fun t ht => text_ne_empty_of_allLongest hall ht, ?_⟩
    rintro before behind rfl
    exact run_tokenize_eq_ok_iff.2 ⟨rfl, rfl, hall.of_append⟩
  · rw [run_tokenize_eq_error_iff]
    constructor
    · rintro ⟨x, rfl, hx⟩
      obtain ⟨ts, rest, hsource, hall, hends⟩ := tokens_eq_error_iff.1 hx
      have hfront : l.AllLongest ts [] := hall.shorten List.nil_prefix
      refine ⟨ts, x, rest, rfl, ?_, run_tokenize_eq_ok_iff.2 ⟨rfl, rfl, hfront⟩, hall, hends⟩
      rw [← hsource, String.ofList_toList]
    · rintro ⟨ts, x, rest, rfl, rfl, -, hall, hends⟩
      refine ⟨x, rfl, ?_⟩
      rw [String.toList_ofList]
      exact tokens_of_allLongest_cons hall hends

/-- In `a:1>=-1.50` the word goes on behind the colon, the equality sign belongs to the operator
and the minus sign to the number.  In `1..5` a number ends in front of the points. -/
theorem tokenize_lossless_overlapping :
    let ts : List Token := [.operand (.word "a:1"), .operator ">=", .operand (.number "-1.50")]
    (conditions.alphabet.tokenize .scene "a:1>=-1.50").run {} = .ok (ts, {}) ∧
      conditions.IsLongest (.operator ">=") ">=-1.50".toList ∧
      (conditions.alphabet.tokenize .scene ">=-1.50").run {} = .ok (ts.tail, {}) ∧
      (arithmetic.alphabet.tokenize .scene "1..5").run {} =
        .error ⟨.scene, .unexpectedCharacter '.' "1..5", {}⟩ ∧
      ∃ front rest, String.ofList (front.flatMap Token.chars ++ '.' :: rest) = "1..5" ∧
        arithmetic.AllLongest front ('.' :: rest) ∧ ¬arithmetic.Starts ('.' :: rest) := by
  intro ts
  have hend : conditions.alphabet.tokens [] = .ok [] := by rw [Alphabet.tokens]
  have hnumber : conditions.alphabet.tokens "-1.50".toList = .ok [.operand (.number "-1.50")] :=
    Alphabet.tokens_append_of_next "-1.50".toList rfl (by decide) hend
  have hoperator : conditions.alphabet.tokens ">=-1.50".toList = .ok ts.tail :=
    Alphabet.tokens_append_of_next ">=".toList rfl (by decide) hnumber
  have hword : conditions.alphabet.tokens "a:1>=-1.50".toList = .ok ts :=
    Alphabet.tokens_append_of_next "a:1".toList rfl (by decide) hoperator
  have hts : (conditions.alphabet.tokenize .scene "a:1>=-1.50").run {} = .ok (ts, {}) := by
    rw [run_tokenize, hword]
  have hpoints : arithmetic.alphabet.tokens "..5".toList = .error '.' := by
    have hnext : arithmetic.alphabet.next "..5".toList = none := rfl
    exact tokens_of_not_starts (next_eq_none_iff.1 hnext)
  have hone : arithmetic.alphabet.next "1..5".toList =
      some (.operand (.number "1"), "..5".toList) := rfl
  have herror : (arithmetic.alphabet.tokenize .scene "1..5").run {} =
      .error ⟨.scene, .unexpectedCharacter '.' "1..5", {}⟩ := by
    rw [run_tokenize, Alphabet.tokens_of_next hone (by decide), hpoints]
    rfl
  obtain ⟨hok, hkept, -⟩ := tokenize_lossless conditions .scene "a:1>=-1.50" {}
  obtain ⟨-, -, hall⟩ := (hok ts {}).1 hts
  obtain ⟨-, hlast⟩ := hkept ts {} hts
  obtain ⟨front, x, rest, hx, hsource, -, hfront, hends⟩ :=
    ((tokenize_lossless arithmetic .scene "1..5" {}).2.2 _).1 herror
  obtain rfl : '.' = x := by simpa using hx
  exact ⟨hts, hall [.operand (.word "a:1")] _ _ rfl, hlast [.operand (.word "a:1")] ts.tail rfl,
    herror, front, rest, hsource, hfront, hends⟩

end Language
end Gamebook
