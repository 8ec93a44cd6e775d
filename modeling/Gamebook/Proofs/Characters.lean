/-
# The characters of a condition

What takes a piece from the front of a text takes characters of tokens only, and
loses none of them (`Lexeme.Inked`).  So a text that is cut into tokens has no other
characters (`Alphabet.isInk_of_tokens`), and replacing ranges keeps those that it
has (`mem_of_expandRanges`).  What a condition is compiled from therefore has
blanks and characters of tokens in it and nothing else
(`Condition.isInk_of_accepts`): no brace and no question mark, in particular.
-/

import Gamebook.Proofs.Acceptance
import Mathlib.Data.List.Infix

namespace Gamebook

namespace Lexeme

/-- Whether a character can stand in a token. -/
def isInk (c : Char) : Bool :=
  continuesWord c || Text.isDigit c ||
    ['.', '-', '+', '*', '/', '%', '>', '<', '=', '!', '&', '|', '(', ')'].contains c

/-- What goes on a word can stand in a token. -/
theorem isInk_of_continuesWord {c : Char} (h : continuesWord c = true) : isInk c = true := by
  simp [isInk, h]

/-- A digit can stand in a token. -/
theorem isInk_of_isDigit {c : Char} (h : Text.isDigit c = true) : isInk c = true := by
  simp [isInk, h]

/-- What takes pieces off texts without losing a character, each piece having
characters of tokens only. -/
def Inked (t : Taker) : Prop :=
  ∀ ⦃cs text rest⦄, t cs = some (text, rest) → cs = text ++ rest ∧ ∀ c ∈ text, isInk c = true

/-- Digits are taken off without losing a character. -/
theorem inked_digits : Inked digits := by
  intro cs text rest h
  unfold digits at h
  split at h
  · exact absurd h (by simp)
  · obtain ⟨rfl, rfl⟩ := Prod.mk.inj (Option.some.inj h)
    refine ⟨(List.takeWhile_append_dropWhile ..).symm, fun c hc => ?_⟩
    exact isInk_of_isDigit (List.all_eq_true.1 List.all_takeWhile c hc)

/-- Numbers without a sign are taken off without losing a character. -/
theorem inked_unsigned : Inked unsigned := by
  intro cs text rest h
  simp only [unsigned, Option.bind_eq_bind, Option.bind_eq_some_iff] at h
  obtain ⟨⟨whole, behind⟩, hwhole, h⟩ := h
  obtain ⟨rfl, hink⟩ := inked_digits hwhole
  simp only at h
  split at h
  · split at h
    · rename_i fraction after hfraction
      obtain ⟨rfl, rfl⟩ := Prod.mk.inj (Option.some.inj h)
      obtain ⟨rfl, hplaces⟩ := inked_digits hfraction
      refine ⟨by simp, fun c hc => ?_⟩
      rcases List.mem_append.1 hc with hc | hc
      · exact hink c hc
      · rcases List.mem_cons.1 hc with rfl | hc
        · rfl
        · exact hplaces c hc
    · obtain ⟨rfl, rfl⟩ := Prod.mk.inj (Option.some.inj h)
      exact ⟨rfl, hink⟩
  · obtain ⟨rfl, rfl⟩ := Prod.mk.inj (Option.some.inj h)
    exact ⟨rfl, hink⟩

/-- Numbers are taken off without losing a character, a sign among them. -/
theorem inked_signed : Inked signed := by
  intro cs text rest h
  unfold signed at h
  split at h
  · obtain ⟨⟨number, after⟩, hnumber, h⟩ := Option.map_eq_some_iff.1 h
    obtain ⟨rfl, rfl⟩ := Prod.mk.inj h
    obtain ⟨rfl, hink⟩ := inked_unsigned hnumber
    refine ⟨rfl, fun c hc => ?_⟩
    rcases List.mem_cons.1 hc with rfl | hc
    · rfl
    · exact hink c hc
  · exact inked_unsigned h

/-- Words are taken off without losing a character. -/
theorem inked_word : Inked word := by
  intro cs text rest h
  unfold word at h
  split at h
  · exact absurd h (by simp)
  · rename_i c cs
    split at h
    · rename_i hstart
      obtain ⟨rfl, rfl⟩ := Prod.mk.inj (Option.some.inj h)
      refine ⟨by rw [List.cons_append, List.takeWhile_append_dropWhile], fun d hd => ?_⟩
      rcases List.mem_cons.1 hd with rfl | hd
      · exact isInk_of_continuesWord (continuesWord_of_startsWord hstart)
      · exact isInk_of_continuesWord (List.all_eq_true.1 List.all_takeWhile d hd)
    · exact absurd h (by simp)

/-- Symbols are taken off without losing a character, if they are written with characters of
tokens. -/
theorem inked_symbol {symbols : List String}
    (hs : ∀ s ∈ symbols, s.toList.all isInk = true) : Inked (symbol symbols) := by
  intro cs text rest h
  obtain ⟨s, hmem, h⟩ := List.exists_of_findSome?_eq_some h
  obtain ⟨after, hafter, h⟩ := Option.map_eq_some_iff.1 h
  obtain ⟨rfl, rfl⟩ := Prod.mk.inj h
  exact ⟨(List.append_eq_of_isPrefixOf?_eq_some hafter).symm, List.all_eq_true.1 (hs s hmem)⟩

end Lexeme

namespace Alphabet

variable {a : Alphabet}

/-- A token is a piece of the text, in characters of tokens. -/
theorem exists_of_next (hn : Lexeme.Inked a.number)
    (hs : ∀ s ∈ a.symbols, s.toList.all Lexeme.isInk = true) {cs rest : List Char} {t : Token}
    (h : a.next cs = some (t, rest)) :
    ∃ text, cs = text ++ rest ∧ ∀ c ∈ text, Lexeme.isInk c = true := by
  cases takes_of_next h with
  | number h => exact ⟨_, hn h⟩
  | word h => exact ⟨_, Lexeme.inked_word h⟩
  | operator h => exact ⟨_, Lexeme.inked_symbol hs h⟩
  | opening h => exact ⟨['('], h, List.forall_mem_singleton.2 (by decide)⟩
  | closing h => exact ⟨[')'], h, List.forall_mem_singleton.2 (by decide)⟩

/-- **A text that is cut into tokens has characters of tokens only.** -/
theorem isInk_of_tokens (hn : Lexeme.Inked a.number)
    (hs : ∀ s ∈ a.symbols, s.toList.all Lexeme.isInk = true) {cs : List Char} {ts : List Token}
    (h : a.tokens cs = .ok ts) : ∀ c ∈ cs, Lexeme.isInk c = true := by
  fun_induction a.tokens cs generalizing ts with
  | case1 => exact nofun
  | case2 c cs t rest hnext hle ih =>
    obtain ⟨ts', hts, -⟩ := Grammar.exists_of_bind_eq_ok h
    obtain ⟨text, hcs, hink⟩ := exists_of_next hn hs hnext
    rw [hcs]
    intro d hd
    rcases List.mem_append.1 hd with hd | hd
    · exact hink d hd
    · exact ih hts d hd
  | case3 => exact absurd h (by simp)
  | case4 => exact absurd h (by simp)

end Alphabet

namespace WrittenRange

variable {cs rest : List Char}

/-- A lower bound is written in front of two points. -/
theorem of_takeLow {low : Option (List Char)} (h : takeLow cs = some (low, rest)) :
    cs = low.getD [] ++ '.' :: '.' :: rest ∧ ∀ c ∈ low.getD [], Lexeme.isInk c = true := by
  unfold takeLow at h
  split at h
  · obtain ⟨rfl, rfl⟩ := Prod.mk.inj (Option.some.inj h)
    exact ⟨rfl, List.forall_mem_nil _⟩
  · split at h
    · rename_i number rest' hsigned
      obtain ⟨rfl, rfl⟩ := Prod.mk.inj (Option.some.inj h)
      exact Lexeme.inked_signed hsigned
    · exact absurd h (by simp)

/-- **A range is written as its name and its bounds**, with two points between the bounds and
characters of tokens in all three. -/
theorem of_take? {r : WrittenRange} (h : take? cs = some (r, rest)) :
    cs = r.name ++ '=' :: (r.low.getD [] ++ '.' :: '.' :: (r.high.getD [] ++ rest)) ∧
      (∀ c ∈ r.name, Lexeme.isInk c = true) ∧ (∀ c ∈ r.low.getD [], Lexeme.isInk c = true) ∧
      ∀ c ∈ r.high.getD [], Lexeme.isInk c = true := by
  simp only [take?, Option.bind_eq_bind, Option.bind_eq_some_iff] at h
  obtain ⟨⟨name, behind⟩, hword, h⟩ := h
  obtain ⟨rfl, hname⟩ := Lexeme.inked_word hword
  simp only at h
  split at h
  · obtain ⟨⟨low, behind⟩, hl, hbehind⟩ := Option.bind_eq_some_iff.1 h
    obtain ⟨rfl, hlow⟩ := of_takeLow hl
    simp only at hbehind
    split at hbehind
    · rename_i high after hsigned
      obtain ⟨rfl, rfl⟩ := Prod.mk.inj (Option.some.inj hbehind)
      obtain ⟨rfl, hhigh⟩ := Lexeme.inked_signed hsigned
      exact ⟨rfl, hname, hlow, hhigh⟩
    · obtain ⟨rfl, rfl⟩ := Prod.mk.inj (Option.some.inj hbehind)
      exact ⟨rfl, hname, hlow, List.forall_mem_nil _⟩
  · exact absurd h (by simp)

end WrittenRange

/-- Replacing ranges keeps every character that can stand in no token. -/
theorem mem_of_expandRanges {cs out : List Char} {c : Char} (h : expandRanges cs = .ok out)
    (hc : c ∈ cs) (hink : Lexeme.isInk c = false) : c ∈ out := by
  fun_induction expandRanges cs generalizing out with
  | case1 => exact absurd hc List.not_mem_nil
  | case2 d cs r rest htake hnone => exact absurd h (by simp)
  | case3 d cs r rest htake text htext ih =>
    obtain ⟨expanded, hexpanded, h⟩ := Grammar.exists_of_bind_eq_ok h
    obtain rfl := Except.ok.inj h
    obtain ⟨hcs, hname, hlow, hhigh⟩ := WrittenRange.of_take? htake
    have hpoint : c ≠ '.' := fun heq => absurd (heq ▸ hink) (by decide)
    rw [hcs, List.mem_append, List.mem_cons, List.mem_append] at hc
    rcases hc with hc | rfl | hc | hc
    · exact absurd (hname c hc) (by simp [hink])
    · exact absurd hink (by decide)
    · exact absurd (hlow c hc) (by simp [hink])
    · have hbehind := List.mem_of_ne_of_mem hpoint (List.mem_of_ne_of_mem hpoint hc)
      rcases List.mem_append.1 hbehind with hc | hc
      · exact absurd (hhigh c hc) (by simp [hink])
      · exact List.mem_append_right _ (ih hexpanded hc)
  | case4 d cs hnone ih =>
    obtain ⟨expanded, hexpanded, h⟩ := Grammar.exists_of_bind_eq_ok h
    obtain rfl := Except.ok.inj h
    rcases List.mem_cons.1 hc with rfl | hc
    · exact List.mem_cons_self ..
    · exact List.mem_cons_of_mem _ (ih hexpanded hc)

namespace Condition

/-- **A condition that is compiled has blanks and characters of tokens only.** -/
theorem isInk_of_accepts {scope text : String} {c : Context}
    (h : (compile scope (.string text)).Accepts c) {d : Char} (hd : d ∈ text.toList)
    (hblank : Text.isBlank d = false) : Lexeme.isInk d = true := by
  obtain ⟨ts, e, ⟨source, hsource, -, hts⟩, -⟩ := accepts_iff.1 h
  have hall := Alphabet.isInk_of_tokens Lexeme.inked_signed (by decide) hts
  have hcompact : d ∈ Text.compactChars text.toList :=
    List.mem_filter.2 ⟨hd, by simp [hblank]⟩
  cases hink : Lexeme.isInk d with
  | true => rfl
  | false => exact absurd (hall d (mem_of_expandRanges hsource hcompact hink)) (by simp [hink])

end Condition
end Gamebook
