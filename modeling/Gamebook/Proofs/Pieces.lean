/-
# Pieces of texts

The compiler takes texts apart, and the names that it comes to are pieces of the text that
they come from.  The words of a formula are (`Alphabet.word_infix_of_tokens`), also where
ranges were replaced in it: what is put in for a range keeps its name apart from what stands
around it, so no word begins before a range and ends behind it (`infix_of_expandRanges`).  The
bodies of a template's parts are pieces of the template (`Template.body_infix_of_scan`), and so
are the two sides of a separator (`Template.splitOutside_pieces`).

Blanks are left out of formulas before they are cut into words, so a name that is read in a
text stands there at least when its blanks are left out (`Text.Occurs`).
-/

import Gamebook.Proofs.Scanning
import Mathlib.Data.List.DropRight

namespace Gamebook

/-! ## Runs of characters -/

section Runs

variable {p : Char → Bool} {sep : Char} {run before after : List Char}

/-- A run in which a character does not stand begins in front of no such character. -/
theorem infix_of_infix_cons (hrun : ∀ c ∈ run, p c = true) (hsep : p sep = false)
    (h : run <:+: sep :: after) : run <:+: after := by
  rcases List.infix_cons_iff.1 h with hahead | hwithin
  · rcases List.prefix_cons_iff.1 hahead with rfl | ⟨rest, rfl, -⟩
    · exact List.nil_infix
    · exact absurd (hrun sep (List.mem_cons_self ..)) (by simp [hsep])
  · exact hwithin

/-- A run in which a separator does not stand is on one side of it. -/
theorem infix_of_infix_append_cons (hrun : ∀ c ∈ run, p c = true) (hsep : p sep = false)
    (h : run <:+: before ++ sep :: after) : run <:+: before ∨ run <:+: after := by
  rcases List.infix_append_iff.1 h with hbefore | hafter | ⟨front, back, rfl, hfront, hback⟩
  · exact .inl hbefore
  · exact .inr (infix_of_infix_cons hrun hsep hafter)
  · rcases List.prefix_cons_iff.1 hback with rfl | ⟨rest, rfl, -⟩
    · rw [List.append_nil]
      exact .inl hfront.isInfix
    · have hmem : sep ∈ front ++ sep :: rest := List.mem_append_right _ (List.mem_cons_self ..)
      exact absurd (hrun sep hmem) (by simp [hsep])

end Runs

/-! ## Words -/

open Lexeme

/-- A word is a run at the front of a text. -/
theorem Lexeme.of_word {cs text rest : List Char} (h : word cs = some (text, rest)) :
    cs = text ++ rest ∧ ∀ c ∈ text, continuesWord c = true := by
  refine ⟨(inked_word h).1, ?_⟩
  unfold word at h
  split at h
  · contradiction
  · split at h
    · rename_i hstart
      obtain ⟨rfl, -⟩ := Prod.mk.inj (Option.some.inj h)
      exact List.forall_mem_cons.2
        ⟨continuesWord_of_startsWord hstart, List.all_eq_true.1 List.all_takeWhile⟩
    · contradiction

namespace Alphabet

variable {a : Alphabet} {cs rest : List Char} {text : String}

/-- A word at the front of a text is a run there. -/
theorem word_prefix_of_next (h : a.next cs = some (.operand (.word text), rest)) :
    text.toList <+: cs ∧ ∀ c ∈ text.toList, continuesWord c = true := by
  cases takes_of_next h with
  | word hword =>
    obtain ⟨rfl, hrun⟩ := Lexeme.of_word hword
    rw [String.toList_ofList]
    exact ⟨List.prefix_append .., hrun⟩

/-- **The words of a text are runs in it.** -/
theorem word_infix_of_tokens (hn : Lexeme.Inked a.number)
    (hs : ∀ s ∈ a.symbols, s.toList.all Lexeme.isInk = true) {ts : List Token}
    (h : a.tokens cs = .ok ts) (htext : .operand (.word text) ∈ ts) :
    text.toList <:+: cs ∧ ∀ c ∈ text.toList, continuesWord c = true := by
  fun_induction a.tokens cs generalizing ts with
  | case1 =>
    obtain rfl := Except.ok.inj h
    contradiction
  | case2 c cs t rest hnext hle ih =>
    obtain ⟨ts', hts, h⟩ := Grammar.exists_of_bind_eq_ok h
    obtain rfl := Except.ok.inj h
    obtain ⟨front, hcs, -⟩ := exists_of_next hn hs hnext
    rcases List.mem_cons.1 htext with rfl | htext
    · obtain ⟨hahead, hrun⟩ := word_prefix_of_next hnext
      exact ⟨hahead.isInfix, hrun⟩
    · obtain ⟨hwithin, hrun⟩ := ih hts htext
      exact ⟨hcs ▸ List.infix_append_of_infix_right hwithin, hrun⟩
  | case3 | case4 => contradiction

end Alphabet

/-! ## Ranges -/

namespace WrittenRange

variable {rest run text : List Char} {r : WrittenRange}

/-- A run in a comparison is one of its name, of its bound or of what stands behind it. -/
theorem infix_of_comparison {sign sep : Char} {name bound after : List Char}
    (hsign : continuesWord sign = false) (hsep : continuesWord sep = false)
    (hrun : ∀ c ∈ run, continuesWord c = true)
    (h : run <:+: name ++ sign :: '=' :: (bound ++ sep :: after)) :
    run <:+: name ∨ run <:+: bound ∨ run <:+: after := by
  rcases infix_of_infix_append_cons hrun hsign h with hname | hequal
  · exact .inl hname
  · exact .inr (infix_of_infix_append_cons hrun hsep (infix_of_infix_cons hrun (by decide) hequal))

/-- A run in what is put in for a range is one of the name or of a bound. -/
theorem infix_of_comparisons? (h : r.comparisons? = some text)
    (hrun : ∀ c ∈ run, continuesWord c = true) (hwithin : run <:+: text ++ rest) :
    run <:+: r.name ∨ run <:+: r.low.getD [] ∨ run <:+: r.high.getD [] ∨ run <:+: rest := by
  have hopen {after : List Char} (h : run <:+: '(' :: after) : run <:+: after :=
    infix_of_infix_cons hrun (by decide) h
  obtain ⟨name, low, high⟩ := r
  cases low with
  | none =>
    cases high with
    | none => contradiction
    | some high =>
      obtain rfl := Option.some.inj h
      simp only [List.append_assoc, List.cons_append, List.nil_append] at hwithin
      rcases infix_of_comparison (by decide) (by decide) hrun (hopen hwithin) with
        hname | hhigh | hrest
      · exact .inl hname
      · exact .inr (.inr (.inl hhigh))
      · exact .inr (.inr (.inr hrest))
  | some low =>
    cases high with
    | none =>
      obtain rfl := Option.some.inj h
      simp only [List.append_assoc, List.cons_append, List.nil_append] at hwithin
      rcases infix_of_comparison (by decide) (by decide) hrun (hopen hwithin) with
        hname | hlow | hrest
      · exact .inl hname
      · exact .inr (.inl hlow)
      · exact .inr (.inr (.inr hrest))
    | some high =>
      obtain rfl := Option.some.inj h
      simp only [List.append_assoc, List.cons_append, List.nil_append] at hwithin
      rcases infix_of_comparison (by decide) (by decide) hrun (hopen hwithin) with
        hname | hlow | hsecond
      · exact .inl hname
      · exact .inr (.inl hlow)
      · have hagain := infix_of_infix_cons hrun (by decide) hsecond
        rcases infix_of_comparison (by decide) (by decide) hrun hagain with hname | hhigh | hrest
        · exact .inl hname
        · exact .inr (.inr (.inl hhigh))
        · exact .inr (.inr (.inr hrest))

/-- What is put in for a range begins with no run. -/
theorem eq_nil_of_prefix_comparisons? (h : r.comparisons? = some text)
    (hrun : ∀ c ∈ run, continuesWord c = true) (hahead : run <+: text ++ rest) : run = [] := by
  obtain ⟨tail, rfl⟩ : ∃ tail, text = '(' :: tail := by
    obtain ⟨name, low, high⟩ := r
    cases low <;> cases high <;> cases h <;> exact ⟨_, rfl⟩
  rcases List.prefix_cons_iff.1 hahead with rfl | ⟨after, rfl, -⟩
  · rfl
  · exact absurd (hrun '(' (List.mem_cons_self ..)) (by decide)

end WrittenRange

/-- **Replacing ranges makes no words.**  A run of characters of words stands in the text that
comes out only if it stands in the text that was put in. -/
theorem infix_of_expandRanges {cs out run : List Char} (h : expandRanges cs = .ok out)
    (hrun : ∀ c ∈ run, continuesWord c = true) :
    (run <+: out → run <+: cs) ∧ (run <:+: out → run <:+: cs) := by
  -- a run that goes on in front of the text was a run at the front of what follows
  fun_induction expandRanges cs generalizing out run with
  | case1 =>
    obtain rfl := Except.ok.inj h
    exact ⟨id, id⟩
  | case2 => contradiction
  | case3 c cs r rest htake text htext ih =>
    obtain ⟨expanded, hexpanded, h⟩ := Grammar.exists_of_bind_eq_ok h
    obtain rfl := Except.ok.inj h
    obtain ⟨hcs, -⟩ := WrittenRange.of_take? htake
    constructor
    · intro hahead
      rw [WrittenRange.eq_nil_of_prefix_comparisons? htext hrun hahead]
      exact List.nil_prefix
    · intro hwithin
      have hpiece : run <:+: r.name ∨ run <:+: r.low.getD [] ∨ run <:+: r.high.getD [] ∨
          run <:+: rest :=
        (WrittenRange.infix_of_comparisons? htext hrun hwithin).imp_right
          (·.imp_right (·.imp_right (ih hexpanded hrun).2))
      rw [hcs]
      rcases hpiece with hname | hlow | hhigh | hrest
      · exact List.infix_append_of_infix_left hname
      all_goals refine List.infix_append_of_infix_right (List.infix_cons ?_)
      · exact List.infix_append_of_infix_left hlow
      all_goals refine List.infix_append_of_infix_right (List.infix_cons (List.infix_cons ?_))
      · exact List.infix_append_of_infix_left hhigh
      · exact List.infix_append_of_infix_right hrest
  | case4 c cs hnone ih =>
    obtain ⟨expanded, hexpanded, h⟩ := Grammar.exists_of_bind_eq_ok h
    obtain rfl := Except.ok.inj h
    have hfront (hahead : run <+: c :: expanded) : run <+: c :: cs := by
      rcases List.prefix_cons_iff.1 hahead with rfl | ⟨tail, rfl, htail⟩
      · exact List.nil_prefix
      · obtain ⟨-, hrun⟩ := List.forall_mem_cons.1 hrun
        exact List.cons_prefix_cons.2 ⟨rfl, (ih hexpanded hrun).1 htail⟩
    refine ⟨hfront, fun hwithin => ?_⟩
    rcases List.infix_cons_iff.1 hwithin with hahead | hwithin
    · exact (hfront hahead).isInfix
    · exact List.infix_cons ((ih hexpanded hrun).2 hwithin)

/-! ## Templates -/

namespace Template

/-- What stands before and behind a separator are pieces of the text. -/
theorem splitOutside_pieces (separator : Char) (depth : Int) (cs : List Char) :
    (splitOutside separator depth cs).1 <+: cs ∧
      ∀ after ∈ (splitOutside separator depth cs).2, after <:+ cs := by
  induction cs generalizing depth with
  | nil => exact ⟨List.prefix_rfl, nofun⟩
  | cons c cs ih =>
    have hgo (d : Int) : c :: (splitOutside separator d cs).1 <+: c :: cs ∧
        ∀ after ∈ (splitOutside separator d cs).2, after <:+ c :: cs :=
      ⟨List.cons_prefix_cons.2 ⟨rfl, (ih d).1⟩,
        fun after h => ((ih d).2 after h).trans (List.suffix_cons ..)⟩
    rw [splitOutside]
    split
    · exact hgo _
    · split
      · exact hgo _
      · split
        · exact ⟨List.nil_prefix, fun after h => Option.some.inj h ▸ List.suffix_cons ..⟩
        · exact hgo _

/-- **The bodies of parts are pieces of the text.** -/
theorem body_infix_of_scan {cs : List Char} {parts : List Part} (h : scan cs = some parts) :
    ∀ part ∈ parts, part.body <:+: cs := by
  obtain ⟨-, rfl⟩ := canonical_of_scan h
  rintro ⟨kind, body⟩ hpart
  have hwritten : Part.written ⟨kind, body⟩ <:+: parts.flatMap Part.written :=
    List.infix_of_mem_flatten (List.mem_map_of_mem hpart)
  refine List.IsInfix.trans ?_ hwritten
  by_cases hkind : kind = .literal
  · subst hkind
    exact List.infix_rfl
  · rw [Part.written_of_marker hkind]
    exact List.infix_append' ..

end Template

/-! ## Names in texts -/

namespace Text

/-- A trimmed text stands in the text without a gap. -/
theorem trimChars_infix (cs : List Char) : trimChars cs <:+: cs :=
  (List.rdropWhile_prefix isBlank _).isInfix.trans (List.dropWhile_suffix isBlank).isInfix

/-- A name stands in a text as it is, or in the text without its blanks. -/
def Occurs (name : String) (cs : List Char) : Prop :=
  name.toList <:+: cs ∨ name.toList <:+: compactChars cs

instance (name : String) (cs : List Char) : Decidable (Occurs name cs) :=
  inferInstanceAs (Decidable (_ ∨ _))

/-- A name in a piece of a text stands in the text. -/
theorem Occurs.of_infix {name : String} {piece cs : List Char} (h : Occurs name piece)
    (hpiece : piece <:+: cs) : Occurs name cs :=
  h.imp (·.trans hpiece) (·.trans (hpiece.filter _))

end Text
end Gamebook
