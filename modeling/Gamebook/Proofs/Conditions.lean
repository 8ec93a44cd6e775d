/-
# Conditions mean what they say

A guard is written with blanks anywhere between its pieces.  The text is compact
when its ranges are replaced, and it is then the text of the tokens of a tree that
holds where the guard holds.  These tokens are cut apart and brought into postfix
order, the tree is built again, and its program holds where the tree does
(`Condition.compile_of_written`).
-/

import Gamebook.Proofs.Machine
import Gamebook.Proofs.Ranges

namespace Gamebook

/-- An operand of a condition has no blanks in it. -/
theorem Term.solid (a : Term) : Text.Solid a.chars := by
  cases a with
  | number n => exact n.solid
  | «variable» v => exact v.name.solid

/-- The pieces of bounds have no blanks in them. -/
theorem Bounds.solid (b : Bounds) : ∀ p ∈ b.pieces, Text.Solid p := by
  intro p hp
  have hpoints : Text.Solid ['.', '.'] := by decide
  cases b with
  | atLeast low =>
    simp only [pieces, List.mem_cons, List.not_mem_nil, or_false] at hp
    rcases hp with rfl | rfl
    · exact low.solid
    · exact hpoints
  | atMost high =>
    simp only [pieces, List.mem_cons, List.not_mem_nil, or_false] at hp
    rcases hp with rfl | rfl
    · exact hpoints
    · exact high.solid
  | between low high =>
    simp only [pieces, List.mem_cons, List.not_mem_nil, or_false] at hp
    rcases hp with rfl | rfl | rfl
    · exact low.solid
    · exact hpoints
    · exact high.solid

/-- The pieces of a written guard have no blanks in them. -/
theorem Guard.Written.solid {d : Demand} {g : Guard} {is : List Item} (h : g.Written d is) :
    ∀ p ∈ is.flatMap Item.pieces, Text.Solid p := by
  induction h with
  | operand d a =>
    rintro p hp
    simp only [List.flatMap_singleton, Item.pieces, Term.chars_token, List.mem_singleton] at hp
    exact hp ▸ a.solid
  | compare hd o l r =>
    intro p hp
    simp only [List.flatMap_cons, List.flatMap_nil, Item.pieces, Term.chars_token,
      Token.chars_operator, List.append_nil, List.cons_append, List.nil_append, List.mem_cons,
      List.not_mem_nil, or_false] at hp
    rcases hp with rfl | rfl | rfl
    · exact l.solid
    · cases o <;> decide
    · exact r.solid
  | range d v b =>
    intro p hp
    rw [List.flatMap_singleton] at hp
    rcases List.mem_cons.1 hp with rfl | hp
    · exact v.name.solid
    · rcases List.mem_cons.1 hp with rfl | hp
      · decide
      · exact b.solid p hp
  | group d h ih =>
    intro p hp
    simp only [List.flatMap_cons, List.flatMap_append, List.flatMap_nil, Item.pieces,
      Token.chars_opening, Token.chars_closing, List.cons_append, List.nil_append, List.append_nil,
      List.mem_cons, List.mem_append, List.not_mem_nil, or_false] at hp
    rcases hp with rfl | hp | rfl
    · decide
    · exact ih p hp
    · decide
  | not d h ih =>
    intro p hp
    rw [List.flatMap_cons] at hp
    rcases List.mem_cons.1 hp with rfl | hp
    · decide
    · exact ih p hp
  | @connect d o hd l r il ir hl hr ihl ihr =>
    intro p hp
    rw [List.flatMap_append, List.flatMap_cons] at hp
    rcases List.mem_append.1 hp with hp | hp
    · exact ihl p hp
    · rcases List.mem_cons.1 hp with rfl | hp
      · cases o <;> decide
      · exact ihr p hp

/-- The pieces of items, one behind the other, are their texts. -/
theorem Item.flatten_pieces (is : List Item) :
    (is.flatMap Item.pieces).flatten = is.flatMap Item.chars := by
  induction is with
  | nil => rfl
  | cons i is ih => rw [List.flatMap_cons, List.flatten_append, ih, List.flatMap_cons, Item.chars]

namespace Condition

/-- Unary operators bind tighter than the others, and the others associate to
the left. -/
theorem ranked : grammar.Ranked where
  unary_tighter := by decide
  same_side := by decide

/-- The ranges of a written guard are replaced. -/
theorem expandCondition_of_written {g : Guard} {is : List Item} {t : Tree Term UnaryOp InfixOp}
    (hw : g.Written .anything is) (ht : Condition.Writes .anything t (is.flatMap Item.tokens)) :
    expandCondition (String.ofList (is.flatMap Item.chars)) =
      pure (String.ofList ((is.flatMap Item.tokens).flatMap Token.chars)) := by
  have hclosed : Closes [] := nofun
  have hexpand := expandRanges_of_append (hw.expandRanges_append hclosed)
  have hpoints := hasTwoPoints_append_of_writes ht []
  rw [List.append_nil] at hpoints
  rw [expandCondition, String.toList_ofList, hexpand]
  simp only [hpoints]
  rfl

/-- **Conditions mean what they say.**  Every guard can be written, and however
it is written, with whatever blanks between the pieces, the condition is compiled,
and in every store it holds where the guard holds and has the guard's error where
the guard has one. -/
theorem compile_of_written {scope : String} (h : isSegment scope = true) (g : Guard) :
    (∃ is, g.Written .anything is) ∧
      ∀ is text c, g.Written .anything is → Text.Spaced (is.flatMap Item.pieces) text →
        ∃ cond raw, (compile scope (.string (String.ofList text))).run c = .ok (cond, c.visit raw) ∧
          ∀ s, cond.holds s = g.holds scope h s := by
  refine ⟨g.exists_written _, fun is text c hw hs => ?_⟩
  obtain ⟨t, ht, hagrees⟩ := hw.exists_tree h
  have hcompact : Text.compact (String.ofList text) = String.ofList (is.flatMap Item.chars) := by
    rw [Text.compact, String.toList_ofList, hs.compactChars_eq hw.solid, Item.flatten_pieces]
  have hexpand := expandCondition_of_written hw ht
  have hne := Text.ofList_ne_empty (spells.opens ht).ne_nil
  have htokens := spells.tokens_of_writes ht
  have horder := Grammar.ofTokens_of_writes ranked ht
  obtain ⟨raw, hread⟩ := Tree.run_read (Atom.run_leaf SignedNumeral.numeralValue_chars h) t c
  have hget : (get : Compile Context).run c = .ok (c, c) := rfl
  refine ⟨⟨String.ofList text, Program.ofExpr (String.ofList text)
    (t.toExpr (Atom.meaning SignedNumeral.value scope h))⟩, raw, ?_, fun s => ?_⟩
  · rw [compile, compileText, Compile.run_bind_of_ok hget]
    simp only [hcompact, hexpand, pure_bind, if_neg hne, Alphabet.tokenize_eq htokens,
      Grammar.order_eq horder, Expr.ofPostfix_postorder]
    rw [Compile.run_bind_of_ok hread]
    simp only [hagrees.fits]
    rfl
  · rw [holds, Expr.run_ofExpr, ← hagrees.holds s, bind_pure_comp]

/-- The condition `!x=-2 .. 5||y`, which holds where `x` is set and lies outside
the range, and else where `y` is set and not zero. -/
theorem compile_of_written_range_behind_not :
    ∃ (hscope : isSegment "a" = true) (x y : Variable) (low high : SignedNumeral) (cond : Condition)
      (raw : Json),
      x.chars = ['x'] ∧ y.chars = ['y'] ∧ low.chars = ['-', '2'] ∧ high.chars = ['5'] ∧
      (compile "a" (.string (String.ofList
        ['!', 'x', '=', '-', '2', ' ', '.', '.', ' ', '5', '|', '|', 'y']))).run {} =
          .ok (cond, ({} : Context).visit raw) ∧
      ∀ s, cond.holds s =
        Guard.holds "a" hscope s
          (.connect .or (.not (.range x (.between low high))) (.operand (.variable y))) := by
  have hscope : isSegment "a" = true := by decide
  let x : Variable := ⟨.short ⟨['x'], by decide⟩, by rintro c ⟨⟩; decide⟩
  let y : Variable := ⟨.short ⟨['y'], by decide⟩, by rintro c ⟨⟩; decide⟩
  let low : SignedNumeral := ⟨true, ⟨⟨['2'], by decide, by decide⟩, none⟩⟩
  let high : SignedNumeral := ⟨false, ⟨⟨['5'], by decide, by decide⟩, none⟩⟩
  let items : List Item := [.token (.operator "!"), .range x (.between low high),
    .token (.operator "||"), .token (Term.token (.variable y))]
  have hw : Guard.Written (.connect .or (.not (.range x (.between low high)))
      (.operand (.variable y))) .anything items :=
    .connect (Demand.admits_anything _) (.not _ (.range _ x _)) (.operand _ (.variable y))
  have hpieces : items.flatMap Item.pieces =
      [['!'], ['x'], ['='], ['-', '2'], ['.', '.'], ['5'], ['|', '|'], ['y']] := by
    simp only [items, List.flatMap_cons, List.flatMap_nil, Item.pieces, Term.chars_token,
      Token.chars_operator]
    rfl
  have hs : Text.Spaced (items.flatMap Item.pieces)
      ['!', 'x', '=', '-', '2', ' ', '.', '.', ' ', '5', '|', '|', 'y'] := by
    rw [hpieces]
    exact .cons [] rfl <| .cons [] rfl <| .cons [] rfl <| .cons [] rfl <| .cons [' '] (by decide) <|
      .cons [' '] (by decide) <| .cons [] rfl <| .cons [] rfl <| .nil [] rfl
  obtain ⟨cond, raw, hrun, hholds⟩ := (compile_of_written hscope _).2 items _ {} hw hs
  exact ⟨hscope, x, y, low, high, cond, raw, rfl, rfl, rfl, rfl, hrun, hholds⟩

end Condition
end Gamebook
