/-
# Assignments are read back

An assignment is written as the name of its target, a sign and the tokens of an
expression, with blanks anywhere between them.  The text is cut at the sign,
since no sign starts inside a name; the expression is cut into its tokens, these
are brought into postfix order, and the tree that was written is built again
(`Action.compile_of_writes`).  All trees over the operators of arithmetic can be
written (`Grammar.exists_writes`), with more parentheses than are needed or not.
-/

import Gamebook.Proofs.Lexing

namespace Gamebook

namespace Arithmetic

/-- An operand has no blanks in it. -/
theorem solid_spell (a : Atom Numeral) :
    Text.Solid (Token.operand (a.spell Numeral.chars)).chars := by
  rw [Atom.chars_spell]
  cases a with
  | number n => exact n.solid
  | «variable» v => exact v.name.solid

/-- An expression has no blanks in its tokens. -/
theorem solid_of_writes {t : Tree (Atom Numeral) UnaryOp InfixOp} {ts : List Token}
    (h : grammar.Writes (Atom.spell Numeral.chars) .anything t ts) :
    ∀ p ∈ ts.map Token.chars, Text.Solid p :=
  h.solid solid_spell (by decide) (by decide)

variable {scope : String} {t : Tree (Atom Numeral) UnaryOp InfixOp} {ts : List Token}

/-- Unary operators bind tighter than the others, and the others associate to
the left. -/
theorem ranked : grammar.Ranked where
  unary_tighter := by decide
  same_side := by decide

/-- **A written expression is compiled to the program of its tree.** -/
theorem compile_written (h : isSegment scope = true)
    (ht : grammar.Writes (Atom.spell Numeral.chars) .anything t ts) (c : Context) :
    ∃ raw, (compile scope (String.ofList (ts.flatMap Token.chars))).run c =
      .ok (Program.ofExpr (String.ofList (ts.flatMap Token.chars))
        (t.toExpr (Atom.meaning Numeral.value scope h)), c.visit raw) := by
  have hsolid : Text.Solid (ts.flatMap Token.chars) := by
    rw [List.flatMap_def]
    exact Text.Solid.flatten (solid_of_writes ht)
  have hcompact := hsolid.compact_ofList
  have hne := Text.ofList_ne_empty (spells.opens ht).ne_nil
  have htokens := spells.tokens_of_writes ht
  have horder := Grammar.ofTokens_of_writes ranked ht
  obtain ⟨raw, hread⟩ := Tree.run_read (Atom.run_leaf Numeral.numeralValue_chars h) t c
  refine ⟨raw, ?_⟩
  have hget : (get : Compile Context).run c = .ok (c, c) := rfl
  rw [compile, Compile.run_bind_of_ok hget]
  simp only [hcompact, if_neg hne, Alphabet.tokenize_eq htokens, Grammar.order_eq horder,
    Expr.ofPostfix_postorder, pure_bind]
  rw [Compile.run_bind_of_ok hread]
  rfl

end Arithmetic

namespace Assignment

/-- No sign starts with a character of a name. -/
theorem take?_eq_none {c : Char} (h : Lexeme.continuesWord c = true) (cs : List Char) :
    take? (c :: cs) = none := by
  have hne (d : Char) (hd : Lexeme.continuesWord d = false) : c ≠ d := by
    rintro rfl
    exact absurd h (by simp [hd])
  unfold take?
  split
  all_goals first
    | rfl
    | rename_i heq; exact absurd (List.cons.inj heq).1 (hne _ (by decide))

/-- A text is cut at the sign behind a name. -/
theorem split?_append {before : List Char} (h : ∀ c ∈ before, Lexeme.continuesWord c = true)
    (sign : Assignment) (after : List Char) :
    split? (before ++ (sign.symbol.toList ++ after)) = some (before, sign, after) := by
  induction before with
  | nil => cases sign <;> rfl
  | cons c cs ih =>
    have hc := h c (List.mem_cons_self ..)
    have hcs := ih fun d hd => h d (List.mem_cons_of_mem _ hd)
    rw [List.cons_append, split?, take?_eq_none hc, hcs]
    rfl

/-- A sign that a text starts with stands there. -/
theorem take?_eq_some {cs rest : List Char} {sign : Assignment} (h : take? cs = some (sign, rest)) :
    cs = sign.symbol.toList ++ rest := by
  unfold take? at h
  split at h
  all_goals first
    | contradiction
    | cases h; rfl

/-- Nothing is lost when a text is cut at its first sign. -/
theorem split?_eq_some {cs before after : List Char} {sign : Assignment}
    (h : split? cs = some (before, sign, after)) :
    cs = before ++ (sign.symbol.toList ++ after) := by
  induction cs generalizing before with
  | nil => contradiction
  | cons c cs ih =>
    rw [split?] at h
    split at h
    · rename_i hsign
      obtain ⟨rfl, hrest⟩ := Prod.mk.inj (Option.some.inj h)
      obtain ⟨rfl, rfl⟩ := Prod.mk.inj hrest
      exact take?_eq_some hsign
    · obtain ⟨⟨before', sign', after'⟩, hcs, hparts⟩ := Option.map_eq_some_iff.1 h
      obtain ⟨rfl, hrest⟩ := Prod.mk.inj hparts
      obtain ⟨rfl, rfl⟩ := Prod.mk.inj hrest
      rw [ih hcs]
      rfl

/-- The sign of an assignment has no blanks in it. -/
theorem solid_symbol (sign : Assignment) : Text.Solid sign.symbol.toList := by
  cases sign <;> decide

end Assignment

namespace Action

/-- What an action is compiled to, when its text is cut into two parts that are
not empty. -/
theorem compile_of_split {scope text : String} {before after : List Char} {sign : Assignment}
    (h : Assignment.split? (Text.compact text).toList = some (before, sign, after))
    (hb : before ≠ []) (ha : after ≠ []) :
    compile scope text = do
      let target ← Identifier.resolve scope (.string (String.ofList before))
      let program ← Arithmetic.compile scope (String.ofList after)
      return ⟨Text.compact text, target, sign, program⟩ := by
  obtain ⟨c, cs, rfl⟩ := List.exists_cons_of_ne_nil hb
  obtain ⟨d, ds, rfl⟩ := List.exists_cons_of_ne_nil ha
  simp only [compile, h]

/-- **Assignments are read back.**  Every tree over the operators of arithmetic
can be written, and however it is written behind a target and a sign, with
whatever blanks between the tokens, the assignment is compiled: to this target,
this sign and the program of this tree. -/
theorem compile_of_writes {scope : String} (h : isSegment scope = true) (target : Name)
    (sign : Assignment) {t : Tree (Atom Numeral) UnaryOp InfixOp} (ht : t.Over Arithmetic.grammar) :
    (∃ ts, Arithmetic.grammar.Writes (Atom.spell Numeral.chars) .anything t ts) ∧
      ∀ ts text c, Arithmetic.grammar.Writes (Atom.spell Numeral.chars) .anything t ts →
        Text.Spaced (target.chars :: sign.symbol.toList :: ts.map Token.chars) text →
          ∃ raw, (compile scope (String.ofList text)).run c =
            .ok (⟨String.ofList (target.chars ++ (sign.symbol.toList ++ ts.flatMap Token.chars)),
              target.identifier scope h, sign,
              Program.ofExpr (String.ofList (ts.flatMap Token.chars))
                (t.toExpr (Atom.meaning Numeral.value scope h))⟩, c.visit raw) := by
  refine ⟨Grammar.exists_writes _ ht _, fun ts text c hw hs => ?_⟩
  have hsolid : ∀ p ∈ target.chars :: sign.symbol.toList :: ts.map Token.chars, Text.Solid p := by
    intro p hp
    rcases List.mem_cons.1 hp with rfl | hp
    · exact target.solid
    · rcases List.mem_cons.1 hp with rfl | hp
      · exact sign.solid_symbol
      · exact Arithmetic.solid_of_writes hw p hp
  have hcompact : Text.compact (String.ofList text) =
      String.ofList (target.chars ++ (sign.symbol.toList ++ ts.flatMap Token.chars)) := by
    rw [Text.compact, String.toList_ofList, hs.compactChars_eq hsolid]
    rfl
  have hsplit : Assignment.split? (Text.compact (String.ofList text)).toList =
      some (target.chars, sign, ts.flatMap Token.chars) := by
    rw [hcompact, String.toList_ofList]
    exact Assignment.split?_append (fun _ hc => target.continuesWord hc) sign _
  have hne := (Arithmetic.spells.opens hw).ne_nil
  have htarget := Identifier.resolve_eq_ok (target.ofText?_chars h) c
  obtain ⟨raw, hexpr⟩ :=
    Arithmetic.compile_written h hw (c.visit (.string (String.ofList target.chars)))
  refine ⟨raw, ?_⟩
  rw [compile_of_split hsplit target.ne_nil hne, Compile.run_bind_of_ok htarget,
    Compile.run_bind_of_ok hexpr, hcompact]
  rfl

/-- The assignment `x -= -3`, where one minus sign is part of the assignment sign
and the other is a unary operator. -/
theorem compile_of_writes_sign_behind_sign :
    ∃ raw, (compile "a" (String.ofList [' ', 'x', '\t', '-', '=', ' ', '-', '3'])).run {} =
      .ok (⟨String.ofList ['x', '-', '=', '-', '3'],
        ⟨"a", String.ofList ['x'], by decide, by decide⟩, .sub,
        Program.ofExpr (String.ofList ['-', '3'])
          (.unary .neg (.number (Decimal.ofScaled ⟨3, 0⟩)))⟩, ({} : Context).visit raw) := by
  let three : Atom Numeral := .number ⟨⟨['3'], by decide, by decide⟩, none⟩
  let target : Name := .short ⟨['x'], by decide⟩
  let tokens : List Token := [.operator "-", .operand (three.spell Numeral.chars)]
  have hscope : isSegment "a" = true := by decide
  have hop : Arithmetic.grammar.unary.lookup "-" = some ⟨.neg, 3, true⟩ := rfl
  have hover : (Tree.unary UnaryOp.neg (.leaf three) : Tree _ _ InfixOp).Over Arithmetic.grammar :=
    ⟨⟨"-", _, hop, rfl⟩, trivial⟩
  have hw : Arithmetic.grammar.Writes (Atom.spell Numeral.chars) .anything
      (.unary UnaryOp.neg (.leaf three)) tokens := .unary _ hop (.leaf _ _)
  have hchars : tokens.map Token.chars = [['-'], ['3']] := by
    simp only [tokens, List.map_cons, List.map_nil, Atom.chars_spell]
    rfl
  have hs : Text.Spaced (target.chars :: Assignment.sub.symbol.toList :: tokens.map Token.chars)
      [' ', 'x', '\t', '-', '=', ' ', '-', '3'] := by
    rw [hchars]
    exact .cons [' '] (by decide) <| .cons ['\t'] (by decide) <| .cons [' '] (by decide) <|
      .cons [] (by decide) <| .nil [] (by decide)
  have hrun := (compile_of_writes hscope target .sub hover).2 tokens _ {} hw hs
  rw [List.flatMap_def, hchars] at hrun
  exact hrun

end Action

end Gamebook
