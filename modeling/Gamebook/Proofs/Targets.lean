/-
# What is assigned can be read

The target of an action is written as a name (`Action.exists_name_of_gives`), and every name
can be a target.  Where the name starts with a letter or an underscore, an expression and a
condition that consist of it load the target's variable, and a range of it holds where the
number of that variable lies within the bounds; where it starts with a digit, none of them
ever loads it (`Name.read_back_iff`).
-/

import Gamebook.Proofs.Naming

namespace Gamebook

/-! ## Ranges of a name -/

namespace Bounds

/-- The comparisons that bounds mean for an identifier. -/
def expr (i : Identifier) : Bounds → Expr
  | atLeast low => .binary .atLeast (.variable i) (.number low.value)
  | atMost high => .binary .atMost (.variable i) (.number high.value)
  | between low high =>
    .logical .and (.binary .atLeast (.variable i) (.number low.value))
      (.binary .atMost (.variable i) (.number high.value))

/-- Whether the number of a variable lies within bounds, if it is set. -/
def test (i : Identifier) (s : Store) (b : Bounds) : Except EvalError Bool :=
  match s.get? i with
  | some x => .ok (b.contain x)
  | none => .error (.undefined i)

variable {scope : String} {i : Identifier} (b : Bounds)

/-- The comparisons that bounds mean are those of their tree. -/
theorem toExpr_tree (h : isSegment scope = true) (v : Variable) :
    (b.tree v).toExpr (Atom.meaning SignedNumeral.value scope h) =
      b.expr (v.name.identifier scope h) := by
  cases b <;> rfl

/-- The comparisons that bounds mean compare numbers, and hold where the number lies
within the bounds. -/
theorem expr_agrees (v : Variable) (hi : v.name.identifier? scope = some i) :
    Condition.firstMisfit? (b.expr i) = none ∧
      ∀ s, Value.isTrue <$> (b.expr i).eval s = b.test i s := by
  obtain ⟨own, hown, rfl⟩ := Name.exists_identifier hi
  have hagrees := Agrees.range (h := hown) v b
  rw [← b.toExpr_tree hown v]
  refine ⟨hagrees.fits, fun s => (hagrees.holds s).trans ?_⟩
  rw [Guard.holds, Variable.read, test]
  cases s.get? (v.name.identifier own hown) <;> rfl

/-- The tree of bounds is read where the name of their variable is. -/
theorem assemble_tree (scope : String) (v : Variable) :
    Expr.assemble scope ((b.tree v).postorder (Atom.spell SignedNumeral.chars)) [] =
      (v.name.identifier? scope).map fun i => [b.expr i] := by
  have hword : Expr.leaf? scope (.word (String.ofList v.chars)) =
      (v.name.identifier? scope).map .variable := by
    rw [← Name.ofText?_text]
    rfl
  have hnumber (n : SignedNumeral) :
      Expr.leaf? scope (.number (String.ofList n.chars)) = some (.number n.value) := by
    rw [Expr.leaf?, n.numeralValue_chars]
  cases hi : v.name.identifier? scope <;> rw [hi] at hword <;> cases b <;>
    simp [tree, Tree.postorder, Atom.spell, Expr.assemble, hword, hnumber, Expr.combine, expr]

end Bounds

namespace Name

/-- How a range of a name is written. -/
def rangeChars (n : Name) (b : Bounds) : List Char := n.chars ++ '=' :: b.pieces.flatten

/-- The text of a range of a name. -/
def rangeText (n : Name) (b : Bounds) : String := String.ofList (n.rangeChars b)

/-- A range of a name is written without blanks. -/
theorem solid_rangeChars (n : Name) (b : Bounds) : Text.Solid (n.rangeChars b) :=
  n.solid.append ((Text.Solid.flatten b.solid).cons (by decide))

end Name

/-- A range at the end of a text is replaced by its comparisons. -/
theorem Variable.expandRanges_rangeChars (v : Variable) (b : Bounds) :
    expandRanges (v.name.rangeChars b) = .ok ((Item.range v b).tokens.flatMap Token.chars) :=
  expandRanges_of_append
    (expandRanges_of_take? (b.take?_append v nofun) (b.comparisons?_written v))

/-- A text in which no word starts has no ranges to replace. -/
theorem expandRanges_of_not_startsWord {cs : List Char}
    (h : ∀ c ∈ cs, Lexeme.startsWord c = false) : expandRanges cs = .ok cs :=
  expandRanges_of_append (expandRanges_append_of_not_startsWord h [])

/-- No word starts in bounds. -/
theorem Bounds.startsWord_of_mem (b : Bounds) {c : Char} (h : c ∈ b.pieces.flatten) :
    Lexeme.startsWord c = false := by
  obtain ⟨p, hp, hc⟩ := List.mem_flatten.1 h
  have hpoint : Lexeme.startsWord '.' = false := by decide
  have hpoints : ∀ d ∈ ['.', '.'], Lexeme.startsWord d = false := by simp [hpoint]
  cases b with
  | atLeast low =>
    simp only [pieces, List.mem_cons, List.not_mem_nil, or_false] at hp
    rcases hp with rfl | rfl
    · exact low.startsWord_of_mem hc
    · exact hpoints c hc
  | atMost high =>
    simp only [pieces, List.mem_cons, List.not_mem_nil, or_false] at hp
    rcases hp with rfl | rfl
    · exact hpoints c hc
    · exact high.startsWord_of_mem hc
  | between low high =>
    simp only [pieces, List.mem_cons, List.not_mem_nil, or_false] at hp
    rcases hp with rfl | rfl | rfl
    · exact low.startsWord_of_mem hc
    · exact hpoints c hc
    · exact high.startsWord_of_mem hc

/-- The two points of bounds stand together. -/
theorem Bounds.hasTwoPoints_pieces (b : Bounds) : hasTwoPoints b.pieces.flatten = true := by
  have hlow (n : SignedNumeral) (rest : List Char) :
      hasTwoPoints (n.chars ++ '.' :: '.' :: rest) = true := by
    rw [show n.chars = Term.chars (.number n) from rfl, Term.hasTwoPoints_append, hasTwoPoints]
  cases b with
  | atLeast low => exact hlow low []
  | atMost high => rfl
  | between low high => exact hlow low (high.chars ++ [])

/-- A condition is refused if no formula is left when its ranges are replaced. -/
theorem Condition.compiled?_eq_none {cs : List Char} {scope : String} (hs : Text.Solid cs)
    (h : ∀ source, expandRanges cs = .ok source → hasTwoPoints source = false →
      grammar.tree? alphabet scope source = none) :
    compiled? scope (String.ofList cs) = none := by
  rw [compiled?, hs.compact_ofList, Option.bind_eq_none_iff]
  intro source hsource
  rw [expanded?, String.toList_ofList, Option.bind_eq_some_iff] at hsource
  obtain ⟨text, htext, hsource⟩ := hsource
  split at hsource
  · contradiction
  · rename_i hpoints
    obtain rfl := Option.some.inj hsource
    rw [String.toList_ofList, h text (toOption_eq_some.1 htext) (by simpa using hpoints)]
    exact ite_self _

namespace Name

variable {n : Name} (scope : String) (b : Bounds)

/-- **A range of a name that starts with a letter or an underscore** is compiled to its
comparisons. -/
theorem gives_range_of_isWord (h : n.IsWord) :
    (Condition.compile scope (.string (n.rangeText b))).Gives ((n.identifier? scope).map fun i =>
      ⟨n.rangeText b, Program.ofExpr (n.rangeText b) (b.expr i)⟩) := by
  let v : Variable := ⟨n, h⟩
  have hwrites := v.writes_range b .anything
  have hpoints := Condition.hasTwoPoints_append_of_writes hwrites []
  rw [List.append_nil] at hpoints
  have htree : Condition.grammar.tree? Condition.alphabet scope
      ((Item.range v b).tokens.flatMap Token.chars) = (n.identifier? scope).map b.expr := by
    rw [Grammar.tree?, Condition.spells.tokens_of_writes hwrites, Except.toOption,
      Option.bind_some, Grammar.ofTokens_of_writes Condition.ranked hwrites, Except.toOption,
      Option.bind_some, b.assemble_tree scope v]
    cases n.identifier? scope <;> rfl
  have hgives := Condition.gives_compile scope (n.rangeText b)
  rw [rangeText, Condition.compiled?_of_solid (n.solid_rangeChars b) (v.expandRanges_rangeChars b)
    hpoints (Condition.spells.opens hwrites).ne_nil, htree] at hgives
  cases hi : n.identifier? scope with
  | none =>
    rw [hi] at hgives
    exact hgives
  | some i =>
    simp only [hi, Option.map_some, Option.bind_some, (b.expr_agrees v hi).1, if_true] at hgives
    exact hgives

/-- **A range of a name that starts with a digit** is refused. -/
theorem gives_range_of_not_isWord (h : ¬n.IsWord) :
    (Condition.compile scope (.string (n.rangeText b))).Gives none := by
  have hgives := Condition.gives_compile scope (n.rangeText b)
  rw [rangeText, Condition.compiled?_eq_none (n.solid_rangeChars b) fun source hx hp => ?_]
    at hgives
  · exact hgives
  have digits (ds : Digits) (rest : List Char) :
      expandRanges (ds.chars ++ rest) = (ds.chars ++ ·) <$> expandRanges rest :=
    expandRanges_append_of_not_startsWord
      (fun c hc => Numeral.startsWord_of_mem ⟨ds, none⟩ hc) rest
  obtain ⟨ds, hds | ⟨v, hv⟩ | ⟨rest, hrest⟩⟩ := n.exists_digits h
  · -- no word starts anywhere, so the two points are left
    have hplain : ∀ c ∈ '=' :: b.pieces.flatten, Lexeme.startsWord c = false := by
      rintro c (_ | ⟨_, hc⟩)
      · decide
      · exact b.startsWord_of_mem hc
    rw [rangeChars, hds, digits, expandRanges_of_not_startsWord hplain] at hx
    obtain rfl := Except.ok.inj hx
    have hdigits : ∀ c ∈ ds.chars, c ≠ '.' := fun c hc => ds.ne_of_mem hc (by decide)
    rw [hasTwoPoints_append hdigits, hasTwoPoints_cons (by decide), b.hasTwoPoints_pieces] at hp
    contradiction
  · -- the range of a variable is replaced, and the digits are an operand before it
    have hchars : n.rangeChars b = ds.chars ++ v.name.rangeChars b := by
      rw [rangeChars, hv, List.append_assoc]
      rfl
    rw [hchars, digits, v.expandRanges_rangeChars] at hx
    obtain rfl := Except.ok.inj hx
    have htokens := Condition.ordinary.tokens_digits ds
      ((Item.range v b).tokens.flatMap Token.chars) (.cons (by decide) _) nofun
    rw [Condition.spells.tokens_of_writes (v.writes_range b .anything)] at htokens
    refine Grammar.tree?_operand_cons htokens ?_ rfl
    rw [Grammar.sentence_iff_wellPlaced]
    cases b <;> rfl
  · have hchars : n.rangeChars b = ds.chars ++ ':' :: (rest ++ '=' :: b.pieces.flatten) := by
      rw [rangeChars, hrest, List.append_assoc]
      rfl
    rw [hchars, digits, expandRanges_cons (WrittenRange.take?_eq_none (by decide) _)] at hx
    cases htext : expandRanges (rest ++ '=' :: b.pieces.flatten) with
    | error name =>
      rw [htext] at hx
      contradiction
    | ok text =>
      rw [htext] at hx
      obtain rfl := Except.ok.inj hx
      have htokens := Condition.ordinary.tokens_digits ds (':' :: text)
        (.cons (by decide) _) nofun
      rw [Condition.ordinary.tokens_colon] at htokens
      exact Grammar.tree?_of_error htokens

end Name

/-! ## Targets -/

/-- A text without line feeds that means an identifier is a name. -/
theorem Identifier.exists_name {scope raw : String} {i : Identifier}
    (h : ofText? scope raw = some i) (hraw : '\n' ∉ raw.toList) :
    ∃ n : Name, raw.toList = n.chars ∧ n.identifier? scope = some i := by
  have means (n : Name) (hn : raw.toList = n.chars) : n.identifier? scope = some i := by
    rw [← n.ofText?_text, Name.text, ← hn, String.ofList_toList, h]
  by_cases hcolon : ':' ∈ raw.toList
  · have hcanonical := (ofText?_eq_some_iff hcolon).1 h
    obtain ⟨own, name, hn⟩ := (exists_canonical_eq_iff_isPlain hraw).1 ⟨i, hcanonical⟩
    exact ⟨_, hn, means _ hn⟩
  · obtain ⟨-, rfl⟩ := parts_of_ofText? h hcolon
    obtain ⟨w, hw⟩ := isSegmentChars_iff.1 i.name_isSegment
    exact ⟨.short w, hw.eq_chars hraw, means (.short w) (hw.eq_chars hraw)⟩

namespace Action

/-- **The target of an action is written as a name.** -/
theorem exists_name_of_gives {scope text : String} {a : Action}
    (h : (compile scope text).Gives (some a)) : ∃ n : Name, n.identifier? scope = some a.target ∧
      n.chars ++ a.sign.symbol.toList <+: (Text.compact text).toList := by
  obtain ⟨before, after, htext, htarget, -⟩ := h.of_yields (yields_parts scope text)
  have hfeed : '\n' ∉ (String.ofList before).toList := by
    rw [String.toList_ofList]
    intro hmem
    have hcompact : '\n' ∈ (Text.compact text).toList := htext ▸ List.mem_append_left _ hmem
    rw [Text.compact, String.toList_ofList] at hcompact
    exact absurd (Text.isBlank_of_mem_compactChars hcompact) (by decide)
  obtain ⟨n, hn, hi⟩ := Identifier.exists_name htarget hfeed
  refine ⟨n, hi, after, ?_⟩
  rw [htext, ← hn, String.toList_ofList, List.append_assoc]

/-- A text that is a name, a sign and an expression but for its blanks is compiled to the
assignment. -/
theorem gives_of_compactChars {scope text : String} {n : Name} {i : Identifier}
    (hi : n.identifier? scope = some i) (sign : Assignment) {after : List Char} {p : Program}
    (htext : Text.compactChars text.toList = n.chars ++ (sign.symbol.toList ++ after))
    (hne : after ≠ []) (hp : Arithmetic.compiled? scope (String.ofList after) = some p) :
    (compile scope text).Gives (some ⟨Text.compact text, i, sign, p⟩) := by
  have hsplit : Assignment.split? (Text.compact text).toList = some (n.chars, sign, after) := by
    rw [Text.compact, String.toList_ofList, htext]
    exact Assignment.split?_append (fun _ => n.continuesWord) sign after
  rw [compile_of_split hsplit n.ne_nil hne]
  have htarget := Identifier.gives_resolve scope n.text
  have hprogram := Arithmetic.gives_compile scope (String.ofList after)
  rw [n.ofText?_text, hi] at htarget
  rw [hp] at hprogram
  exact htarget.andThen (hprogram.andThen (Compile.gives_pure _))

/-- Every name can be a target. -/
theorem gives_of_name {scope : String} {n : Name} {i : Identifier}
    (hi : n.identifier? scope = some i) (sign : Assignment) {after : List Char} {p : Program}
    (hs : Text.Solid after) (hne : after ≠ [])
    (hp : Arithmetic.compiled? scope (String.ofList after) = some p) :
    (compile scope (String.ofList (n.chars ++ (sign.symbol.toList ++ after)))).Gives
      (some ⟨String.ofList (n.chars ++ (sign.symbol.toList ++ after)), i, sign, p⟩) := by
  have hsolid := n.solid.append (sign.solid_symbol.append hs)
  have htext : Text.compactChars (String.ofList (n.chars ++ (sign.symbol.toList ++ after))).toList =
      n.chars ++ (sign.symbol.toList ++ after) := by
    rw [String.toList_ofList, hsolid.compactChars_eq]
  have hgives := gives_of_compactChars hi sign htext hne hp
  rwa [hsolid.compact_ofList] at hgives

end Action

namespace Name

/-- **What is assigned can be read where its name starts with a letter or an underscore**, by
expressions, conditions and ranges alike, and nowhere else. -/
theorem read_back_iff (n : Name) (scope : String) :
    (∀ own name, n = .full own name →
      ∃ i, n.identifier? scope = some i ∧ i.scope = own.text ∧ i.name = name.text) ∧
    (∀ name, n = .short name → isSegment scope = true →
      ∃ i, n.identifier? scope = some i ∧ i.scope = scope ∧ i.name = name.text) ∧
    (∀ i, n.identifier? scope = some i →
      ((Arithmetic.compile scope n.text).Gives (some ⟨n.text, [.load i]⟩) ↔ n.IsWord) ∧
      ((Condition.compile scope (.string n.text)).Gives (some ⟨n.text, ⟨n.text, [.load i]⟩⟩) ↔
        n.IsWord) ∧
      ∀ b : Bounds, (∃ condition, (Condition.compile scope (.string (n.rangeText b))).Gives
        (some condition) ∧ ∀ s, condition.holds s = b.test i s) ↔ n.IsWord) ∧
    (¬n.IsWord →
      (Arithmetic.compile scope n.text).Gives (n.numeral?.map fun x => ⟨n.text, [.push x]⟩) ∧
      (Condition.compile scope (.string n.text)).Gives
        (n.numeral?.map fun x => ⟨n.text, ⟨n.text, [.push x]⟩⟩) ∧
      ∀ b : Bounds, (Condition.compile scope (.string (n.rangeText b))).Gives none) ∧
    ∀ text a, (Action.compile scope text).Gives (some a) →
      ∃ target : Name, target.identifier? scope = some a.target ∧
        target.chars ++ a.sign.symbol.toList <+: (Text.compact text).toList := by
  refine ⟨?_, ?_, fun i hi => ⟨⟨fun h => ?_, fun h => ?_⟩, ⟨fun h => ?_, fun h => ?_⟩,
    fun b => ⟨fun ⟨condition, h, _⟩ => ?_, fun h => ?_⟩⟩, fun h => ?_,
    fun text a => Action.exists_name_of_gives⟩
  · rintro own name rfl
    exact ⟨_, rfl, rfl, rfl⟩
  · rintro name rfl hscope
    exact ⟨_, identifier?_of_isSegment _ hscope, rfl, rfl⟩
  · by_contra hdigit
    have hgives := h.unique (gives_of_not_isWord scope hdigit).1
    cases hx : n.numeral? <;> simp [hx] at hgives
  · have hgives := (gives_of_isWord scope h).1
    rwa [hi] at hgives
  · by_contra hdigit
    have hgives := h.unique (gives_of_not_isWord scope hdigit).2
    cases hx : n.numeral? <;> simp [hx] at hgives
  · have hgives := (gives_of_isWord scope h).2
    rwa [hi] at hgives
  · by_contra hdigit
    exact absurd (h.unique (gives_range_of_not_isWord scope b hdigit)) (by simp)
  · have hgives := gives_range_of_isWord scope b h
    rw [hi] at hgives
    refine ⟨_, hgives, fun s => ?_⟩
    rw [Condition.holds, Expr.run_ofExpr, ← (b.expr_agrees ⟨n, h⟩ hi).2 s, bind_pure_comp]
  · obtain ⟨harithmetic, hcondition⟩ := gives_of_not_isWord scope h
    exact ⟨harithmetic, hcondition, fun b => gives_range_of_not_isWord scope b h⟩

/-- The action `1x=5` assigns a number to the variable that `1x` means, and `1x` is refused
as an expression and as a condition. -/
theorem read_back_digit :
    (∃ a, (Action.compile "a" "1x=5").Gives (some a) ∧ a.target.canonical = "a:1x") ∧
      (Arithmetic.compile "a" "1x").Gives none ∧
      (Condition.compile "a" (.string "1x")).Gives none := by
  let n : Name := .short ⟨['1', 'x'], by decide⟩
  let i : Identifier := ⟨"a", "1x", by decide, by decide⟩
  have hi : n.identifier? "a" = some i := rfl
  have hdigit : ¬n.IsWord := fun h => absurd (h '1' rfl) (by decide)
  have hnumeral : n.numeral? = none := rfl
  have hread := gives_of_not_isWord "a" hdigit
  rw [hnumeral] at hread
  let five : Name := .short ⟨['5'], by decide⟩
  have hfive : ¬five.IsWord := fun h => absurd (h '5' rfl) (by decide)
  have hassigned := Action.gives_of_name hi .set five.solid five.ne_nil
    ((Arithmetic.gives_compile "a" five.text).unique (gives_of_not_isWord "a" hfive).1)
  exact ⟨⟨_, hassigned, rfl⟩, hread⟩

end Name
end Gamebook
