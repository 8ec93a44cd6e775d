/-
# A text in parentheses is read as it is read alone

What an expression is read as does not depend on where it stands in parentheses, however
oddly its tokens are ordered.  Three facts carry this.  A mark behind a text ends the last
token of the text and is not part of it (`Arithmetic.tokens_append`).  Whatever waits below
an opening parenthesis is left alone until the closing one is met, and then the tokens
between them have given the entries that they give alone (`Grammar.arrange_append`).  And
entries that build trees build the same ones above other trees (`Expr.assemble_append`).

So an operand, an operator and an expression in parentheses are read as the operator applied
to both (`Grammar.Reads.enclosed`).
-/

import Gamebook.Proofs.Naming

namespace Gamebook

/-! ## Where a run ends -/

section

variable {γ : Type} {p : γ → Bool} {a : γ}

/-- A run of elements of a kind does not go on behind one that is not of the kind. -/
theorem takeWhile_append_cons (h : p a = false) (xs ys : List γ) :
    (xs ++ a :: ys).takeWhile p = xs.takeWhile p := by
  induction xs with
  | nil => simp [h]
  | cons x xs ih => cases hx : p x <;> simp [hx, ih]

/-- Behind the run there stands what stands behind it alone, and then the rest. -/
theorem dropWhile_append_cons (h : p a = false) (xs ys : List γ) :
    (xs ++ a :: ys).dropWhile p = xs.dropWhile p ++ a :: ys := by
  induction xs with
  | nil => simp [h]
  | cons x xs ih => cases hx : p x <;> simp [hx, ih]

end

/-! ## Tokens -/

namespace Lexeme

variable {c : Char}

/-- What stands behind a character that is no digit does not change which digits are taken. -/
theorem digits_append_cons (h : Text.isDigit c = false) (cs rest : List Char) :
    digits (cs ++ c :: rest) = (digits cs).map (Prod.map id (· ++ c :: rest)) := by
  simp only [digits, takeWhile_append_cons h, dropWhile_append_cons h]
  cases cs.takeWhile Text.isDigit <;> rfl

/-- What stands behind a mark does not change which number is taken. -/
theorem unsigned_append_cons (h : isMark c = true) (cs rest : List Char) :
    unsigned (cs ++ c :: rest) = (unsigned cs).map (Prod.map id (· ++ c :: rest)) := by
  have hdigit := isDigit_of_isMark h
  have hpoint := ne_point_of_isMark h
  rw [unsigned, unsigned, digits_append_cons hdigit]
  cases digits cs with
  | none => rfl
  | some taken =>
    obtain ⟨whole, behind⟩ := taken
    -- behind the whole digits stands the mark, which is no point, or what stood there before
    rcases behind with _ | ⟨d, behind⟩
    · simp [hpoint]
    · by_cases hd : d = '.'
      · subst hd
        simp only [Option.map_some, Option.bind_eq_bind, Option.bind_some, Prod.map,
          List.cons_append, digits_append_cons hdigit]
        cases digits behind <;> rfl
      · simp [hd]

/-- What stands behind a mark does not change which word is taken. -/
theorem word_append_cons (h : isMark c = true) (cs rest : List Char) :
    word (cs ++ c :: rest) = (word cs).map (Prod.map id (· ++ c :: rest)) := by
  have hword := continuesWord_of_isMark h
  cases cs with
  | nil => exact word_eq_none (startsWord_of_isMark h) rest
  | cons d cs =>
    rw [List.cons_append, word, word, takeWhile_append_cons hword, dropWhile_append_cons hword]
    split <;> rfl

/-- Symbols of one character are taken whatever stands behind them. -/
theorem symbol_append {symbols : List String} (h : ∀ s ∈ symbols, s.toList.length = 1) (d : Char)
    (cs rest : List Char) :
    symbol symbols (d :: cs ++ rest) = (symbol symbols (d :: cs)).map (Prod.map id (· ++ rest)) := by
  induction symbols with
  | nil => rfl
  | cons s symbols ih =>
    obtain ⟨hs, hsymbols⟩ := List.forall_mem_cons.1 h
    obtain ⟨e, he⟩ := List.length_eq_one_iff.1 hs
    have ih := ih hsymbols
    simp only [symbol, List.findSome?_cons, he, List.isPrefixOf?, List.cons_append] at ih ⊢
    by_cases hd : e = d
    · simp [hd]
    · simpa only [beq_eq_false_iff_ne.2 hd, Bool.false_eq_true, if_false, Option.map_none] using ih

end Lexeme

namespace Arithmetic

variable {c : Char}

/-- What stands behind a text does not change which operator or parenthesis is taken off it. -/
theorem nextSign_append (d : Char) (cs rest : List Char) :
    alphabet.nextSign (d :: cs ++ rest) =
      (alphabet.nextSign (d :: cs)).map (Prod.map id (· ++ rest)) := by
  unfold Alphabet.nextSign
  rw [Lexeme.symbol_append (by decide)]
  cases Lexeme.symbol alphabet.symbols (d :: cs) with
  | some taken => rfl
  | none =>
    by_cases hopening : d = '('
    · subst hopening
      rfl
    · by_cases hclosing : d = ')'
      · subst hclosing
        rfl
      · simp [hopening, hclosing]

/-- A token is taken from a text as if no mark stood behind the text. -/
theorem next_append_cons (h : Lexeme.isMark c = true) (d : Char) (cs rest : List Char) :
    alphabet.next (d :: cs ++ c :: rest) =
      (alphabet.next (d :: cs)).map (Prod.map id (· ++ c :: rest)) := by
  have hnumber : alphabet.number (d :: cs ++ c :: rest) =
      (alphabet.number (d :: cs)).map (Prod.map id (· ++ c :: rest)) :=
    Lexeme.unsigned_append_cons h (d :: cs) rest
  rw [Alphabet.next_eq, Alphabet.next_eq, hnumber, Lexeme.word_append_cons h, nextSign_append]
  cases alphabet.number (d :: cs) with
  | some taken => rfl
  | none => cases Lexeme.word (d :: cs) <;> rfl

/-- **A mark ends the tokens before it.**  What they are cut into does not depend on it. -/
theorem tokens_append {cs : List Char} {ts : List Token} (hts : alphabet.tokens cs = .ok ts)
    (h : Lexeme.isMark c = true) (rest : List Char) :
    alphabet.tokens (cs ++ c :: rest) = (ts ++ ·) <$> alphabet.tokens (c :: rest) := by
  fun_induction alphabet.tokens cs generalizing ts with
  | case1 =>
    obtain rfl := Except.ok.inj hts
    rw [List.nil_append]
    exact (id_map _).symm
  | case2 d cs t behind hnext hle ih =>
    obtain ⟨ts', hts', hcons⟩ := Grammar.exists_of_bind_eq_ok hts
    obtain rfl := Except.ok.inj hcons
    have hnext : alphabet.next (d :: cs ++ c :: rest) = some (t, behind ++ c :: rest) := by
      rw [next_append_cons h, hnext]
      rfl
    have hlt : (behind ++ c :: rest).length < (d :: cs ++ c :: rest).length := by
      simp only [List.length_append, List.length_cons]
      omega
    rw [Alphabet.tokens_of_next hnext hlt, ih hts', Functor.map_map]
    rfl
  | case3 => contradiction
  | case4 => contradiction

end Arithmetic

/-! ## Postfix order -/

namespace Grammar

variable {α β : Type} {g : Grammar α β}

/-- **Tokens before a closing parenthesis give the entries that they give alone.**  What
waits below the opening one is left alone, and then the tokens behind the closing one go on
with it. -/
theorem arrange_append {ts : List Token} {stack : List (Pending α β)} {expecting : Bool}
    {es : List (Entry α β)} (h : g.arrange ts stack expecting = .ok es) (rest : List Token)
    (below : List (Pending α β)) :
    g.arrange (ts ++ .closing :: rest) (stack ++ .opening :: below) expecting =
      (es ++ ·) <$> g.arrange rest below false := by
  induction ts generalizing stack expecting es with
  | nil =>
    obtain ⟨hstack, rfl⟩ := of_release_eq_ok h
    have hopening : Pending.isOperator (.opening : Pending α β) = false := rfl
    rw [List.nil_append, arrange, dropWhile_append_cons hopening, takeWhile_append_cons hopening,
      List.dropWhile_eq_nil_iff.2 hstack, List.takeWhile_eq_self_iff.2 hstack]
    exact bind_pure_comp _ _
  | cons t ts ih =>
    cases t with
    | operand o =>
      obtain ⟨es', hes, h⟩ := exists_of_bind_eq_ok h
      obtain rfl := Except.ok.inj h
      rw [List.cons_append, arrange, ih hes, bind_pure_comp, Functor.map_map]
      rfl
    | opening => exact ih h
    | closing =>
      have hopening : Pending.isOperator (.opening : Pending α β) = false := rfl
      rw [arrange] at h
      rw [List.cons_append, arrange, dropWhile_append_cons hopening,
        takeWhile_append_cons hopening]
      split at h
      · contradiction
      · rename_i waiting left hleft
        obtain ⟨es', hes, h⟩ := exists_of_bind_eq_ok h
        obtain rfl := Except.ok.inj h
        rw [hleft, List.cons_append]
        simp only [ih hes, bind_pure_comp, Functor.map_map, List.append_assoc]
    | operator s =>
      rw [arrange] at h
      rw [List.cons_append, arrange]
      split at h
      · exact ih h
      · split at h
        · contradiction
        · rename_i op _
          -- what the operator releases lies above the opening parenthesis
          have hopening : Pending.precedes op (.opening : Pending α β) = false := rfl
          obtain ⟨es', hes, h⟩ := exists_of_bind_eq_ok h
          obtain rfl := Except.ok.inj h
          rw [dropWhile_append_cons hopening, takeWhile_append_cons hopening]
          simp only [ih hes, ← List.cons_append, bind_pure_comp, Functor.map_map,
            List.append_assoc]

end Grammar

/-! ## Trees -/

/-- **Entries build above other trees what they build alone**, and the entries behind them
go on with it. -/
theorem Expr.assemble_append {scope : String} {es : List (Entry UnaryOp InfixOp)}
    {built out : List Expr} (h : assemble scope es built = some out)
    (rest : List (Entry UnaryOp InfixOp)) (below : List Expr) :
    assemble scope (es ++ rest) (built ++ below) = assemble scope rest (out ++ below) := by
  induction es generalizing built with
  | nil =>
    obtain rfl := Option.some.inj h
    rfl
  | cons entry es ih =>
    cases entry with
    | operand o =>
      obtain ⟨e, he, h⟩ := Option.bind_eq_some_iff.1 h
      rw [List.cons_append, assemble, he]
      exact ih h
    | unary op =>
      obtain _ | ⟨e, built⟩ := built
      · contradiction
      · exact ih h
    | binary op =>
      obtain _ | ⟨r, _ | ⟨l, built⟩⟩ := built
      · contradiction
      · contradiction
      · exact ih h

/-- **An operand, an operator and an expression in parentheses are read as the operator
applied to both.** -/
theorem Grammar.Reads.enclosed {g : Grammar UnaryOp InfixOp} {scope s : String} {ts : List Token}
    {e l : Expr} {o : Operand} {op : Operator InfixOp} (h : g.Reads scope ts e)
    (hl : Expr.leaf? scope o = some l) (hop : g.binary.lookup s = some op) :
    g.Reads scope (.operand o :: .operator s :: .opening :: (ts ++ [.closing]))
      (Expr.combine op.meaning l e) := by
  obtain ⟨es, hes, hassemble⟩ := h
  refine ⟨.operand o :: (es ++ [.binary op.meaning]), ?_, ?_⟩
  · have hinner := arrange_append hes [] [.binary op]
    simp only [ofTokens, arrange, Bool.false_eq_true, if_false, hop, List.dropWhile_nil,
      List.takeWhile_nil]
    rw [List.nil_append] at hinner
    rw [hinner]
    rfl
  · rw [Expr.assemble, hl]
    exact Expr.assemble_append hassemble [.binary op.meaning] [l]

/-! ## Texts -/

namespace Arithmetic

/-- **A name, an operator and an expression in parentheses** are read as the operator applied
to the variable and the expression. -/
theorem tree?_enclosed {scope s : String} {n : Name} {i : Identifier} {op : Operator InfixOp}
    {cs : List Char} {e : Expr} (hn : n.IsWord) (hi : n.identifier? scope = some i)
    (hop : grammar.binary.lookup s = some op) (h : grammar.tree? alphabet scope cs = some e) :
    grammar.tree? alphabet scope (n.chars ++ (s.toList ++ '(' :: (cs ++ [')']))) =
      some (Expr.combine op.meaning (.variable i) e) := by
  obtain ⟨ts, hts, hreads⟩ := Grammar.tree?_eq_some.1 h
  have hleaf : Expr.leaf? scope (.word n.text) = some (.variable i) := by
    rw [Expr.leaf?, n.ofText?_text, hi]
    rfl
  have hmem := Grammar.mem_of_lookup hop
  have hend : alphabet.tokens [] = .ok [] := by rw [Alphabet.tokens]
  have hclosing : alphabet.tokens [')'] = .ok [.closing] :=
    Alphabet.tokens_append_of_next [')'] (spells.closing []) (List.cons_ne_nil _ _) hend
  have hinner : alphabet.tokens (cs ++ [')']) = .ok (ts ++ [.closing]) := by
    rw [tokens_append hts (by decide), hclosing]
    rfl
  have hopening := Alphabet.tokens_append_of_next ['('] (spells.opening _)
    (List.cons_ne_nil _ _) hinner
  have hoperator := Alphabet.tokens_append_of_next _
    (spells.binary _ hmem ('(' :: (cs ++ [')'])) ⟨_, _, rfl, by decide⟩)
    (spells.binary_ne_nil _ hmem) hopening
  have hname := Alphabet.tokens_append_of_next _
    (spells.operand (.variable ⟨n, hn⟩) _ (spells.binary_ends _ hmem ('(' :: (cs ++ [')']))))
    (spells.operand_opens (.variable ⟨n, hn⟩)).ne_nil hoperator
  rw [Atom.chars_spell] at hname
  exact Grammar.tree?_eq_some.2 ⟨_, hname, hreads.enclosed hleaf hop⟩

end Arithmetic

end Gamebook
