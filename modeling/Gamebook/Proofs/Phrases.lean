/-
# Templates as trees

What an author means by a template is a list of phrases: literal text, the number
of a variable, or a choice between texts by a condition, whose texts are lists of
phrases again.  `Phrase.print` writes a phrase down, `Phrase.fragment` is what it
should be compiled to, and `Phrase.meaning` is the text that it stands for in a
store.

| phrase | written | stands for |
| --- | --- | --- |
| `literal text` | `text` | `text` |
| `variable v` | dollar sign, `v` in braces | the number of `v` |
| `conditional c a none` | question mark, `c?a` in braces | `a` where `c` holds, else nothing |
| `conditional c a (some b)` | question mark, `c?a|b` in braces | `a` where `c` holds, else `b` |

Not every list of phrases can be told from its written form.  Two literals next to
each other are written as one, a literal that holds the beginning of a marker is
read as a marker, and the texts of a choice have to keep to their braces: they
close what they open and nothing else, and the first one shows no bar outside of
braces (`Phrase.WellFormed`).
-/

import Gamebook.Proofs.Acceptance
import Gamebook.Script.Template

namespace Gamebook

/-- A part of a template as it is meant. -/
inductive Phrase where
  | literal (text : List Char)
  | «variable» (v : Name)
  | conditional (condition : Condition) (whenTrue : List Phrase) (whenFalse : Option (List Phrase))

/-- A text closes `depth` braces more than it opens, and no beginning of it closes
more of them than that. -/
structure Braced (depth : Nat) (cs : List Char) : Prop where
  count_eq : cs.count closeBrace = cs.count openBrace + depth
  count_le : ∀ before, before <+: cs → before.count closeBrace ≤ before.count openBrace + depth

/-- A text closes as many braces as it opens, and no beginning of it closes more. -/
abbrev Balanced (cs : List Char) : Prop := Braced 0 cs

/-- A character stands nowhere in a text but inside of braces. -/
def Sheltered (c : Char) (cs : List Char) : Prop :=
  ∀ before after, cs = before ++ c :: after → before.count closeBrace < before.count openBrace

instance (depth : Nat) (cs : List Char) : Decidable (Braced depth cs) :=
  decidable_of_iff (cs.count closeBrace = cs.count openBrace + depth ∧
      ∀ n < cs.length + 1, (cs.take n).count closeBrace ≤ (cs.take n).count openBrace + depth) <| by
    constructor
    · rintro ⟨heq, hle⟩
      refine ⟨heq, fun before hb => ?_⟩
      rw [List.prefix_iff_eq_take.1 hb]
      exact hle _ (Nat.lt_succ_of_le hb.length_le)
    · rintro ⟨heq, hle⟩
      exact ⟨heq, fun n _ => hle _ (List.take_prefix n cs)⟩

instance (c : Char) (cs : List Char) : Decidable (Sheltered c cs) :=
  decidable_of_iff (∀ n < cs.length, cs[n]? = some c →
      (cs.take n).count closeBrace < (cs.take n).count openBrace) <| by
    constructor
    · rintro h before after rfl
      have := h before.length (by simp) (by simp)
      rwa [List.take_left] at this
    · intro h n hn hc
      obtain ⟨_, rfl⟩ := List.getElem?_eq_some_iff.1 hc
      exact h _ (cs.drop (n + 1)) (by simp)

/-- A condition is what its text is compiled to inside a scope. -/
def Condition.Compiled (scope : String) (condition : Condition) : Prop :=
  ∃ c c', (Condition.compileText scope condition.source).run c = .ok (condition, c')

namespace Phrase

/-- Whether a phrase is literal text. -/
def isLiteral : Phrase → Bool
  | literal _ => true
  | _ => false

mutual

/-- How a phrase is written. -/
def print : Phrase → List Char
  | literal text => text
  | «variable» v => '$' :: openBrace :: (v.chars ++ [closeBrace])
  | conditional condition whenTrue whenFalse =>
    '?' :: openBrace :: (condition.source.toList ++
      '?' :: (printAll whenTrue ++ printElse whenFalse) ++ [closeBrace])

/-- How phrases are written, one behind the other. -/
def printAll : List Phrase → List Char
  | [] => []
  | p :: ps => print p ++ printAll ps

/-- How the text for a condition that does not hold is written, behind a bar. -/
def printElse : Option (List Phrase) → List Char
  | none => []
  | some ps => '|' :: printAll ps

end

variable (scope : String)

mutual

/-- Whether a phrase can be told from its written form. -/
def WellFormed : Phrase → Prop
  | literal text => text ≠ [] ∧ ¬['$', openBrace] <:+: text ∧ ¬['?', openBrace] <:+: text
  | «variable» _ => True
  | conditional condition whenTrue whenFalse =>
    condition.Compiled scope ∧
      (WellFormedAll whenTrue ∧ Balanced (printAll whenTrue) ∧ Sheltered '|' (printAll whenTrue)) ∧
      WellFormedElse whenFalse

/-- Whether phrases can be told from their written form: each of them can, and no
literal stands behind another one. -/
def WellFormedAll : List Phrase → Prop
  | [] => True
  | p :: ps =>
    WellFormed p ∧ (p.isLiteral = true → ∀ q ∈ ps.head?, q.isLiteral = false) ∧ WellFormedAll ps

/-- Whether the text for a condition that does not hold can be told from its
written form. -/
def WellFormedElse : Option (List Phrase) → Prop
  | none => True
  | some ps => WellFormedAll ps ∧ Balanced (printAll ps)

end

variable (h : isSegment scope = true)

mutual

/-- What a phrase is compiled to inside a scope. -/
def fragment : Phrase → Fragment
  | literal text => .literal (String.ofList text)
  | «variable» v => .variable (v.identifier scope h)
  | conditional condition whenTrue whenFalse =>
    .conditional condition (fragments whenTrue) (fragmentsElse whenFalse)

/-- What phrases are compiled to. -/
def fragments : List Phrase → List Fragment
  | [] => []
  | p :: ps => fragment p :: fragments ps

/-- What the text for a condition that does not hold is compiled to. -/
def fragmentsElse : Option (List Phrase) → Option (List Fragment)
  | none => none
  | some ps => some (fragments ps)

end

/-- Texts one behind the other, or the first error among them. -/
def concat (texts : List (Except EvalError String)) : Except EvalError String :=
  String.join <$> texts.mapM id

variable (placeholder : Option String) (s : Store)

mutual

/-- What a phrase stands for in a store.  Of a choice between texts only the one
that the condition selects is looked at. -/
def meaning : Phrase → Except EvalError String
  | literal text => .ok (String.ofList text)
  | «variable» v =>
    match s.get? (v.identifier scope h) with
    | some x => .ok (Template.showNumber x)
    | none => placeholder.elim (.error (.undefined (v.identifier scope h))) .ok
  | conditional condition whenTrue whenFalse => do
    if ← condition.holds s then concat (meanings whenTrue) else concat (meaningsElse whenFalse)

/-- What phrases stand for, each for itself. -/
def meanings : List Phrase → List (Except EvalError String)
  | [] => []
  | p :: ps => meaning p :: meanings ps

/-- What the phrases for a condition that does not hold stand for. -/
def meaningsElse : Option (List Phrase) → List (Except EvalError String)
  | none => []
  | some ps => meanings ps

end

/-- Phrases become fragments one by one. -/
theorem fragments_eq_map (ps : List Phrase) :
    fragments scope h ps = ps.map (fragment scope h) := by
  induction ps with
  | nil => rw [fragments, List.map_nil]
  | cons p ps ih => rw [fragments, ih, List.map_cons]

/-- Phrases mean something one by one. -/
theorem meanings_eq_map (ps : List Phrase) :
    meanings scope h placeholder s ps = ps.map (meaning scope h placeholder s) := by
  induction ps with
  | nil => rw [meanings, List.map_nil]
  | cons p ps ih => rw [meanings, ih, List.map_cons]

/-- The part of a template that a phrase is found as. -/
def part : Phrase → Part
  | literal text => ⟨.literal, text⟩
  | «variable» v => ⟨.variable, v.chars⟩
  | conditional condition whenTrue whenFalse =>
    ⟨.conditional, condition.source.toList ++ '?' :: (printAll whenTrue ++ printElse whenFalse)⟩

end Phrase
end Gamebook
