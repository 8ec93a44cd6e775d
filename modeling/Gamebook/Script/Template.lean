/-
# Templates

A template is narration with two kinds of markers, each of them a sign and a
body in braces.  A dollar sign marks a variable whose number is shown; a
question mark marks a choice between texts, as in `gold>=10?Rich.|Poor.`: a
condition, the text for when it holds, and after a bar the text for when it
does not.  Markers nest inside the texts of a choice.

`Template.scan` cuts a text into literals and markers; a marker ends at the
brace that closes its own.  Inside a body the first question mark and the first
bar that stand in no inner braces separate.

Templates are compiled once and rendered against the store of the moment.  A
variable that was never assigned is an error, unless a placeholder is given to
show in its place; conditions are never given a placeholder.
-/

import Gamebook.Script.Condition

namespace Gamebook

/-- The brace that opens a body. -/
def openBrace : Char := '\x7b'

/-- The brace that closes a body. -/
def closeBrace : Char := '\x7d'

/-- What a part of a template is. -/
inductive PartKind where
  | literal
  | «variable»
  | conditional
  deriving Repr, DecidableEq

/-- A part of a template: the text of a literal or the body of a marker. -/
structure Part where
  kind : PartKind
  body : List Char
  deriving Repr, DecidableEq

/-- A compiled part of a template. -/
inductive Fragment where
  | literal (text : String)
  | «variable» (i : Identifier)
  | conditional (condition : Condition) (whenTrue : List Fragment)
      (whenFalse : Option (List Fragment))

/-- A compiled template with the text it comes from. -/
structure Template where
  source : String
  fragments : List Fragment

namespace Template

/-- The text before the brace that closes the body, and the text behind it.
`depth` inner bodies are open. -/
def closing : Nat → List Char → Option (List Char × List Char)
  | _, [] => none
  | depth, c :: cs =>
    let go (d : Nat) := (closing d cs).map fun (body, rest) => (c :: body, rest)
    if c = openBrace then go (depth + 1)
    else if c = closeBrace then
      match depth with
      | 0 => some ([], cs)
      | d + 1 => go d
    else go depth

/-- The text before and after the first separator that stands in no inner
braces, `depth` more braces being open than closed. -/
def splitOutside (separator : Char) : Int → List Char → List Char × Option (List Char)
  | _, [] => ([], none)
  | depth, c :: cs =>
    let go (d : Int) :=
      let (before, after) := splitOutside separator d cs
      (c :: before, after)
    if c = openBrace then go (depth + 1)
    else if c = closeBrace then go (depth - 1)
    else if c = separator ∧ depth = 0 then ([], some cs)
    else go depth

/-- The kind of the marker at the front of a text, and the text inside it. -/
def marker? : List Char → Option (PartKind × List Char)
  | '$' :: c :: rest => if c = openBrace then some (.variable, rest) else none
  | '?' :: c :: rest => if c = openBrace then some (.conditional, rest) else none
  | _ => none

/-- Put a character before parts, into the literal they start with if they do. -/
def consLiteral (c : Char) : List Part → List Part
  | ⟨.literal, text⟩ :: rest => ⟨.literal, c :: text⟩ :: rest
  | parts => ⟨.literal, [c]⟩ :: parts

/-- Inside a marker, less of the text is left. -/
theorem length_lt_of_marker? {cs inside : List Char} {kind : PartKind}
    (h : marker? cs = some (kind, inside)) : inside.length < cs.length := by
  unfold marker? at h
  split at h
  · split at h
    · simp only [Option.some.injEq, Prod.mk.injEq] at h
      rw [← h.2]
      simp only [List.length_cons]
      omega
    · simp at h
  · split at h
    · simp only [Option.some.injEq, Prod.mk.injEq] at h
      rw [← h.2]
      simp only [List.length_cons]
      omega
    · simp at h
  · simp at h

/-- A body, its closing brace and the text behind it are the whole text. -/
theorem append_of_closing {depth : Nat} {cs body rest : List Char}
    (h : closing depth cs = some (body, rest)) : cs = body ++ closeBrace :: rest := by
  induction cs generalizing depth body with
  | nil => simp [closing] at h
  | cons c cs ih =>
    simp only [closing] at h
    split at h
    · obtain ⟨⟨b, r⟩, hb, he⟩ := Option.map_eq_some_iff.1 h
      simp only [Prod.mk.injEq] at he
      obtain ⟨rfl, rfl⟩ := he
      simp [ih hb]
    · split at h
      · rename_i hc
        split at h
        · simp only [Option.some.injEq, Prod.mk.injEq] at h
          obtain ⟨rfl, rfl⟩ := h
          simp [hc]
        · obtain ⟨⟨b, r⟩, hb, he⟩ := Option.map_eq_some_iff.1 h
          simp only [Prod.mk.injEq] at he
          obtain ⟨rfl, rfl⟩ := he
          simp [ih hb]
      · obtain ⟨⟨b, r⟩, hb, he⟩ := Option.map_eq_some_iff.1 h
        simp only [Prod.mk.injEq] at he
        obtain ⟨rfl, rfl⟩ := he
        simp [ih hb]

/-- Behind a marker, less of the text is left, so cutting a text into parts ends. -/
theorem length_lt_of_closing {depth : Nat} {cs body rest : List Char}
    (h : closing depth cs = some (body, rest)) : rest.length < cs.length := by
  have := congrArg List.length (append_of_closing h)
  simp only [List.length_append, List.length_cons] at this
  omega

/-- The parts of a template, if all its markers are closed. -/
def scan (cs : List Char) : Option (List Part) :=
  match cs with
  | [] => some []
  | c :: cs =>
    match _hm : marker? (c :: cs) with
    | some (kind, inside) =>
      match _hc : closing 0 inside with
      | none => none
      | some (body, rest) => (scan rest).map fun parts => ⟨kind, body⟩ :: parts
    | none => (scan cs).map fun parts => consLiteral c parts
termination_by cs.length
decreasing_by
  · exact Nat.lt_trans (length_lt_of_closing (by assumption)) (length_lt_of_marker? (by assumption))
  · simp

/-- The parts of a template, all whose markers have to be closed. -/
def parts (cs : List Char) : Compile (List Part) :=
  match scan cs with
  | some ps => pure ps
  | none => Compile.failHere (.unterminatedMarker (String.ofList cs))

/-- Compile a text inside a scope.  The texts of a choice are shorter than the
text around it, so as many steps as there are characters suffice. -/
def compileChars (scope : String) : Nat → List Char → Compile (List Fragment)
  | 0, _ => pure []
  | steps + 1, cs => do
    (← parts cs).mapM fun part =>
      match part.kind with
      | .literal => pure (.literal (String.ofList part.body))
      | .variable => do
        let name := String.ofList (Text.trimChars part.body)
        let i ← Identifier.resolve scope (.string name)
        return .variable i
      | .conditional =>
        match splitOutside '?' 0 part.body with
        | (_, none) => Compile.failHere (.missingBranch (String.ofList part.body))
        | (text, some branches) => do
          let condition ← Condition.compileText scope (String.ofList text)
          match splitOutside '|' 0 branches with
          | (first, none) => do
            let whenTrue ← compileChars scope steps first
            return .conditional condition whenTrue none
          | (first, some second) => do
            let whenTrue ← compileChars scope steps first
            let whenFalse ← compileChars scope steps second
            return .conditional condition whenTrue (some whenFalse)

/-- Compile a template inside a scope. -/
def compileText (scope source : String) : Compile Template := do
  let cs := source.toList
  return ⟨source, ← compileChars scope cs.length cs⟩

/-- Compile a template, which has to be a text. -/
def compile (scope : String) : Json → Compile Template
  | .string source => compileText scope source
  | v => Compile.failHere (.templateNotText v.kind)

/-- A number in narration: a whole one without a fraction, others with the
digits that tell them apart. -/
def showNumber (x : Float) : String :=
  match Decimal.whole? x with
  | some n => Decimal.wholeText n
  | none => Decimal.text x

/-- The number of a variable, or the placeholder if it was never assigned. -/
def renderVariable (placeholder : Option String) (s : Store) (i : Identifier) :
    Except EvalError String :=
  match s.get? i, placeholder with
  | some x, _ => .ok (showNumber x)
  | none, some text => .ok text
  | none, none => .error (.undefined i)

mutual

/-- The text of a fragment. -/
def renderFragment (placeholder : Option String) (s : Store) : Fragment → Except EvalError String
  | .literal text => .ok text
  | .variable i => renderVariable placeholder s i
  | .conditional condition whenTrue whenFalse => do
    if ← condition.holds s then renderAll placeholder s whenTrue
    else renderElse placeholder s whenFalse

/-- The text of fragments, in order. -/
def renderAll (placeholder : Option String) (s : Store) : List Fragment → Except EvalError String
  | [] => .ok ""
  | f :: rest => do
    let first ← renderFragment placeholder s f
    let others ← renderAll placeholder s rest
    return first ++ others

/-- The text for a condition that does not hold, which may be missing. -/
def renderElse (placeholder : Option String) (s : Store) :
    Option (List Fragment) → Except EvalError String
  | none => .ok ""
  | some fragments => renderAll placeholder s fragments

end

/-- The text of a template. -/
def render (placeholder : Option String) (s : Store) (t : Template) : Except EvalError String :=
  renderAll placeholder s t.fragments

/-- The texts of templates that are not empty, in order. -/
def renderLines (placeholder : Option String) (s : Store) (ts : List Template) :
    Except EvalError (List String) := do
  let texts ← ts.mapM (render placeholder s)
  return texts.filter (· != "")

/-- Whether a template has no marker. -/
def isStatic (t : Template) : Bool :=
  t.fragments.all fun f => match f with
    | .literal _ => true
    | _ => false

/-- Whether a template has no part. -/
def isEmpty (t : Template) : Bool := t.fragments.isEmpty

end Template
end Gamebook
