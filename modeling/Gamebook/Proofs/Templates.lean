/-
# Templates are read back

The scanners of templates count braces, each for itself: one looks for the brace
that closes a marker, one for the first question mark of a choice and one for the
first bar, both outside of inner braces.  On a text that closes what it opens all
three counts come back to where they were (`closing_append`,
`splitOutside_append`), so a marker ends at the brace it was written with, and its
body is cut where it was put together.

A literal ends where the next marker begins: behind its last character there stands
a sign and not a brace (`scan_append_literal`).  So the parts of a written template
are those of its phrases (`scan_printAll`), and by induction on the length of the
text they are compiled to the fragments of its phrases, whose texts are what the
phrases mean (`compile_printAll`).
-/

import Gamebook.Proofs.Characters
import Gamebook.Proofs.Phrases

namespace Gamebook

namespace Braced

variable {depth : Nat} {c : Char} {cs : List Char}

/-- Behind an opening brace, one more is open than in front of it. -/
theorem of_open (h : Braced depth (openBrace :: cs)) : Braced (depth + 1) cs where
  count_eq := by
    have := h.count_eq
    simp only [List.count_cons] at this
    have hne : (openBrace == closeBrace) = false := by decide
    simp only [hne, beq_self_eq_true, if_true, Bool.false_eq_true, if_false] at this
    omega
  count_le before hb := by
    have := h.count_le (openBrace :: before) (List.cons_prefix_cons.2 ⟨rfl, hb⟩)
    have hne : (openBrace == closeBrace) = false := by decide
    simp only [List.count_cons, hne, beq_self_eq_true, if_true, Bool.false_eq_true,
      if_false] at this
    omega

/-- A closing brace needs one that is open, and behind it one less is. -/
theorem of_close (h : Braced depth (closeBrace :: cs)) :
    ∃ outer, depth = outer + 1 ∧ Braced outer cs := by
  have hne : (closeBrace == openBrace) = false := by decide
  have hone := h.count_le [closeBrace] (List.cons_prefix_cons.2 ⟨rfl, List.nil_prefix⟩)
  have htotal := h.count_eq
  simp only [List.count_cons, List.count_nil, hne, beq_self_eq_true, if_true, Bool.false_eq_true,
    if_false] at hone htotal
  obtain ⟨outer, rfl⟩ : ∃ outer, depth = outer + 1 := ⟨depth - 1, by omega⟩
  refine ⟨outer, rfl, by omega, fun before hb => ?_⟩
  have := h.count_le (closeBrace :: before) (List.cons_prefix_cons.2 ⟨rfl, hb⟩)
  simp only [List.count_cons, hne, beq_self_eq_true, if_true, Bool.false_eq_true,
    if_false] at this
  omega

/-- A character that is no brace leaves as many open as there were. -/
theorem of_cons (h : Braced depth (c :: cs)) (ho : c ≠ openBrace) (hc : c ≠ closeBrace) :
    Braced depth cs where
  count_eq := by simpa only [List.count_cons_of_ne ho, List.count_cons_of_ne hc] using h.count_eq
  count_le before hb := by
    have := h.count_le (c :: before) (List.cons_prefix_cons.2 ⟨rfl, hb⟩)
    simpa only [List.count_cons_of_ne ho, List.count_cons_of_ne hc] using this

end Braced

/-- No character of a text is a brace. -/
def Braceless (cs : List Char) : Prop := ∀ c ∈ cs, c ≠ openBrace ∧ c ≠ closeBrace

/-- Without braces, they match. -/
theorem Braceless.balanced {cs : List Char} (h : Braceless cs) : Balanced cs := by
  have hopen : openBrace ∉ cs := fun hc => (h _ hc).1 rfl
  have hclose : closeBrace ∉ cs := fun hc => (h _ hc).2 rfl
  refine ⟨?_, fun before hb => ?_⟩
  · rw [List.count_eq_zero_of_not_mem hclose, List.count_eq_zero_of_not_mem hopen]
  · rw [List.count_eq_zero_of_not_mem fun hc => hclose (hb.subset hc)]
    exact Nat.zero_le _

/-- A text without blanks has none around it. -/
theorem Text.Solid.trimChars_eq {cs : List Char} (h : Solid cs) : trimChars cs = cs := by
  have hdrop {cs : List Char} (h : Solid cs) : cs.dropWhile isBlank = cs := by
    cases cs with
    | nil => rfl
    | cons c cs => rw [List.dropWhile_cons, if_neg (by simp [h c (List.mem_cons_self ..)])]
  have hreverse : Solid cs.reverse := fun c hc => h c (List.mem_reverse.1 hc)
  rw [trimChars, hdrop h, hdrop hreverse, List.reverse_reverse]

/-- Balanced texts are balanced one behind the other. -/
theorem Balanced.append {a b : List Char} (ha : Balanced a) (hb : Balanced b) :
    Balanced (a ++ b) := by
  have hfront := ha.count_eq
  refine ⟨?_, fun before ⟨behind, h⟩ => ?_⟩
  · have := hb.count_eq
    simp only [List.count_append]
    omega
  · rcases List.append_eq_append_iff.1 h with ⟨middle, rfl, -⟩ | ⟨middle, rfl, rfl⟩
    · exact ha.count_le before (List.prefix_append ..)
    · have := hb.count_le middle (List.prefix_append ..)
      simp only [List.count_append]
      omega

/-- A name has no braces in it. -/
theorem Name.braceless (v : Name) : Braceless v.chars := by
  intro c hc
  have hword := v.continuesWord hc
  refine ⟨?_, ?_⟩ <;> rintro rfl <;> exact absurd hword (by decide)

/-- A condition that is compiled has no braces and no question mark in it. -/
theorem Condition.Compiled.plain {scope : String} {condition : Condition}
    (h : condition.Compiled scope) :
    Braceless condition.source.toList ∧ '?' ∉ condition.source.toList := by
  obtain ⟨c, c', hc⟩ := h
  have haccepts : (compile scope (.string condition.source)).Accepts c := ⟨condition, c', hc⟩
  have hne {d e : Char} (hd : d ∈ condition.source.toList)
      (he : Text.isBlank e = false ∧ Lexeme.isInk e = false) : d ≠ e := by
    rintro rfl
    exact absurd (isInk_of_accepts haccepts hd he.1) (by simp [he.2])
  exact ⟨fun d hd => ⟨hne hd (by decide), hne hd (by decide)⟩, fun hd => hne hd (by decide) rfl⟩

/-- What a condition is compiled to does not depend on the context. -/
theorem Condition.Compiled.gives {scope : String} {condition : Condition}
    (h : condition.Compiled scope) :
    (Condition.compileText scope condition.source).Gives (some condition) := by
  obtain ⟨c, c', hc⟩ := h
  have hgives : (Condition.compileText scope condition.source).Gives
    (compiled? scope condition.source) := gives_compile scope condition.source
  cases hr : compiled? scope condition.source with
  | none =>
    rw [hr] at hgives
    obtain ⟨d, hd⟩ := hgives c
    exact absurd (hc.symm.trans hd) (by simp)
  | some condition' =>
    rw [hr] at hgives
    obtain ⟨c'', hc'⟩ := hgives c
    obtain ⟨rfl, -⟩ := Prod.mk.inj (Except.ok.inj (hc.symm.trans hc'))
    exact hgives

/-- Every text that is accepted is the text of a condition. -/
theorem Condition.exists_compiled {scope text : String} {c : Context}
    (h : (Condition.compileText scope text).Accepts c) :
    ∃ condition : Condition, condition.source = text ∧ condition.Compiled scope := by
  have hgives : (Condition.compileText scope text).Gives (compiled? scope text) :=
    gives_compile scope text
  obtain ⟨condition, hcondition⟩ := hgives.accepts_iff.1 h
  obtain rfl := source_of_compiled? hcondition
  rw [hcondition] at hgives
  obtain ⟨c', hc⟩ := hgives c
  exact ⟨condition, rfl, c, c', hc⟩

namespace Template

/-! ## What the scanners make of balanced texts -/

/-- A text that closes `inner` braces more than it opens is passed over while
`depth + inner` are open. -/
theorem closing_append {inner : Nat} {cs : List Char} (h : Braced inner cs) (depth : Nat)
    (rest : List Char) :
    closing (depth + inner) (cs ++ rest) =
      (closing depth rest).map fun (body, behind) => (cs ++ body, behind) := by
  induction cs generalizing inner with
  | nil =>
    obtain rfl : inner = 0 := by simpa using h.count_eq.symm
    simp
  | cons c cs ih =>
    simp only [List.cons_append, closing]
    by_cases ho : c = openBrace
    · subst ho
      have := ih h.of_open
      simp only [if_true, Nat.add_assoc, this, Option.map_map]
      rfl
    · by_cases hc : c = closeBrace
      · subst hc
        obtain ⟨outer, rfl, hcs⟩ := h.of_close
        have : closing (depth.add outer) (cs ++ rest) = _ := ih hcs
        simp only [if_neg ho, if_true, this, Option.map_map]
        rfl
      · have := ih (h.of_cons ho hc)
        simp only [if_neg ho, if_neg hc, this, Option.map_map]
        rfl

/-- A balanced body ends at the brace behind it. -/
theorem closing_of_balanced {body : List Char} (h : Balanced body) (rest : List Char) :
    closing 0 (body ++ closeBrace :: rest) = some (body, rest) := by
  have hclose : closing 0 (closeBrace :: rest) = some ([], rest) := by
    have hne : closeBrace ≠ openBrace := by decide
    simp only [closing, if_neg hne, if_true]
  have := closing_append h 0 (closeBrace :: rest)
  rw [Nat.add_zero, hclose] at this
  simpa using this

variable {separator : Char}

/-- Where braces are open as counted from `depth` before a text, no separator in it
stands outside of them. -/
def Hidden (separator : Char) (depth : Int) (cs : List Char) : Prop :=
  ∀ before after, cs = before ++ separator :: after →
    depth + before.count openBrace - before.count closeBrace ≠ 0

/-- A separator that is hidden in a text is hidden in what follows its first brace
or other character. -/
theorem Hidden.tail {depth : Int} {c : Char} {cs : List Char} (h : Hidden separator depth (c :: cs))
    (d : Int) (hd : d = depth + [c].count openBrace - [c].count closeBrace) :
    Hidden separator d cs := by
  rintro before after rfl
  have := h (c :: before) after rfl
  rw [← List.singleton_append, List.count_append, List.count_append] at this
  omega

/-- A text in which a separator stands in braces only is passed over, and the
count of braces goes on behind it. -/
theorem splitOutside_append (ho : separator ≠ openBrace) (hc : separator ≠ closeBrace)
    {cs : List Char} {depth : Int} (h : Hidden separator depth cs) (rest : List Char) :
    splitOutside separator depth (cs ++ rest) =
      (cs ++ (splitOutside separator (depth + cs.count openBrace - cs.count closeBrace) rest).1,
        (splitOutside separator (depth + cs.count openBrace - cs.count closeBrace) rest).2) := by
  induction cs generalizing depth with
  | nil => simp
  | cons c cs ih =>
    have hcount : depth + ((c :: cs).count openBrace : Nat) - ((c :: cs).count closeBrace : Nat) =
        depth + ([c].count openBrace : Nat) - ([c].count closeBrace : Nat) +
          (cs.count openBrace : Nat) - (cs.count closeBrace : Nat) := by
      rw [← List.singleton_append, List.count_append, List.count_append]
      omega
    have hcs := ih (h.tail _ rfl)
    rw [hcount, List.cons_append, splitOutside]
    by_cases hopen : c = openBrace
    · subst hopen
      have hdepth : depth + ([openBrace].count openBrace : Nat) -
          ([openBrace].count closeBrace : Nat) = depth + 1 := by
        have : [openBrace].count closeBrace = 0 := by decide
        have : [openBrace].count openBrace = 1 := by decide
        omega
      rw [hdepth] at hcs ⊢
      simp only [if_true, hcs, List.cons_append]
    · by_cases hclose : c = closeBrace
      · subst hclose
        have hdepth : depth + ([closeBrace].count openBrace : Nat) -
            ([closeBrace].count closeBrace : Nat) = depth - 1 := by
          have : [closeBrace].count openBrace = 0 := by decide
          have : [closeBrace].count closeBrace = 1 := by decide
          omega
        rw [hdepth] at hcs ⊢
        simp only [if_neg hopen, if_true, hcs, List.cons_append]
      · have hsep : ¬(c = separator ∧ depth = 0) := by
          rintro ⟨rfl, hzero⟩
          have := h [] cs rfl
          simp only [List.count_nil] at this
          omega
        have hdepth : depth + ([c].count openBrace : Nat) - ([c].count closeBrace : Nat) =
            depth := by
          rw [List.count_cons_of_ne hopen, List.count_cons_of_ne hclose]
          simp
        rw [hdepth] at hcs ⊢
        simp only [if_neg hopen, if_neg hclose, if_neg hsep, hcs, List.cons_append]

/-- A separator that stands in braces only is hidden. -/
theorem hidden_of_sheltered {cs : List Char} (hs : Sheltered separator cs) :
    Hidden separator 0 cs := by
  intro before after he
  have := hs before after he
  omega

/-- A balanced text with a separator in braces only is not cut. -/
theorem splitOutside_of_sheltered (ho : separator ≠ openBrace) (hc : separator ≠ closeBrace)
    {cs : List Char} (hs : Sheltered separator cs) : splitOutside separator 0 cs = (cs, none) := by
  simpa [splitOutside] using splitOutside_append ho hc (hidden_of_sheltered hs) []

/-- A balanced text with a separator in braces only is cut off at the separator
behind it. -/
theorem splitOutside_of_balanced (ho : separator ≠ openBrace) (hc : separator ≠ closeBrace)
    {cs : List Char} (hb : Balanced cs) (hs : Sheltered separator cs) (rest : List Char) :
    splitOutside separator 0 (cs ++ separator :: rest) = (cs, some rest) := by
  have hcut : splitOutside separator 0 (separator :: rest) = ([], some rest) := by
    rw [splitOutside]
    simp only [if_neg ho, if_neg hc, and_self, if_true]
  have hdepth : (0 : Int) + (cs.count openBrace : Nat) - (cs.count closeBrace : Nat) = 0 := by
    have := hb.count_eq
    omega
  have := splitOutside_append ho hc (hidden_of_sheltered hs) (separator :: rest)
  rw [hdepth, hcut] at this
  simpa using this

/-! ## The parts of a written template -/

/-- What starts no marker goes into a literal. -/
theorem scan_of_marker?_eq_none {c : Char} {cs : List Char} (h : marker? (c :: cs) = none) :
    scan (c :: cs) = (scan cs).map fun parts => consLiteral c parts := by
  rw [scan]
  split
  · rename_i kind inside hm
    rw [h] at hm
    exact absurd hm (by simp)
  · rfl

/-- A marker goes as far as the brace that closes it. -/
theorem scan_of_marker? {cs inside body rest : List Char} {kind : PartKind}
    (hm : marker? cs = some (kind, inside)) (hc : closing 0 inside = some (body, rest)) :
    scan cs = (scan rest).map fun parts => ⟨kind, body⟩ :: parts := by
  cases cs with
  | nil => exact absurd hm (by simp [marker?])
  | cons c cs =>
    rw [scan]
    split
    · rename_i kind' inside' hm'
      rw [hm] at hm'
      obtain ⟨rfl, rfl⟩ := Prod.mk.inj (Option.some.inj hm')
      split
      · rename_i hc'
        rw [hc] at hc'
        exact absurd hc' (by simp)
      · rename_i body' rest' hc'
        rw [hc] at hc'
        obtain ⟨rfl, rfl⟩ := Prod.mk.inj (Option.some.inj hc')
        rfl
    · rename_i hm'
      rw [hm] at hm'
      exact absurd hm' (by simp)

/-- A sign without a brace behind it starts no marker. -/
theorem marker?_eq_none {c : Char} {cs : List Char}
    (h : ∀ d ∈ cs.head?, d = openBrace → c ≠ '$' ∧ c ≠ '?') : marker? (c :: cs) = none := by
  unfold marker?
  split
  · rename_i d rest heq
    obtain ⟨rfl, rfl⟩ := List.cons.inj heq
    exact if_neg fun hd => (h d rfl hd).1 rfl
  · rename_i d rest heq
    obtain ⟨rfl, rfl⟩ := List.cons.inj heq
    exact if_neg fun hd => (h d rfl hd).2 rfl
  · rfl

/-- A text that holds no marker goes into literals, character by character, if no brace
stands behind it. -/
theorem scan_append_of_markerless {text rest : List Char} (hd : ¬['$', openBrace] <:+: text)
    (hq : ¬['?', openBrace] <:+: text) (hhead : ∀ c ∈ rest.head?, c ≠ openBrace) :
    scan (text ++ rest) = (scan rest).map fun parts => text.foldr consLiteral parts := by
  induction text with
  | nil => simp
  | cons c cs ih =>
    have htail : cs <:+: c :: cs := (List.suffix_cons c cs).isInfix
    have hcs := ih (fun hi => hd (hi.trans htail)) (fun hi => hq (hi.trans htail))
    have hmarker : marker? (c :: (cs ++ rest)) = none := by
      refine marker?_eq_none fun d hmem hopen => ?_
      subst hopen
      cases cs with
      | nil => exact absurd rfl (hhead _ hmem)
      | cons d cs =>
        obtain rfl : d = openBrace := by simpa using hmem
        refine ⟨?_, ?_⟩ <;> rintro rfl
        · exact hd ⟨[], cs, rfl⟩
        · exact hq ⟨[], cs, rfl⟩
    rw [List.cons_append, scan_of_marker?_eq_none hmarker, hcs, Option.map_map]
    rfl

/-- The characters of a text before parts that start with no literal are one literal. -/
theorem foldr_consLiteral {text : List Char} {ps : List Part} (hne : text ≠ [])
    (hps : ∀ p ∈ ps.head?, p.kind ≠ .literal) :
    text.foldr consLiteral ps = ⟨.literal, text⟩ :: ps := by
  induction text with
  | nil => contradiction
  | cons c cs ih =>
    cases cs with
    | nil =>
      rw [List.foldr_cons, List.foldr_nil]
      unfold consLiteral
      split
      · exact absurd rfl (hps _ rfl)
      · rfl
    | cons d cs =>
      rw [List.foldr_cons, ih (List.cons_ne_nil d cs)]
      rfl

/-- **A literal ends where the next marker begins.** -/
theorem scan_append_literal {text rest : List Char} {ps : List Part} (hne : text ≠ [])
    (hd : ¬['$', openBrace] <:+: text) (hq : ¬['?', openBrace] <:+: text)
    (hhead : ∀ c ∈ rest.head?, c ≠ openBrace) (hrest : scan rest = some ps)
    (hps : ∀ p ∈ ps.head?, p.kind ≠ .literal) :
    scan (text ++ rest) = some (⟨.literal, text⟩ :: ps) := by
  rw [scan_append_of_markerless hd hq hhead, hrest, Option.map_some, foldr_consLiteral hne hps]

end Template

namespace Phrase

variable {scope : String} {p : Phrase} {ps : List Phrase}

/-- Well-formed phrases are written with characters, if there are any. -/
theorem printAll_eq_nil (h : WellFormedAll scope ps) (hnil : printAll ps = []) : ps = [] := by
  cases ps with
  | nil => rfl
  | cons p ps =>
    obtain ⟨hp, -⟩ := h
    rw [printAll, List.append_eq_nil_iff] at hnil
    cases p with
    | literal text => exact absurd hnil.1 hp.1
    | «variable» v => exact absurd hnil.1 (by simp [print])
    | conditional condition whenTrue whenFalse => exact absurd hnil.1 (by simp [print])

/-- The body of a marker closes what it opens. -/
theorem balanced_body (h : p.WellFormed scope) (hp : p.isLiteral = false) :
    Balanced p.part.body := by
  cases p with
  | literal text => exact absurd hp (by simp [isLiteral])
  | «variable» v => exact v.braceless.balanced
  | conditional condition whenTrue whenFalse =>
    obtain ⟨hcondition, ⟨-, htrue, -⟩, hfalse⟩ := h
    have hquestion : Braceless ['?'] := by simp [Braceless, openBrace, closeBrace]
    have helse : Balanced (printElse whenFalse) := by
      cases whenFalse with
      | none => exact Braceless.balanced nofun
      | some qs =>
        have hbar : Braceless ['|'] := by simp [Braceless, openBrace, closeBrace]
        exact hbar.balanced.append hfalse.2
    exact hcondition.plain.1.balanced.append (hquestion.balanced.append (htrue.append helse))

/-- A marker is found where it was written. -/
theorem scan_print_append (h : p.WellFormed scope) (hp : p.isLiteral = false) (rest : List Char) :
    Template.scan (p.print ++ rest) = (Template.scan rest).map fun parts => p.part :: parts := by
  have hclosing := Template.closing_of_balanced (balanced_body h hp) rest
  cases p with
  | literal text => exact absurd hp (by simp [isLiteral])
  | «variable» v =>
    refine Template.scan_of_marker? ?_ hclosing
    simp [print, part, Template.marker?]
  | conditional condition whenTrue whenFalse =>
    refine Template.scan_of_marker? ?_ hclosing
    simp [print, part, Template.marker?]

/-- Behind a literal there stands no brace, and its part goes on in no other one. -/
theorem head_of_not_isLiteral (h : ∀ q ∈ ps.head?, q.isLiteral = false) :
    (∀ c ∈ (printAll ps).head?, c ≠ openBrace) ∧
      ∀ part ∈ (ps.map Phrase.part).head?, part.kind ≠ .literal := by
  cases ps with
  | nil => exact ⟨nofun, nofun⟩
  | cons q ps =>
    have hq := h q rfl
    cases q with
    | literal text => exact absurd hq (by simp [isLiteral])
    | «variable» v => simp [printAll, print, part, openBrace]
    | conditional condition whenTrue whenFalse => simp [printAll, print, part, openBrace]

/-- **The parts of a written template are those of its phrases.** -/
theorem scan_printAll (h : WellFormedAll scope ps) :
    Template.scan (printAll ps) = some (ps.map Phrase.part) := by
  induction ps with
  | nil => rw [printAll, Template.scan, List.map_nil]
  | cons p ps ih =>
    obtain ⟨hp, hseparate, hps⟩ := h
    have hrest := ih hps
    cases hl : p.isLiteral with
    | false => rw [printAll, scan_print_append hp hl, hrest, Option.map_some, List.map_cons]
    | true =>
      obtain ⟨hhead, hkind⟩ := head_of_not_isLiteral (hseparate hl)
      cases p with
      | literal text =>
        exact Template.scan_append_literal hp.1 hp.2.1 hp.2.2 hhead hrest hkind
      | «variable» v => exact absurd hl (by simp [isLiteral])
      | conditional condition whenTrue whenFalse => exact absurd hl (by simp [isLiteral])

/-! ## Compiling a written template -/

/-- Compile one part of a template, in whose texts markers are nested at most as
deep as the given number of steps. -/
def compilePart (scope : String) (steps : Nat) (part : Part) : Compile Fragment :=
  match part.kind with
  | .literal => pure (.literal (String.ofList part.body))
  | .variable => do
    let name := String.ofList (Text.trimChars part.body)
    let i ← Identifier.resolve scope (.string name)
    return .variable i
  | .conditional =>
    match Template.splitOutside '?' 0 part.body with
    | (_, none) => Compile.failHere (.missingBranch (String.ofList part.body))
    | (text, some branches) => do
      let condition ← Condition.compileText scope (String.ofList text)
      match Template.splitOutside '|' 0 branches with
      | (first, none) => do
        let whenTrue ← Template.compileChars scope steps first
        return .conditional condition whenTrue none
      | (first, some second) => do
        let whenTrue ← Template.compileChars scope steps first
        let whenFalse ← Template.compileChars scope steps second
        return .conditional condition whenTrue (some whenFalse)

/-- A text is cut into parts before one step is spent on each of them. -/
theorem compileChars_succ (scope : String) (steps : Nat) (cs : List Char) :
    Template.compileChars scope (steps + 1) cs =
      Template.parts cs >>= fun parts => parts.mapM (compilePart scope steps) := rfl

/-- A name is compiled to its identifier. -/
theorem gives_variable (hscope : isSegment scope = true) (steps : Nat) (v : Name) :
    (compilePart scope steps («variable» v).part).Gives
      (some (.variable (v.identifier scope hscope))) := by
  intro c
  have hresolve := Identifier.resolve_eq_ok (v.ofText?_chars hscope) c
  refine ⟨c.visit (.string (String.ofList v.chars)), ?_⟩
  simp only [compilePart, part, v.solid.trimChars_eq]
  exact Compile.run_bind_of_ok hresolve

/-- A choice is cut into its condition and its texts, which are compiled. -/
theorem gives_conditional (hscope : isSegment scope = true) {steps : Nat} {condition : Condition}
    {whenTrue : List Phrase} {whenFalse : Option (List Phrase)}
    (h : (conditional condition whenTrue whenFalse).WellFormed scope)
    (ht : (Template.compileChars scope steps (printAll whenTrue)).Gives
      (some (fragments scope hscope whenTrue)))
    (hf : ∀ qs, whenFalse = some qs → (Template.compileChars scope steps (printAll qs)).Gives
      (some (fragments scope hscope qs))) :
    (compilePart scope steps (conditional condition whenTrue whenFalse).part).Gives
      (some (.conditional condition (fragments scope hscope whenTrue)
        (fragmentsElse scope hscope whenFalse))) := by
  obtain ⟨hcondition, ⟨-, hbalanced, hsheltered⟩, -⟩ := h
  obtain ⟨hbraceless, hquestion⟩ := hcondition.plain
  have hcut (rest : List Char) : Template.splitOutside '?' 0
      (condition.source.toList ++ '?' :: rest) = (condition.source.toList, some rest) := by
    refine Template.splitOutside_of_balanced (by decide) (by decide) hbraceless.balanced ?_ rest
    intro before after he
    exact absurd (he ▸ List.mem_append_right _ (List.mem_cons_self ..)) hquestion
  simp only [compilePart, part, hcut, String.ofList_toList]
  show Compile.Gives _ ((some condition).bind fun condition => some _)
  refine hcondition.gives.bind fun condition' hc => ?_
  obtain rfl := Option.some.inj hc
  cases whenFalse with
  | none =>
    have hsplit : Template.splitOutside '|' 0 (printAll whenTrue ++ printElse none) =
        (printAll whenTrue, none) := by
      rw [printElse, List.append_nil]
      exact Template.splitOutside_of_sheltered (by decide) (by decide) hsheltered
    simp only [hsplit, fragmentsElse]
    show Compile.Gives _ ((some (fragments scope hscope whenTrue)).bind fun fs =>
      some (Fragment.conditional condition fs none))
    exact ht.bind fun _ _ => Compile.gives_pure _
  | some qs =>
    have hsplit : Template.splitOutside '|' 0 (printAll whenTrue ++ printElse (some qs)) =
        (printAll whenTrue, some (printAll qs)) := by
      rw [printElse]
      exact Template.splitOutside_of_balanced (by decide) (by decide) hbalanced hsheltered _
    simp only [hsplit, fragmentsElse]
    show Compile.Gives _ ((some (fragments scope hscope whenTrue)).bind fun fs =>
      (some (fragments scope hscope qs)).bind fun gs =>
        some (Fragment.conditional condition fs (some gs)))
    exact ht.bind fun _ _ => (hf qs rfl).bind fun _ _ => Compile.gives_pure _

/-- A phrase of a written template can be told from its written form. -/
theorem wellFormed_of_mem (h : WellFormedAll scope ps) (hp : p ∈ ps) : p.WellFormed scope := by
  induction ps with
  | nil => exact absurd hp List.not_mem_nil
  | cons q ps ih =>
    rcases List.mem_cons.1 hp with rfl | hp
    · exact h.1
    · exact ih h.2.2 hp

/-- A phrase is no longer than the template that it is written in. -/
theorem length_print_le (hp : p ∈ ps) : p.print.length ≤ (printAll ps).length := by
  induction ps with
  | nil => exact absurd hp List.not_mem_nil
  | cons q ps ih =>
    rw [printAll, List.length_append]
    rcases List.mem_cons.1 hp with rfl | hp
    · omega
    · have := ih hp
      omega

/-- Phrases are compiled to their fragments in as many steps as they have
characters. -/
theorem gives_compileChars (hscope : isSegment scope = true) {steps : Nat}
    (h : WellFormedAll scope ps) (hlen : (printAll ps).length ≤ steps) :
    (Template.compileChars scope steps (printAll ps)).Gives
      (some (fragments scope hscope ps)) := by
  -- The texts of a choice are shorter than the choice, so the induction is on the steps.
  induction steps generalizing ps with
  | zero =>
    obtain rfl := printAll_eq_nil h (List.length_eq_zero_iff.1 (Nat.le_zero.1 hlen))
    exact Compile.gives_pure []
  | succ steps ih =>
    have hparts : Template.parts (printAll ps) = pure (ps.map Phrase.part) := by
      rw [Template.parts, scan_printAll h]
    rw [compileChars_succ, hparts, pure_bind, fragments_eq_map, List.mapM_map]
    refine Compile.gives_mapM fun p hp => ?_
    have hwell := wellFormed_of_mem h hp
    have hle := Nat.le_trans (length_print_le hp) hlen
    cases p with
    | literal text => exact Compile.gives_pure _
    | «variable» v => exact gives_variable hscope steps v
    | conditional condition whenTrue whenFalse =>
      simp only [print, List.length_cons, List.length_append] at hle
      refine gives_conditional hscope hwell (ih hwell.2.1.1 (by omega)) ?_
      rintro qs rfl
      simp only [printElse, List.length_cons] at hle
      exact ih hwell.2.2.1 (by omega)

/-! ## The texts of the fragments -/

section Rendering

variable (hscope : isSegment scope = true) (placeholder : Option String) (s : Store)

/-- A variable is shown by its number, or else by the placeholder if there is one. -/
theorem renderVariable_eq (i : Identifier) : Template.renderVariable placeholder s i =
    match s.get? i with
    | some x => .ok (Template.showNumber x)
    | none => placeholder.elim (.error (.undefined i)) .ok := by
  unfold Template.renderVariable
  cases s.get? i <;> cases placeholder <;> rfl

/-- The first text stops a row of texts before the others are looked at. -/
theorem concat_cons (text : Except EvalError String) (texts : List (Except EvalError String)) :
    concat (text :: texts) = do return (← text) ++ (← concat texts) := by
  cases text with
  | error e => rfl
  | ok t =>
    simp only [concat, List.mapM_cons, id]
    cases texts.mapM id <;> simp

mutual

/-- The text of a phrase's fragment is what the phrase stands for. -/
theorem renderFragment_fragment : ∀ p : Phrase,
    Template.renderFragment placeholder s (p.fragment scope hscope) =
      p.meaning scope hscope placeholder s
  | literal text => by rw [fragment, meaning, Template.renderFragment]
  | «variable» v => by
    rw [fragment, meaning, Template.renderFragment]
    exact renderVariable_eq placeholder s (v.identifier scope hscope)
  | conditional condition whenTrue whenFalse => by
    rw [fragment, meaning, Template.renderFragment]
    cases condition.holds s with
    | error e => rfl
    | ok holds =>
      cases holds with
      | true => exact renderAll_fragments whenTrue
      | false => exact renderElse_fragmentsElse whenFalse

/-- The text of phrases' fragments is what the phrases stand for, one behind the
other. -/
theorem renderAll_fragments : ∀ ps : List Phrase,
    Template.renderAll placeholder s (fragments scope hscope ps) =
      concat (meanings scope hscope placeholder s ps)
  | [] => by rw [fragments, meanings, Template.renderAll]; rfl
  | p :: ps => by
    rw [fragments, meanings, Template.renderAll, concat_cons, renderFragment_fragment p,
      renderAll_fragments ps]

/-- The text for a condition that does not hold is what its phrases stand for, or nothing. -/
theorem renderElse_fragmentsElse : ∀ whenFalse : Option (List Phrase),
    Template.renderElse placeholder s (fragmentsElse scope hscope whenFalse) =
      concat (meaningsElse scope hscope placeholder s whenFalse)
  | none => by rw [fragmentsElse, meaningsElse, Template.renderElse]; rfl
  | some qs => by
    rw [fragmentsElse, meaningsElse, Template.renderElse, renderAll_fragments qs]

end

end Rendering

end Phrase

namespace Template

/-- **Templates are read back.**  Phrases that can be told from their written form
are compiled to their fragments, whatever the context, and in every store the
template is rendered as what the phrases stand for, one behind the other. -/
theorem compile_printAll {scope : String} (hscope : isSegment scope = true) {ps : List Phrase}
    (h : Phrase.WellFormedAll scope ps) :
    (∀ c, ∃ c', (compile scope (.string (String.ofList (Phrase.printAll ps)))).run c =
      .ok (⟨String.ofList (Phrase.printAll ps), Phrase.fragments scope hscope ps⟩, c')) ∧
    ∀ placeholder s,
      render placeholder s ⟨String.ofList (Phrase.printAll ps), Phrase.fragments scope hscope ps⟩ =
        Phrase.concat (ps.map (Phrase.meaning scope hscope placeholder s)) := by
  constructor
  · intro c
    have hgives := Phrase.gives_compileChars hscope h (Nat.le_refl _)
    obtain ⟨c', hc⟩ := hgives c
    refine ⟨c', ?_⟩
    simp only [compile, compileText, String.toList_ofList]
    exact Compile.run_bind_of_ok hc
  · intro placeholder s
    rw [render, Phrase.renderAll_fragments, Phrase.meanings_eq_map]

/-- A template with a bar in a condition, a choice inside of braces inside of a
choice, texts that are empty and not missing, and signs that start no marker. -/
theorem compile_printAll_nested :
    ∃ (hscope : isSegment "a" = true) (x : Name) (outer inner : Condition) (ps : List Phrase),
      ps =
        [.literal ['$'],
          .conditional outer
            [.variable x, .literal [openBrace], .conditional inner [] (some [.literal ['|']]),
              .literal [closeBrace]]
            (some []),
          .literal ['?']] ∧
      outer.Compiled "a" ∧ inner.Compiled "a" ∧
      String.ofList (Phrase.printAll ps) =
        "$?\x7bx=1..||y?$\x7bx\x7d\x7b?\x7b!b:z?||\x7d\x7d|\x7d?" ∧
      (∀ c, ∃ c', (compile "a" (.string (String.ofList (Phrase.printAll ps)))).run c =
        .ok (⟨String.ofList (Phrase.printAll ps), Phrase.fragments "a" hscope ps⟩, c')) ∧
      ∀ placeholder s, render placeholder s
          ⟨String.ofList (Phrase.printAll ps), Phrase.fragments "a" hscope ps⟩ =
        Phrase.concat (ps.map (Phrase.meaning "a" hscope placeholder s)) := by
  have hscope : isSegment "a" = true := by decide
  have haccepts (text : String)
      (h : ((Condition.compileText "a" text).run {}).toOption.isSome = true) :
      (Condition.compileText "a" text).Accepts {} := by
    obtain ⟨⟨condition, c'⟩, h⟩ := Option.isSome_iff_exists.1 h
    exact ⟨condition, c', toOption_eq_some.1 h⟩
  obtain ⟨outer, houter, hcouter⟩ :=
    Condition.exists_compiled (haccepts "x=1..||y" (by decide +kernel))
  obtain ⟨inner, hinner, hcinner⟩ :=
    Condition.exists_compiled (haccepts "!b:z" (by decide +kernel))
  have hinnerText : inner.source.toList = ['!', 'b', ':', 'z'] := by rw [hinner]; rfl
  have houterText : outer.source.toList = ['x', '=', '1', '.', '.', '|', '|', 'y'] := by
    rw [houter]; rfl
  have hliteral (c : Char) : (Phrase.literal [c]).WellFormed "a" := by
    refine ⟨List.cons_ne_nil _ _, ?_, ?_⟩ <;> exact fun h => absurd h.length_le (by simp)
  let x : Name := .short ⟨['x'], by decide⟩
  let choice : Phrase := .conditional inner [] (some [.literal ['|']])
  let whenTrue : List Phrase :=
    [.variable x, .literal [openBrace], choice, .literal [closeBrace]]
  let ps : List Phrase :=
    [.literal ['$'], .conditional outer whenTrue (some []), .literal ['?']]
  have hchoice : choice.WellFormed "a" :=
    ⟨hcinner, ⟨trivial, by decide, by decide⟩, ⟨hliteral '|', nofun, trivial⟩, by decide⟩
  have hprint : Phrase.printAll whenTrue =
      "$\x7bx\x7d\x7b?\x7b!b:z?||\x7d\x7d".toList := by
    simp only [whenTrue, choice, Phrase.printAll, Phrase.print, Phrase.printElse, hinnerText]
    rfl
  have htrue : Phrase.WellFormedAll "a" whenTrue :=
    ⟨trivial, nofun, hliteral _, by rintro - q ⟨⟩; rfl, hchoice, nofun, hliteral _, nofun, trivial⟩
  have hwell : Phrase.WellFormedAll "a" ps := by
    refine ⟨hliteral _, by rintro - q ⟨⟩; rfl, ?_, nofun, hliteral _, nofun, trivial⟩
    refine ⟨hcouter, ⟨htrue, ?_, ?_⟩, trivial, by decide⟩
    · rw [hprint]
      decide
    · rw [hprint]
      decide
  refine ⟨hscope, x, outer, inner, ps, rfl, hcouter, hcinner, ?_, compile_printAll hscope hwell⟩
  have hps : Phrase.printAll ps =
      "$?\x7bx=1..||y?$\x7bx\x7d\x7b?\x7b!b:z?||\x7d\x7d|\x7d?".toList := by
    simp only [ps, Phrase.printAll, Phrase.print, Phrase.printElse, hprint, houterText]
    rfl
  rw [hps, String.ofList_toList]

end Template
end Gamebook
