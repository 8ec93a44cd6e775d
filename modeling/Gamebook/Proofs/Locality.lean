/-
# Scripts without colons

A name without a colon means a variable of the scope that it is compiled in
(`Identifier.parts_of_ofText?`).  The names of an expression or a condition are pieces of its
text, also where ranges are replaced, so without colons in the text it reads no other scope
(`Action.yields_keepsTo`, `Condition.yields_reads`).

The scripts of a template are its names and conditions, those of nested texts among them
(`Template.scripts`).  What is narrated around them may have colons
(`Template.yields_reads`).
-/

import Gamebook.Proofs.Pieces
import Gamebook.Proofs.Recognising
import Gamebook.Proofs.Scripts
import Gamebook.Proofs.Support
import Mathlib.Data.List.Infix

namespace Gamebook

/-! ## Formulas -/

namespace Expr

/-- The code of an expression loads the variables that the expression reads, wherever it starts. -/
theorem filterMap_loaded?_code (e : Expr) (start : Nat) :
    (e.code start).filterMap Instr.loaded? = e.reads := by
  induction e generalizing start with
  | number | «variable» => rfl
  | unary op e ih => simp [code, reads, Instr.loaded?, ih]
  | binary op l r ihl ihr | logical op l r ihl ihr =>
    simp [code, reads, Instr.loaded?, List.filterMap_cons, ihl, ihr]

/-- The program of a tree loads the variables of the tree. -/
theorem reads_ofExpr (source : String) (e : Expr) : (Program.ofExpr source e).reads = e.reads :=
  e.filterMap_loaded?_code 0

/-- What two operands are combined to reads what they read, the left one first. -/
theorem reads_combine (op : InfixOp) (l r : Expr) :
    (combine op l r).reads = l.reads ++ r.reads := by
  cases op <;> rfl

/-- The variables of trees are what the names of their entries mean. -/
theorem reads_of_assemble {scope : String} {P : Identifier → Prop}
    {es : List (Entry UnaryOp InfixOp)} {built out : List Expr}
    (h : assemble scope es built = some out)
    (hes : ∀ text i, .operand (.word text) ∈ es → Identifier.ofText? scope text = some i → P i)
    (hbuilt : ∀ e ∈ built, ∀ i ∈ e.reads, P i) : ∀ e ∈ out, ∀ i ∈ e.reads, P i := by
  induction es generalizing built with
  | nil =>
    obtain rfl := Option.some.inj h
    exact hbuilt
  | cons entry es ih =>
    have hrest text i (hmem : Entry.operand (.word text) ∈ es) := hes text i (.tail _ hmem)
    cases entry with
    | operand o =>
      obtain ⟨leaf, hleaf, h⟩ := Option.bind_eq_some_iff.1 h
      refine ih h hrest (List.forall_mem_cons.2 ⟨?_, hbuilt⟩)
      cases o with
      | number text =>
        obtain rfl := Option.some.inj hleaf
        exact List.forall_mem_nil _
      | word text =>
        obtain ⟨i, hi, rfl⟩ := Option.map_eq_some_iff.1 hleaf
        exact List.forall_mem_singleton.2 (hes text i (List.mem_cons_self ..) hi)
    | unary op =>
      cases built with
      | nil => contradiction
      | cons e built =>
        obtain ⟨he, hbuilt⟩ := List.forall_mem_cons.1 hbuilt
        exact ih h hrest (List.forall_mem_cons.2 ⟨he, hbuilt⟩)
    | binary op =>
      match built with
      | [] | [_] => contradiction
      | r :: l :: built =>
        obtain ⟨hr, hbuilt⟩ := List.forall_mem_cons.1 hbuilt
        obtain ⟨hl, hbuilt⟩ := List.forall_mem_cons.1 hbuilt
        refine ih h hrest (List.forall_mem_cons.2 ⟨?_, hbuilt⟩)
        rw [reads_combine]
        exact List.forall_mem_append.2 ⟨hl, hr⟩

end Expr

/-- **The variables of a tree are what the words among its tokens mean.** -/
theorem Grammar.Reads.exists_word {g : Grammar UnaryOp InfixOp} {scope : String} {ts : List Token}
    {e : Expr} (h : g.Reads scope ts e) :
    ∀ i ∈ e.reads, ∃ text, Token.operand (.word text) ∈ ts ∧
      Identifier.ofText? scope text = some i := by
  obtain ⟨es, hes, he⟩ := h
  exact Expr.reads_of_assemble he
    (fun text i hmem hi => ⟨text, (operand_mem_of_arrange hes).1 hmem, hi⟩)
    (List.forall_mem_nil _) e (List.mem_singleton_self e)

/-- The variables of a text without colons are in the scope. -/
theorem Grammar.scope_of_tree? {g : Grammar UnaryOp InfixOp} {a : Alphabet} {scope : String}
    (hn : Lexeme.Inked a.number) (hs : ∀ s ∈ a.symbols, s.toList.all Lexeme.isInk = true)
    {cs : List Char} {e : Expr} (h : g.tree? a scope cs = some e) (hcs : ':' ∉ cs) :
    ∀ i ∈ e.reads, i.scope = scope := by
  obtain ⟨ts, hts, hreads⟩ := tree?_eq_some.1 h
  intro i hi
  obtain ⟨text, htext, hi⟩ := hreads.exists_word i hi
  have hplain : ':' ∉ text.toList := fun hcolon =>
    hcs ((Alphabet.word_infix_of_tokens hn hs hts htext).1.subset hcolon)
  exact (Identifier.parts_of_ofText? hi hplain).1

/-- Dropping blanks brings no new characters. -/
theorem Text.compact_subset (s : String) : (compact s).toList ⊆ s.toList := by
  rw [compact, String.toList_ofList]
  exact List.filter_subset_self _

/-! ## Actions -/

/-- An expression without colons reads variables of the scope. -/
theorem Arithmetic.scope_of_compiled? {scope text : String} {p : Program}
    (h : compiled? scope text = some p) (htext : ':' ∉ text.toList) :
    ∀ i ∈ p.reads, i.scope = scope := by
  rw [compiled?] at h
  split at h
  · contradiction
  · obtain ⟨e, he, h⟩ := Option.bind_eq_some_iff.1 h
    obtain rfl := Option.some.inj h
    rw [Expr.reads_ofExpr]
    exact Grammar.scope_of_tree? Lexeme.inked_unsigned (by decide) he fun hcolon =>
      htext (Text.compact_subset text hcolon)

namespace Action

/-- **A statement without colons keeps to the scope.** -/
theorem yields_keepsTo {scope text : String} (htext : ':' ∉ text.toList) :
    (compile scope text).Yields (KeepsTo (·.scope = scope)) := by
  intro c a c' hrun
  obtain ⟨before, after, hcompact, htarget, hprogram⟩ := yields_parts scope text c a c' hrun
  have hparts : ':' ∉ before ++ (a.sign.symbol.toList ++ after) :=
    hcompact ▸ fun hcolon => htext (Text.compact_subset text hcolon)
  simp only [List.mem_append, not_or] at hparts
  obtain ⟨hbefore, -, hafter⟩ := hparts
  constructor
  · exact (Identifier.parts_of_ofText? htarget (by rwa [String.toList_ofList])).1
  · exact Arithmetic.scope_of_compiled? hprogram (by rwa [String.toList_ofList])

/-- A statement has characters of the texts. -/
theorem colon_not_mem_of_mem_statements {texts : List String}
    (h : ∀ text ∈ texts, ':' ∉ text.toList) {s : String} (hs : s ∈ statements texts) : ':' ∉ s.toList := by
  obtain ⟨text, htext, hpiece⟩ := exists_of_mem_statements hs
  obtain ⟨hmem, -⟩ := List.mem_filter.1 hpiece
  obtain ⟨whole, hwhole, hcompact⟩ := List.mem_map.1 hmem
  rw [← hcompact]
  exact fun hcolon => h text htext
    (Text.subset_of_mem_splitOnP hwhole (List.filter_subset_self _ hcolon))

/-- Without colons, actions read and assign variables of their scope only. -/
theorem yields_keepsTo_all {scope : String} {texts : List String}
    (h : ∀ text ∈ texts, ':' ∉ text.toList) :
    (compileAll scope texts).Yields fun as => ∀ a ∈ as, a.KeepsTo (·.scope = scope) :=
  Compile.yields_mapM fun _ hs => yields_keepsTo (colon_not_mem_of_mem_statements h hs)

end Action

/-! ## Conditions -/

/-- Replacing ranges makes no colons. -/
theorem colon_not_mem_of_expandRanges {cs out : List Char} (h : expandRanges cs = .ok out)
    (hcs : ':' ∉ cs) : ':' ∉ out := by
  intro hcolon
  have hrun : ∀ c ∈ [':'], Lexeme.continuesWord c = true := List.forall_mem_singleton.2 rfl
  have hpiece := (infix_of_expandRanges h hrun).2 ((List.singleton_infix_iff ..).2 hcolon)
  exact hcs ((List.singleton_infix_iff ..).1 hpiece)

/-- **A condition without colons reads variables of the scope.** -/
theorem Condition.yields_reads {scope text : String} (htext : ':' ∉ text.toList) :
    (compileText scope text).Yields fun c => ∀ i ∈ c.program.reads, i.scope = scope := by
  intro context c context' hrun
  have hcompiled := (gives_compile scope text).yields context c context' hrun
  obtain ⟨source, hsource, hcompiled⟩ := Option.bind_eq_some_iff.1 hcompiled
  obtain ⟨expanded, hexpanded, hsource⟩ := Option.bind_eq_some_iff.1 hsource
  have hplain : ':' ∉ expanded :=
    colon_not_mem_of_expandRanges (toOption_eq_some.1 hexpanded)
      fun hcolon => htext (Text.compact_subset text hcolon)
  split at hsource
  · contradiction
  · obtain rfl := Option.some.inj hsource
    split at hcompiled
    · contradiction
    · obtain ⟨e, he, hcondition⟩ := Option.bind_eq_some_iff.1 hcompiled
      rw [String.toList_ofList] at he
      split at hcondition
      · obtain rfl := Option.some.inj hcondition
        rw [Expr.reads_ofExpr]
        exact Grammar.scope_of_tree? Lexeme.inked_signed (by decide) he hplain
      · contradiction

/-! ## Templates -/

namespace Template

variable {scope : String} {steps : Nat} {cs script : List Char}

/-- The parts of a template read variables of the scope, where its scripts have no colons. -/
theorem keeps_reads (scope : String) :
    Keeps scope (':' ∉ ·) fun f => ∀ i ∈ readsFragment f, i.scope = scope where
  literal _ := List.forall_mem_nil _
  «variable» body i hbody hi := by
    refine List.forall_mem_singleton.2 (Identifier.parts_of_ofText? hi ?_).1
    rw [String.toList_ofList]
    exact fun hcolon => hbody ((Text.trimChars_infix body).subset hcolon)
  conditional text condition whenTrue whenFalse htext hcondition htrue hfalse := by
    have hreads := hcondition.of_yields (Condition.yields_reads (by rwa [String.toList_ofList]))
    rw [← List.forall_mem_flatMap, ← readsAll_eq_flatMap] at htrue
    have helse : ∀ i ∈ readsElse whenFalse, i.scope = scope := by
      cases whenFalse with
      | none => exact List.forall_mem_nil _
      | some fs =>
        rw [readsElse, readsAll_eq_flatMap, List.forall_mem_flatMap]
        exact hfalse fs rfl
    rw [readsFragment, List.forall_mem_append, List.forall_mem_append]
    exact ⟨⟨hreads, htrue⟩, helse⟩

/-- **A template without colons in its scripts reads variables of the scope.** -/
theorem yields_reads {source : String} (h : ∀ script ∈ scripts source, ':' ∉ script) :
    (compileText scope source).Yields fun t => ∀ i ∈ t.reads, i.scope = scope := by
  intro c t c' hrun
  rw [reads, readsAll_eq_flatMap, List.forall_mem_flatMap]
  exact (keeps_reads scope).yields h c t c' hrun

end Template
end Gamebook
