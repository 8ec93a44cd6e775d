/-
# Templates are cut without loss

A template is cut into literals and markers, and each part is written in one way: a
literal as it is, a marker with its sign and braces around its body (`Part.written`).
Parts can be cut at all places where they were put together if they are canonical
(`Part.Canonical`): no literal is empty, stands behind another one or holds the beginning
of a marker, and the body of a marker closes the braces that it opens and no others.

The parts of a template are canonical, and they are written as the template; so there is
only one way to cut it (`Template.scan_eq_some_iff`).  A template is not cut if some
marker behind canonical parts has no brace that closes it (`Template.scan_eq_none_iff`).
A text without markers is one literal, unless it is empty and has no part at all
(`Template.scan_of_markerless`).
-/

import Gamebook.Proofs.Templates
import Mathlib.Data.List.Chain

namespace Gamebook

/-! ## Braces -/

namespace Braced

variable {depth : Nat} {c : Char} {cs : List Char}

/-- No text is needed to leave no braces open. -/
theorem nil : Braced 0 [] := ⟨rfl, fun before hb => by simp [List.prefix_nil.1 hb]⟩

/-- A character is put before a text that then closes as many braces more than it opens
as the numbers say. -/
theorem cons_of_count {inner : Nat} (h : Braced inner cs)
    (hcount : [c].count closeBrace + inner = [c].count openBrace + depth) :
    Braced depth (c :: cs) where
  count_eq := by
    have := h.count_eq
    rw [← List.singleton_append, List.count_append, List.count_append]
    omega
  count_le before hb := by
    cases before with
    | nil => simp
    | cons d before =>
      obtain ⟨rfl, hbefore⟩ := List.cons_prefix_cons.1 hb
      have := h.count_le before hbefore
      rw [← List.singleton_append, List.count_append, List.count_append]
      omega

/-- An opening brace leaves one more open for the text behind it. -/
theorem cons_open (h : Braced (depth + 1) cs) : Braced depth (openBrace :: cs) :=
  h.cons_of_count (by
    have : [openBrace].count closeBrace = 0 := by decide
    have : [openBrace].count openBrace = 1 := by decide
    omega)

/-- A closing brace leaves one less open for the text behind it. -/
theorem cons_close (h : Braced depth cs) : Braced (depth + 1) (closeBrace :: cs) :=
  h.cons_of_count (by
    have : [closeBrace].count closeBrace = 1 := by decide
    have : [closeBrace].count openBrace = 0 := by decide
    omega)

/-- A character that is no brace leaves as many open as there are. -/
theorem cons (h : Braced depth cs) (ho : c ≠ openBrace) (hc : c ≠ closeBrace) :
    Braced depth (c :: cs) :=
  h.cons_of_count (by rw [List.count_cons_of_ne ho, List.count_cons_of_ne hc]; rfl)

end Braced

/-- No closing brace of a text closes one that is open before the text. -/
def Unclosed (cs : List Char) : Prop :=
  ∀ body rest, cs = body ++ closeBrace :: rest → ¬Balanced body

/-- A text in which no marker begins. -/
def Markerless (cs : List Char) : Prop :=
  ¬['$', openBrace] <:+: cs ∧ ¬['?', openBrace] <:+: cs

instance (cs : List Char) : Decidable (Markerless cs) :=
  inferInstanceAs (Decidable (¬_ ∧ ¬_))

/-- No marker begins in a text without characters. -/
theorem Markerless.nil : Markerless [] := by decide

/-- No marker begins in a text before which a character is put, if none begins with that
character. -/
theorem Markerless.cons {c : Char} {cs rest : List Char} (h : Markerless cs)
    (hc : Template.marker? (c :: (cs ++ rest)) = none) : Markerless (c :: cs) := by
  refine ⟨fun hi => ?_, fun hi => ?_⟩
  all_goals
    rcases List.infix_cons_iff.1 hi with hprefix | hinfix
    · obtain ⟨behind, hbehind⟩ := hprefix
      obtain ⟨rfl, rfl⟩ := List.cons.inj hbehind
      simp [Template.marker?] at hc
    · first | exact h.1 hinfix | exact h.2 hinfix

/-! ## Parts as they are written -/

namespace Part

/-- How a marker of a kind begins. -/
def opening : PartKind → List Char
  | .literal => []
  | .variable => ['$', openBrace]
  | .conditional => ['?', openBrace]

/-- How a part is written. -/
def written (part : Part) : List Char :=
  match part.kind with
  | .literal => part.body
  | kind => opening kind ++ (part.body ++ [closeBrace])

/-- Whether a part can be told from its written form. -/
def WellFormed (part : Part) : Prop :=
  match part.kind with
  | .literal => part.body ≠ [] ∧ Markerless part.body
  | _ => Balanced part.body

/-- Parts that can be told from their written forms, one behind the other: each of them
can, and no literal stands behind another one. -/
structure Canonical (ps : List Part) : Prop where
  wellFormed : ∀ p ∈ ps, p.WellFormed
  separate : ps.IsChain fun p q => p.kind = .literal → q.kind ≠ .literal

variable {kind : PartKind} {body text : List Char} {p : Part} {ps : List Part}

/-- A part other than a literal is written between its opening and a closing brace. -/
theorem written_of_marker (h : kind ≠ .literal) (body : List Char) :
    written ⟨kind, body⟩ = opening kind ++ (body ++ [closeBrace]) := by
  cases kind with
  | literal => contradiction
  | «variable» | conditional => rfl

/-- A part other than a literal can be told from its written form if its braces match. -/
theorem wellFormed_of_marker (h : kind ≠ .literal) : WellFormed ⟨kind, body⟩ ↔ Balanced body := by
  cases kind with
  | literal => contradiction
  | «variable» | conditional => rfl

namespace Canonical

/-- No parts can be told from no text. -/
theorem nil : Canonical [] := ⟨nofun, .nil⟩

/-- Parts can be told without the first of them. -/
theorem tail (h : Canonical (p :: ps)) : Canonical ps :=
  ⟨fun q hq => h.wellFormed q (List.mem_cons_of_mem p hq), h.separate.tail⟩

/-- A part may stand in front of others if no two literals meet. -/
theorem cons (h : Canonical ps) (hp : p.WellFormed)
    (hseparate : ∀ q ∈ ps.head?, p.kind = .literal → q.kind ≠ .literal) : Canonical (p :: ps) :=
  ⟨List.forall_mem_cons.2 ⟨hp, h.wellFormed⟩, List.isChain_cons.2 ⟨hseparate, h.separate⟩⟩

/-- Behind a literal there stands no other one. -/
theorem head_ne_literal (h : Canonical (⟨.literal, text⟩ :: ps)) :
    ∀ q ∈ ps.head?, q.kind ≠ .literal :=
  fun q hq => (List.isChain_cons.1 h.separate).1 q hq rfl

/-- A character with which no marker begins goes before canonical parts. -/
theorem consLiteral {c : Char} {rest : List Char} (h : Canonical ps)
    (hc : Template.marker? (c :: (ps.flatMap written ++ rest)) = none) :
    Canonical (Template.consLiteral c ps) := by
  unfold Template.consLiteral
  split
  · rename_i text ps
    obtain ⟨-, htext⟩ := h.wellFormed _ (List.mem_cons_self ..)
    rw [List.flatMap_cons, List.append_assoc] at hc
    refine h.tail.cons ⟨List.cons_ne_nil c text, htext.cons hc⟩ fun q hq _ => ?_
    exact h.head_ne_literal q hq
  · rename_i hhead
    refine h.cons ⟨List.cons_ne_nil c [], Markerless.nil.cons hc⟩ fun q hq _ hliteral => ?_
    obtain ⟨kind, text⟩ := q
    obtain rfl : kind = .literal := hliteral
    exact hhead text _ (List.eq_cons_of_mem_head? hq)

end Canonical

/-- A character in front of parts is written in front of them, be it in a literal of its own or in
the first one. -/
theorem flatMap_written_consLiteral (c : Char) (ps : List Part) :
    (Template.consLiteral c ps).flatMap written = c :: ps.flatMap written := by
  unfold Template.consLiteral
  split <;> simp [written]

/-- Parts that do not begin with a literal are not written with a brace at their front. -/
theorem head_written_ne_openBrace (h : ∀ p ∈ ps.head?, p.kind ≠ .literal) {rest : List Char}
    (hrest : ∀ c ∈ rest.head?, c ≠ openBrace) :
    ∀ c ∈ (ps.flatMap written ++ rest).head?, c ≠ openBrace := by
  cases ps with
  | nil => exact hrest
  | cons p ps =>
    obtain ⟨kind, body⟩ := p
    have hkind := h _ rfl
    rw [List.flatMap_cons, written_of_marker hkind]
    cases kind with
    | literal => contradiction
    | «variable» | conditional =>
      intro c hc
      obtain rfl := Option.some.inj hc
      decide

end Part

namespace Template

variable {kind : PartKind} {cs inside body rest : List Char} {ps : List Part}

/-- The text up to the closing brace closes every brace that it opens. -/
theorem braced_of_closing {depth : Nat} (h : closing depth cs = some (body, rest)) :
    Braced depth body := by
  induction cs generalizing depth body with
  | nil => simp [closing] at h
  | cons c cs ih =>
    simp only [closing] at h
    split at h
    · rename_i ho
      obtain ⟨⟨b, r⟩, hb, he⟩ := Option.map_eq_some_iff.1 h
      obtain ⟨rfl, rfl⟩ := Prod.mk.inj he
      exact ho ▸ (ih hb).cons_open
    · rename_i ho
      split at h
      · rename_i hc
        split at h
        · obtain ⟨rfl, rfl⟩ := Prod.mk.inj (Option.some.inj h)
          exact .nil
        · obtain ⟨⟨b, r⟩, hb, he⟩ := Option.map_eq_some_iff.1 h
          obtain ⟨rfl, rfl⟩ := Prod.mk.inj he
          exact hc ▸ (ih hb).cons_close
      · rename_i hc
        obtain ⟨⟨b, r⟩, hb, he⟩ := Option.map_eq_some_iff.1 h
        obtain ⟨rfl, rfl⟩ := Prod.mk.inj he
        exact (ih hb).cons ho hc

/-- **The body of a marker is what is balanced before a closing brace.** -/
theorem closing_eq_some_iff :
    closing 0 cs = some (body, rest) ↔ Balanced body ∧ cs = body ++ closeBrace :: rest := by
  constructor
  · exact fun h => ⟨braced_of_closing h, append_of_closing h⟩
  · rintro ⟨hbalanced, rfl⟩
    exact closing_of_balanced hbalanced rest

/-- There is no closing brace just if none closes a marker that begins in front of the text. -/
theorem closing_eq_none_iff : closing 0 cs = none ↔ Unclosed cs := by
  rw [Option.eq_none_iff_forall_ne_some]
  constructor
  · exact fun h body rest hcs hbalanced => h (body, rest) (closing_eq_some_iff.2 ⟨hbalanced, hcs⟩)
  · rintro h ⟨body, rest⟩ hclosing
    obtain ⟨hbalanced, hcs⟩ := closing_eq_some_iff.1 hclosing
    exact h body rest hcs hbalanced

/-- A marker begins just where its opening stands. -/
theorem marker?_eq_some_iff :
    marker? cs = some (kind, inside) ↔ kind ≠ .literal ∧ cs = Part.opening kind ++ inside := by
  constructor
  · intro h
    unfold marker? at h
    split at h
    all_goals first
      | contradiction
      | split at h
        · rename_i hopen
          obtain ⟨rfl, rfl⟩ := Prod.mk.inj (Option.some.inj h)
          exact ⟨nofun, by rw [hopen]; rfl⟩
        · contradiction
  · rintro ⟨hkind, rfl⟩
    cases kind with
    | literal => contradiction
    | «variable» | conditional => rfl

/-! ## What is cut off -/

/-- The parts of a template are canonical and written as the template. -/
theorem canonical_of_scan (h : scan cs = some ps) :
    Part.Canonical ps ∧ ps.flatMap Part.written = cs := by
  fun_induction scan cs generalizing ps with
  | case1 =>
    obtain rfl := Option.some.inj h
    exact ⟨.nil, rfl⟩
  | case2 => contradiction
  | case3 c cs kind inside hmarker body rest hclosing ih =>
    obtain ⟨qs, hqs, rfl⟩ := Option.map_eq_some_iff.1 h
    obtain ⟨hcanonical, rfl⟩ := ih hqs
    obtain ⟨hkind, hcs⟩ := marker?_eq_some_iff.1 hmarker
    obtain ⟨hbalanced, rfl⟩ := closing_eq_some_iff.1 hclosing
    refine ⟨hcanonical.cons ((Part.wellFormed_of_marker hkind).2 hbalanced) ?_, ?_⟩
    · exact fun q _ hliteral => absurd hliteral hkind
    · rw [List.flatMap_cons, Part.written_of_marker hkind, hcs]
      simp
  | case4 c cs hmarker ih =>
    obtain ⟨qs, hqs, rfl⟩ := Option.map_eq_some_iff.1 h
    obtain ⟨hcanonical, rfl⟩ := ih hqs
    refine ⟨?_, Part.flatMap_written_consLiteral c qs⟩
    rw [← List.append_nil (qs.flatMap Part.written)] at hmarker
    exact hcanonical.consLiteral hmarker

/-- Canonical parts are cut off the front of a text, if the text behind them goes on in none
of them. -/
theorem scan_written_append (h : Part.Canonical ps) (hhead : ∀ c ∈ rest.head?, c ≠ openBrace)
    (hrest : ∀ qs, scan rest = some qs → ∀ q ∈ qs.head?, q.kind ≠ .literal) :
    scan (ps.flatMap Part.written ++ rest) = (scan rest).map (ps ++ ·) := by
  induction ps with
  | nil => simp
  | cons p ps ih =>
    have hps := ih h.tail
    obtain ⟨kind, body⟩ := p
    have hp := h.wellFormed _ (List.mem_cons_self ..)
    rw [List.flatMap_cons, List.append_assoc]
    by_cases hkind : kind = .literal
    · subst hkind
      obtain ⟨hne, hmarkerless⟩ := hp
      have hbrace := Part.head_written_ne_openBrace h.head_ne_literal hhead
      rw [Part.written, scan_append_of_markerless hmarkerless.1 hmarkerless.2 hbrace, hps]
      cases hscan : scan rest with
      | none => rfl
      | some qs =>
        -- behind the literal stands the next part, or the first part of the rest
        have hnext : ∀ q ∈ (ps ++ qs).head?, q.kind ≠ .literal := by
          cases ps with
          | nil => exact hrest qs hscan
          | cons q ps => exact h.head_ne_literal
        exact congrArg some (foldr_consLiteral hne hnext)
    · have hmarker : marker? (Part.opening kind ++
          (body ++ closeBrace :: (ps.flatMap Part.written ++ rest))) = some (kind, _) :=
        marker?_eq_some_iff.2 ⟨hkind, rfl⟩
      have hclosing := closing_of_balanced ((Part.wellFormed_of_marker hkind).1 hp)
        (ps.flatMap Part.written ++ rest)
      rw [Part.written_of_marker hkind, List.append_assoc, List.append_assoc,
        List.singleton_append, scan_of_marker? hmarker hclosing, hps, Option.map_map]
      rfl

/-- **A text has the parts that are canonical and written as it**, and no others. -/
theorem scan_eq_some_iff :
    scan cs = some ps ↔ Part.Canonical ps ∧ ps.flatMap Part.written = cs := by
  refine ⟨canonical_of_scan, ?_⟩
  rintro ⟨hcanonical, rfl⟩
  have hnil : scan [] = some [] := by rw [scan]
  have hhead : ∀ c ∈ ([] : List Char).head?, c ≠ openBrace := by simp
  have hrest : ∀ qs, scan [] = some qs → ∀ q ∈ qs.head?, q.kind ≠ .literal := by simp [hnil]
  simpa [hnil] using scan_written_append hcanonical hhead hrest

/-- Behind the first parts of a text there begins a marker that is not closed. -/
def Breaks (cs : List Char) : Prop :=
  ∃ ps kind inside, Part.Canonical ps ∧ kind ≠ .literal ∧
    cs = ps.flatMap Part.written ++ (Part.opening kind ++ inside) ∧ Unclosed inside

/-- A marker that is not closed is no part. -/
theorem scan_of_unclosed (hkind : kind ≠ .literal) (h : Unclosed inside) :
    scan (Part.opening kind ++ inside) = none := by
  have hmarker : marker? (Part.opening kind ++ inside) = some (kind, inside) :=
    marker?_eq_some_iff.2 ⟨hkind, rfl⟩
  have hnone := closing_eq_none_iff.2 h
  generalize Part.opening kind ++ inside = cs at hmarker
  cases cs with
  | nil => contradiction
  | cons c cs =>
    rw [scan]
    split
    · rename_i hmarker'
      obtain ⟨rfl, rfl⟩ := Prod.mk.inj (Option.some.inj (hmarker.symm.trans hmarker'))
      split
      · rfl
      · rename_i hclosing
        rw [hnone] at hclosing
        contradiction
    · rename_i hmarker'
      rw [hmarker] at hmarker'
      contradiction

/-- **A text is not cut exactly where a marker behind its first parts is not closed.** -/
theorem scan_eq_none_iff : scan cs = none ↔ Breaks cs := by
  constructor
  · intro h
    fun_induction scan cs with
    | case1 => contradiction
    | case2 c cs kind inside hmarker hclosing =>
      obtain ⟨hkind, hcs⟩ := marker?_eq_some_iff.1 hmarker
      exact ⟨[], kind, inside, .nil, hkind, hcs, closing_eq_none_iff.1 hclosing⟩
    | case3 c cs kind inside hmarker body rest hclosing ih =>
      obtain ⟨ps, last, unclosed, hcanonical, hlast, rfl, hunclosed⟩ :=
        ih (Option.map_eq_none_iff.1 h)
      obtain ⟨hkind, hcs⟩ := marker?_eq_some_iff.1 hmarker
      obtain ⟨hbalanced, rfl⟩ := closing_eq_some_iff.1 hclosing
      refine ⟨⟨kind, body⟩ :: ps, last, unclosed, ?_, hlast, ?_, hunclosed⟩
      · refine hcanonical.cons ((Part.wellFormed_of_marker hkind).2 hbalanced) ?_
        exact fun q _ hliteral => absurd hliteral hkind
      · rw [hcs, List.flatMap_cons, Part.written_of_marker hkind]
        simp
    | case4 c cs hmarker ih =>
      obtain ⟨ps, last, unclosed, hcanonical, hlast, rfl, hunclosed⟩ :=
        ih (Option.map_eq_none_iff.1 h)
      have hcons := hcanonical.consLiteral hmarker
      refine ⟨consLiteral c ps, last, unclosed, hcons, hlast, ?_, hunclosed⟩
      rw [Part.flatMap_written_consLiteral]
      rfl
  · rintro ⟨ps, kind, inside, hcanonical, hkind, rfl, hunclosed⟩
    have hnone := scan_of_unclosed hkind hunclosed
    have hhead : ∀ c ∈ (Part.opening kind ++ inside).head?, c ≠ openBrace := by
      cases kind with
      | literal => contradiction
      | «variable» | conditional =>
        intro c hc
        obtain rfl := Option.some.inj hc
        decide
    rw [scan_written_append hcanonical hhead (by simp [hnone]), hnone, Option.map_none]

/-- A text without markers is one literal, if it is not empty. -/
theorem scan_of_markerless (h : Markerless cs) :
    scan cs = some (if cs = [] then [] else [⟨.literal, cs⟩]) := by
  rw [scan_eq_some_iff]
  split
  · rename_i hnil
    exact ⟨.nil, by simp [hnil]⟩
  · rename_i hne
    exact ⟨Part.Canonical.nil.cons ⟨hne, h⟩ nofun, by simp [Part.written]⟩

/-! ## What is compiled -/

/-- A text that is cut into parts is compiled from them, in any context. -/
theorem run_parts_of_scan {source : String} (h : scan source.toList = some ps) (c : Context) :
    (parts source.toList).run c = .ok (ps, c) := by
  rw [parts, h]
  rfl

/-- A text that is not cut into parts is refused at the record of its context. -/
theorem run_parts_of_scan_eq_none {source : String} (h : scan source.toList = none)
    (c : Context) : (parts source.toList).run c =
      .error ⟨c.innermost, .unterminatedMarker source, c⟩ := by
  rw [parts, h, String.ofList_toList]
  rfl

/-- A text without markers is compiled to itself. -/
theorem compileText_of_markerless {source : String} (h : Markerless source.toList)
    (scope : String) (c : Context) : (compileText scope source).run c =
      .ok (⟨source, if source = "" then [] else [.literal source]⟩, c) := by
  have hscan := run_parts_of_scan (scan_of_markerless h) c
  by_cases hempty : source = ""
  · subst hempty
    rfl
  · have hne : source.toList ≠ [] := fun hnil => hempty (String.toList_eq_nil_iff.1 hnil)
    rw [if_neg hne] at hscan
    rw [if_neg hempty]
    obtain ⟨first, rest, hcons⟩ := List.exists_cons_of_ne_nil hne
    have hsteps : source.toList.length = rest.length + 1 := by rw [hcons, List.length_cons]
    have hchars : (compileChars scope source.toList.length source.toList).run c =
        .ok ([.literal source], c) := by
      rw [hsteps, Phrase.compileChars_succ, Compile.run_bind_of_ok hscan]
      show Except.ok ([Fragment.literal (String.ofList source.toList)], c) = _
      rw [String.ofList_toList]
    exact Compile.run_bind_of_ok hchars

/-- A text that is compiled to itself is rendered as itself. -/
theorem render_literal (placeholder : Option String) (s : Store) (source : String) :
    render placeholder s ⟨source, if source = "" then [] else [.literal source]⟩ = .ok source := by
  rw [render]
  split
  · rename_i hempty
    rw [renderAll, hempty]
  · rw [renderAll, renderAll, renderFragment]
    show Except.ok (source ++ "") = _
    rw [String.append_empty]

/-- **Templates are cut without loss, in the only way.**  What a template is cut into are the
canonical parts that are written as the template, and it cannot be cut only where a marker
behind its first parts is not closed.  A text without markers is one literal, or nothing if it
is empty, and every store renders it as it is. -/
theorem parts_lossless (source : String) (c : Context) :
    (∀ ps c', (parts source.toList).run c = .ok (ps, c') ↔
      c' = c ∧ Part.Canonical ps ∧ String.ofList (ps.flatMap Part.written) = source) ∧
    (∀ d, (parts source.toList).run c = .error d ↔
      d = ⟨c.innermost, .unterminatedMarker source, c⟩ ∧ Breaks source.toList) ∧
    (Markerless source.toList →
      (parts source.toList).run c =
        .ok (if source = "" then [] else [⟨.literal, source.toList⟩], c) ∧
      ∀ scope, ∃ t, (compileText scope source).run c = .ok (t, c) ∧
        ∀ placeholder s, render placeholder s t = .ok source) := by
  refine ⟨fun ps c' => ?_, fun d => ?_, fun h => ⟨?_, fun scope => ?_⟩⟩
  · have hsource : String.ofList (ps.flatMap Part.written) = source ↔
        ps.flatMap Part.written = source.toList := by
      rw [← String.toList_inj, String.toList_ofList]
    rw [hsource, ← scan_eq_some_iff]
    cases hscan : scan source.toList with
    | none => simp [run_parts_of_scan_eq_none hscan c]
    | some qs => simp [run_parts_of_scan hscan c, and_comm, eq_comm]
  · rw [← scan_eq_none_iff]
    cases hscan : scan source.toList with
    | none => simp [run_parts_of_scan_eq_none hscan c, eq_comm]
    | some qs => simp [run_parts_of_scan hscan c]
  · have hscan := run_parts_of_scan (scan_of_markerless h) c
    simpa only [String.toList_eq_nil_iff] using hscan
  · exact ⟨_, compileText_of_markerless h scope c, fun placeholder s =>
      render_literal placeholder s source⟩

/-- Signs and braces that begin no marker. -/
theorem parts_lossless_stray :
    Markerless "?$\x7d \x7bb\x7d$".toList ∧
      ∀ c, ∃ t, (compileText "a" "?$\x7d \x7bb\x7d$").run c = .ok (t, c) ∧
        ∀ placeholder s, render placeholder s t = .ok "?$\x7d \x7bb\x7d$" := by
  have hmarkerless : Markerless "?$\x7d \x7bb\x7d$".toList := by decide +kernel
  exact ⟨hmarkerless, fun c => ((parts_lossless _ c).2.2 hmarkerless).2 "a"⟩

/-- The empty text has no markers, and is not a literal either. -/
theorem no_literal_of_empty :
    Markerless "".toList ∧
      ∀ c, ¬∃ text c', (parts "".toList).run c = .ok ([⟨.literal, text⟩], c') := by
  refine ⟨by decide, fun c => ?_⟩
  rintro ⟨text, c', h⟩
  have hscan : scan "".toList = some [] := by rw [String.toList_empty, scan]
  rw [run_parts_of_scan hscan] at h
  exact List.cons_ne_nil _ _ (Prod.mk.inj (Except.ok.inj h)).1.symm

end Template
end Gamebook
