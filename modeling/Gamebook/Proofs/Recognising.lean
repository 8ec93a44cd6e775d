/-
# Which texts are identifiers

A segment is a run of segment characters with one line feed behind it or none
(`isSegmentChars_iff`).  `ofCanonical` reads exactly the written forms of identifiers, and
so does `resolve` where a colon stands in the text, whatever its scope is
(`resolve_eq_ok_iff`).  `isCanonical` allows the line feed at the end of the text and not
before the colon, so it knows fewer texts than the readers do; on a text without line
feeds all three mean two runs of segment characters with a colon between them
(`recognised_iff`).
-/

import Gamebook.Proofs.Operands
import Gamebook.Proofs.Reloading

namespace Gamebook

/-- A segment fills a text, but for one line feed that may stand behind it. -/
def Segment.Fills (w : Segment) (cs : List Char) : Prop := cs = w.chars ∨ cs = w.chars ++ ['\n']

/-- A segment is recognised as one. -/
theorem Segment.isSegmentChars_chars (w : Segment) : isSegmentChars w.chars = true := by
  have hsegment := w.isSegment_text
  rwa [isSegment, Segment.text, String.toList_ofList] at hsegment

/-- **The texts of a segment** are the runs of segment characters, with one line feed
behind them or none. -/
theorem isSegmentChars_iff {cs : List Char} :
    isSegmentChars cs = true ↔ ∃ w : Segment, w.Fills cs := by
  constructor
  · intro h
    rw [isSegmentChars] at h
    split at h
    · rename_i hlast
      have hcs : cs.dropLast ++ ['\n'] = cs := List.dropLast_append_getLast? _ hlast
      exact ⟨⟨cs.dropLast, h⟩, .inr hcs.symm⟩
    · exact ⟨⟨cs, h⟩, .inl rfl⟩
  · rintro ⟨w, rfl | rfl⟩
    · exact w.isSegmentChars_chars
    · rw [isSegmentChars, if_pos List.getLast?_concat, List.dropLast_concat]
      exact w.isWord

/-- Without a line feed a segment is a run of segment characters. -/
theorem Segment.Fills.eq_chars {w : Segment} {cs : List Char} (h : w.Fills cs)
    (hcs : '\n' ∉ cs) : cs = w.chars := by
  rcases h with h | rfl
  · exact h
  · exact absurd (List.mem_append_right _ (List.mem_singleton_self _)) hcs

/-- A text of two runs of segment characters with a colon between them. -/
def IsPlainIdentifier (s : String) : Prop :=
  ∃ own name : Segment, s.toList = (Name.full own name).chars

namespace Identifier

variable {s : String} {i : Identifier}

/-- A value that is a segment is read as it. -/
theorem segment?_of_isSegment (h : isSegment s = true) : segment? (.string s) = some ⟨s, h⟩ :=
  dif_pos h

/-- Two texts are the parts of an identifier where they are its segments. -/
theorem ofParts_eq_ok {own name : String} :
    ofParts (.string own) (.string name) = .ok i ↔ i.scope = own ∧ i.name = name := by
  constructor
  · exact of_ofParts
  · rintro ⟨rfl, rfl⟩
    rw [ofParts, segment?_of_isSegment i.scope_isSegment, segment?_of_isSegment i.name_isSegment]

/-- No colon stands in the scope of an identifier. -/
theorem beq_colon_scope (i : Identifier) : ∀ c ∈ i.scope.toList, (c == ':') = false :=
  (exists_of_isSegmentChars i.scope_isSegment).2

/-- A text is written as an identifier where the parts before and behind its first colon
are the segments. -/
theorem canonical_eq_iff : i.canonical = s ↔
    Text.splitAtFirst (· == ':') s.toList = (i.scope.toList, some i.name.toList) := by
  constructor
  · rintro rfl
    rw [toList_canonical]
    exact Text.splitAtFirst_append i.beq_colon_scope (by decide) _
  · intro h
    obtain ⟨c, hc, hs, -⟩ := Text.splitAtFirst_eq_some h
    obtain rfl : c = ':' := by simpa using hc
    rw [← String.toList_inj, toList_canonical, hs]

/-- **A text is read as the identifier that is written so**, and as no other. -/
theorem ofCanonical_eq_ok : ofCanonical (.string s) = .ok i ↔ i.canonical = s := by
  rw [canonical_eq_iff, ofCanonical]
  split
  · rename_i own name hsplit
    rw [ofParts_eq_ok, hsplit, ← String.toList_inj, ← String.toList_inj, String.toList_ofList,
      String.toList_ofList]
    simp [eq_comm]
  · rename_i own hsplit
    simp [hsplit]

/-- **A text without colons is read as a name of the scope.** -/
theorem parts_of_ofText? {scope : String} (h : ofText? scope s = some i) (hs : ':' ∉ s.toList) :
    i.scope = scope ∧ i.name = s := by
  have hplain : ∀ c ∈ s.toList, (c == ':') = false := fun c hc =>
    beq_eq_false_iff_ne.2 fun hcolon => hs (hcolon ▸ hc)
  rw [ofText?, List.splitOnP_eq_singleton hplain] at h
  simpa using of_ofSegments? h

/-- **A text with a colon is read as the identifier that is written so**, whatever the
scope is. -/
theorem ofText?_eq_some_iff {scope : String} (hs : ':' ∈ s.toList) :
    ofText? scope s = some i ↔ i.canonical = s := by
  constructor
  · intro h
    rw [ofText?] at h
    split at h
    · rename_i name hsplit
      obtain ⟨hname, -⟩ | ⟨c, after, -, hnil⟩ := Text.splitOnP_eq_cons hsplit
      · have hplain := Text.not_separator_of_mem_splitOnP (hsplit ▸ List.mem_singleton_self _)
        exact absurd (hplain ':' (hname ▸ hs)) (by decide)
      · exact absurd hnil (List.splitOnP_ne_nil _ _)
    · rename_i own name hsplit
      have hplain (piece : List Char) (hp : piece ∈ [own, name]) : ':' ∉ piece := fun hmem =>
        absurd (Text.not_separator_of_mem_splitOnP (hsplit ▸ hp) ':' hmem) (by decide)
      obtain ⟨-, hnil⟩ | ⟨c, after, hcs, hafter⟩ := Text.splitOnP_eq_cons hsplit
      · contradiction
      obtain ⟨hlast, -⟩ | ⟨_, _, -, hnil⟩ := Text.splitOnP_eq_cons hafter
      · have hc : ':' = c := by simpa [hcs, hlast, hplain] using hs
        obtain ⟨hown, hname⟩ := of_ofSegments? h
        rw [← String.toList_inj, toList_canonical, hown, hname, hcs, hlast, hc]
        simp
      · exact absurd hnil (List.splitOnP_ne_nil _ _)
    · contradiction
  · rintro rfl
    exact ofText?_canonical scope i

/-- Behind a colon, `resolve` reads what is written as an identifier and leaves the text in
the context. -/
theorem resolve_eq_ok_iff {scope : String} {c : Context} (hs : ':' ∈ s.toList) :
    (resolve scope (.string s)).run c = .ok (i, c.visit (.string s)) ↔ i.canonical = s := by
  have hread : ofText? scope s = some i ↔ i.canonical = s := ofText?_eq_some_iff hs
  rw [← hread]
  cases h : ofText? scope s with
  | none => simp [resolve_eq_error h]
  | some j => simp [resolve_eq_ok h]

/-- A text is the written form of an identifier where its parts are segments. -/
theorem exists_canonical_eq_iff : (∃ i : Identifier, i.canonical = s) ↔
    ∃ (own name : Segment) (before after : List Char), own.Fills before ∧ name.Fills after ∧
      s.toList = before ++ ':' :: after := by
  constructor
  · rintro ⟨i, rfl⟩
    obtain ⟨own, hown⟩ := isSegmentChars_iff.1 i.scope_isSegment
    obtain ⟨name, hname⟩ := isSegmentChars_iff.1 i.name_isSegment
    exact ⟨own, name, _, _, hown, hname, i.toList_canonical⟩
  · rintro ⟨own, name, before, after, hown, hname, hs⟩
    have hscope : isSegment (String.ofList before) = true := by
      rw [isSegment, String.toList_ofList]
      exact isSegmentChars_iff.2 ⟨own, hown⟩
    have hlast : isSegment (String.ofList after) = true := by
      rw [isSegment, String.toList_ofList]
      exact isSegmentChars_iff.2 ⟨name, hname⟩
    refine ⟨⟨_, _, hscope, hlast⟩, ?_⟩
    rw [← String.toList_inj, toList_canonical, String.toList_ofList, String.toList_ofList, hs]

/-- A canonical text is two runs of segment characters, with a colon between them and one
line feed behind them or none. -/
theorem isCanonical_iff : isCanonical s = true ↔
    ∃ (own name : Segment) (after : List Char), name.Fills after ∧
      s.toList = own.chars ++ ':' :: after := by
  constructor
  · intro h
    rw [isCanonical] at h
    split at h
    · rename_i own after hsplit
      obtain ⟨hown, hafter⟩ := Bool.and_eq_true_iff.1 h
      obtain ⟨name, hname⟩ := isSegmentChars_iff.1 hafter
      obtain ⟨c, hc, hs, -⟩ := Text.splitAtFirst_eq_some hsplit
      obtain rfl : c = ':' := by simpa using hc
      exact ⟨⟨own, hown⟩, name, after, hname, hs⟩
    · contradiction
  · rintro ⟨own, name, after, hname, hs⟩
    have hsplit := Text.splitAtFirst_append (fun c hc => own.beq_colon hc) (c := ':') (by decide)
      after
    rw [isCanonical, hs, hsplit]
    exact Bool.and_eq_true_iff.2 ⟨own.isWord, isSegmentChars_iff.2 ⟨name, hname⟩⟩

/-- A written identifier has a colon. -/
theorem colon_mem_of_canonical_eq (h : i.canonical = s) : ':' ∈ s.toList := by
  rw [← h, toList_canonical]
  exact List.mem_append_right _ (List.mem_cons_self ..)

/-- `resolve` has a result where the text names an identifier. -/
theorem accepts_resolve_iff {scope : String} {c : Context} :
    (resolve scope (.string s)).Accepts c ↔ ∃ i, ofText? scope s = some i := by
  cases h : ofText? scope s with
  | none => simp [Compile.Accepts, resolve_eq_error h]
  | some i => simp [Compile.Accepts, resolve_eq_ok h]

/-- Without line feeds, a written identifier is two runs of segment characters with a colon
between them. -/
theorem exists_canonical_eq_iff_isPlain (hs : '\n' ∉ s.toList) :
    (∃ i : Identifier, i.canonical = s) ↔ IsPlainIdentifier s := by
  rw [exists_canonical_eq_iff]
  constructor
  · rintro ⟨own, name, before, after, hown, hname, hcs⟩
    simp only [hcs, List.mem_append, List.mem_cons, not_or] at hs
    exact ⟨own, name, by rw [hcs, hown.eq_chars hs.1, hname.eq_chars hs.2.2]; rfl⟩
  · rintro ⟨own, name, hcs⟩
    exact ⟨own, name, _, _, .inl rfl, .inl rfl, hcs⟩

/-- What is canonical is the written form of an identifier. -/
theorem exists_canonical_eq_of_isCanonical (h : isCanonical s = true) :
    ∃ i : Identifier, i.canonical = s := by
  obtain ⟨own, name, after, hname, hs⟩ := isCanonical_iff.1 h
  exact exists_canonical_eq_iff.2 ⟨own, name, _, after, .inl rfl, hname, hs⟩

/-- Two runs of segment characters with a colon between them are canonical. -/
theorem isCanonical_of_isPlain (h : IsPlainIdentifier s) : isCanonical s = true := by
  obtain ⟨own, name, hs⟩ := h
  exact isCanonical_iff.2 ⟨own, name, _, .inl rfl, hs⟩

/-- **Which texts are identifiers.**  Behind the last run of segment characters all three
recognisers allow one line feed, and the two readers, which always agree, allow one behind
the first run as well; on texts without line feeds all three know the same texts. -/
theorem recognised_iff (scope s : String) (c : Context) :
    (isCanonical s = true ↔ ∃ (own name : Segment) (after : List Char), name.Fills after ∧
      s.toList = own.chars ++ ':' :: after) ∧
    ((∃ i, ofCanonical (.string s) = .ok i) ↔
      ∃ (own name : Segment) (before after : List Char), own.Fills before ∧ name.Fills after ∧
        s.toList = before ++ ':' :: after) ∧
    (∀ i, ofCanonical (.string s) = .ok i ↔ ':' ∈ s.toList ∧
      (resolve scope (.string s)).run c = .ok (i, c.visit (.string s))) ∧
    (∀ i, ofCanonical (.string s) = .ok i ↔ i.canonical = s) ∧
    ('\n' ∉ s.toList →
      (isCanonical s = true ↔ IsPlainIdentifier s) ∧
      ((∃ i, ofCanonical (.string s) = .ok i) ↔ IsPlainIdentifier s) ∧
      (':' ∈ s.toList ∧ (resolve scope (.string s)).Accepts c ↔ IsPlainIdentifier s)) ∧
    ∀ i : Identifier, ∃ own name : Segment, own.Fills i.scope.toList ∧
      name.Fills i.name.toList := by
  refine ⟨isCanonical_iff, ?_, fun i => ?_, fun i => ofCanonical_eq_ok, fun hs => ⟨?_, ?_, ?_⟩,
    fun i => ?_⟩
  · simp only [ofCanonical_eq_ok]
    exact exists_canonical_eq_iff
  · rw [ofCanonical_eq_ok]
    refine ⟨fun h => ?_, fun ⟨hcolon, h⟩ => (resolve_eq_ok_iff hcolon).1 h⟩
    have hcolon := colon_mem_of_canonical_eq h
    exact ⟨hcolon, (resolve_eq_ok_iff hcolon).2 h⟩
  · refine ⟨fun h => ?_, isCanonical_of_isPlain⟩
    exact (exists_canonical_eq_iff_isPlain hs).1 (exists_canonical_eq_of_isCanonical h)
  · simp only [ofCanonical_eq_ok]
    exact exists_canonical_eq_iff_isPlain hs
  · rw [← exists_canonical_eq_iff_isPlain hs, accepts_resolve_iff]
    constructor
    · rintro ⟨hcolon, i, hi⟩
      exact ⟨i, (ofText?_eq_some_iff hcolon).1 hi⟩
    · rintro ⟨i, hi⟩
      have hcolon := colon_mem_of_canonical_eq hi
      exact ⟨hcolon, i, (ofText?_eq_some_iff hcolon).2 hi⟩
  · obtain ⟨own, hown⟩ := isSegmentChars_iff.1 i.scope_isSegment
    obtain ⟨name, hname⟩ := isSegmentChars_iff.1 i.name_isSegment
    exact ⟨own, name, hown, hname⟩

/-- With a line feed at the end, `a:b` is canonical though it is no two runs of segment
characters; with one before the colon, it is read as an identifier and not canonical. -/
theorem recognised_line_feed :
    (isCanonical "a:b\n" = true ∧ ¬IsPlainIdentifier "a:b\n") ∧
      isCanonical "a\n:b" = false ∧ ∃ i, ofCanonical (.string "a\n:b") = .ok i := by
  refine ⟨⟨by decide, ?_⟩, by decide, ⟨"a\n", "b", by decide, by decide⟩, rfl⟩
  rintro ⟨own, name, hs⟩
  have hfeed : '\n' ∈ (Name.full own name).chars := by
    rw [← hs]
    decide
  exact absurd ((Name.full own name).continuesWord hfeed) (by decide)

end Identifier
end Gamebook
