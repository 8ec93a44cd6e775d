/-
# Identifiers that are left over

The context of a diagnostic names the identifier that was read last.  It is forgotten where
an option or a scene begins, and between an adventure and its scenes, so it never comes from
another record (`Leg.leave_eq`).  Within a record it is kept from text to text.  A text that
fails before it reads a name is reported with the last name of the texts of its record that
stand before it, or without one if they read none (`Registry.assembleDocument_leaves`).

So a name in a diagnostic need not stand in the text that it is about: a condition that is
refused for its parentheses is reported with the target of its option
(`Registry.assembleDocument_leaves_target`).  It stands there where the text reads a name
itself, and nothing is named where the record has read none.
-/

import Gamebook.Proofs.Snippets

namespace Gamebook

open Compile

/-! ## The name that is read last -/

namespace Snippet

variable {scope : String} {s : Snippet}

/-- A text by itself reads names that stand in it. -/
theorem reads_compile (scope : String) (s : Snippet) :
    Reads (fun n => Text.Occurs n s.text.toList) (fun _ => s.compile scope) fun _ => True := by
  unfold compile
  split
  · exact (Template.reads_compileText scope s.text).bind fun _ _ => reads_pure trivial
  · have htext : Text.Occurs s.text s.text.toList := .inl List.infix_rfl
    exact (Identifier.reads_resolve htext).bind fun _ _ => reads_pure trivial
  · exact (Condition.reads_compileText scope s.text).bind fun _ _ => reads_pure trivial
  · exact (Action.reads_compile scope s.text).bind fun _ _ => reads_pure trivial

/-- **The name that a text reads last stands in it**, and if the text fails at a name, at this
one. -/
theorem occurs_last? (scope : String) (s : Snippet) :
    (∀ n ∈ s.last? scope, Text.Occurs n s.text.toList) ∧
      ∀ cause ∈ s.failure? scope, cause.IsAfter (s.last? scope) := by
  obtain ⟨last, r, hleaves, hlast, hr⟩ := s.reads_compile scope
  have hcompile : s.compile scope = s.compile scope >>= fun _ => pure () := bind_pure_unit.symm
  obtain ⟨rfl, hfailure⟩ := hleaves.of_compile hcompile
  refine ⟨hlast, fun cause hcause => ?_⟩
  rw [hfailure] at hcause
  cases r with
  | ok _ => contradiction
  | error _ =>
    obtain rfl := Option.some.inj hcause
    exact hr

/-- The name that some texts read last, if they read one. -/
def lastOf (scope : String) (ss : List Snippet) : Option String :=
  ss.reverse.findSome? (last? scope)

/-- The last name of one text is the one that it reads last. -/
@[simp] theorem lastOf_singleton (s : Snippet) : lastOf scope [s] = s.last? scope := by
  simp [lastOf]

/-- What later texts read is read last. -/
theorem lastOf_append (earlier later : List Snippet) :
    lastOf scope (earlier ++ later) = (lastOf scope later).or (lastOf scope earlier) := by
  rw [lastOf, lastOf, lastOf, List.reverse_append, List.findSome?_append]

/-- Texts leave no name just if none of them reads one. -/
theorem lastOf_eq_none_iff {ss : List Snippet} :
    lastOf scope ss = none ↔ ∀ s ∈ ss, s.last? scope = none := by
  simp [lastOf]

end Snippet

/-! ## The record of the text that fails -/

namespace Leg

/-- A text fails with a cause behind some legs and some texts of its own record, none of which
fails. -/
structure FailsAt (name : String) (before : List Leg) (own : List Snippet) (s : Snippet)
    (cause : Cause) : Prop where
  before : ∀ t, .text t ∈ before → t.failure? name = none
  own : ∀ t ∈ own, t.failure? name = none
  failure : s.failure? name = some cause

variable {name : String} {legs : List Leg} {s : Snippet} {cause : Cause}

/-- The texts of legs are those that stand among them. -/
theorem mem_snippets_iff : s ∈ snippets legs ↔ .text s ∈ legs := by
  constructor
  · intro h
    obtain ⟨leg, hleg, heq⟩ := List.mem_filterMap.1 h
    cases leg with
    | record => contradiction
    | text t => exact Option.some.inj heq ▸ hleg
  · exact fun h => List.mem_filterMap.2 ⟨_, h, rfl⟩

/-- The first text that fails stands behind legs through which the compiler goes. -/
theorem exists_of_first? (h : Snippet.first? name (snippets legs) = some (s, cause)) :
    ∃ before after, legs = before ++ .text s :: after ∧
      (∀ t ∈ snippets before, t.failure? name = none) ∧ s.failure? name = some cause := by
  obtain ⟨texts, rest, hlegs, hnone, hs⟩ := Snippet.exists_of_first? h
  obtain ⟨front, back, rfl, rfl, hback⟩ := List.filterMap_eq_append_iff.1 hlegs
  obtain ⟨records, leg, after, rfl, hrecords, hleg, -⟩ := List.filterMap_eq_cons_iff.1 hback
  cases leg with
  | record => contradiction
  | text t =>
    obtain rfl := Option.some.inj hleg
    refine ⟨front ++ records, after, by simp, fun t ht => ?_, hs⟩
    have hempty : snippets records = [] := List.filterMap_eq_nil_iff.2 hrecords
    rw [snippets_append, hempty, List.append_nil] at ht
    exact hnone t ht

/-- Legs behind a record are cut at the last record among them. -/
theorem exists_last_record (legs : List Leg) :
    ∃ before own, .record :: legs = before ++ .record :: List.map .text own := by
  induction legs using List.reverseRecOn with
  | nil => exact ⟨[], [], rfl⟩
  | append_singleton legs leg ih =>
    cases leg with
    | record => exact ⟨.record :: legs, [], rfl⟩
    | text t =>
      obtain ⟨before, own, hlegs⟩ := ih
      refine ⟨before, own ++ [t], ?_⟩
      rw [← List.cons_append, hlegs]
      simp

/-- Within a record the name that was read last is left, or what was there before. -/
theorem leave_own {own : List Snippet} (hown : ∀ t ∈ own, t.failure? name = none)
    (hs : s.failure? name = some cause) (raw : Json) (after : List Leg) :
    leave name raw (own.map .text ++ .text s :: after) =
      (Snippet.lastOf name (own ++ [s])).elim raw .string := by
  induction own generalizing raw with
  | nil => simp [leave, hs]
  | cons t own ih =>
    obtain ⟨ht, hown⟩ := List.forall_mem_cons.1 hown
    have hnext : leave name raw (.text t :: (own.map .text ++ .text s :: after)) =
        leave name ((t.last? name).elim raw .string) (own.map .text ++ .text s :: after) := by
      simp [leave, ht]
    have hlast : Snippet.lastOf name (t :: own ++ [s]) =
        (Snippet.lastOf name (own ++ [s])).or (t.last? name) := by
      rw [List.cons_append, ← List.singleton_append, Snippet.lastOf_append,
        Snippet.lastOf_singleton]
    rw [List.map_cons, List.cons_append, hnext, ih hown, hlast]
    cases Snippet.lastOf name (own ++ [s]) <;> rfl

/-- **What is left behind comes from the record of the text that fails.** -/
theorem leave_eq (h : Snippet.first? name (snippets legs) = some (s, cause)) :
    ∃ before own after, .record :: legs = before ++ .record :: (own.map .text ++ .text s :: after) ∧
      FailsAt name before own s cause ∧
      leave name (.string "") legs = .string ((Snippet.lastOf name (own ++ [s])).getD "") := by
  obtain ⟨front, after, rfl, hnone, hs⟩ := exists_of_first? h
  obtain ⟨before, own, hfront⟩ := exists_last_record front
  have hlegs : .record :: (front ++ .text s :: after) =
      before ++ .record :: (own.map .text ++ .text s :: after) := by
    rw [← List.cons_append, hfront, List.append_assoc, List.cons_append]
  have hsnippets : snippets front = snippets before ++ own := by
    rw [← snippets_record, hfront, snippets_append, snippets_record, snippets_map_text]
  rw [hsnippets, List.forall_mem_append] at hnone
  obtain ⟨hbefore, hown⟩ := hnone
  refine ⟨before, own, after, hlegs, ⟨fun t ht => hbefore t (mem_snippets_iff.2 ht), hown, hs⟩, ?_⟩
  calc
    leave name (.string "") (front ++ .text s :: after)
      = leave name (.string "") (before ++ .record :: (own.map .text ++ .text s :: after)) := by
        rw [← hlegs, leave]
    _ = leave name (.string "") (own.map .text ++ .text s :: after) := by
        rw [leave_append_of_none (Snippet.first?_eq_none_iff.2 hbefore), leave]
    _ = .string ((Snippet.lastOf name (own ++ [s])).getD "") := by
        rw [leave_own hown hs]
        cases Snippet.lastOf name (own ++ [s]) <;> rfl

end Leg

/-! ## Diagnostics -/

/-- No identifier is named where a field is refused. -/
theorem AdventureRecord.identifier_of_validate {document : Json} {d : Diagnostic}
    (h : validate document = .error d) : d.context.identifier = .string "" := by
  have hlocate (path : List Step) :
      (Violation.locate document path).2.identifier = .string "" := by
    unfold Violation.locate
    dsimp only
    split
    · split <;> rfl
    · rfl
  unfold validate at h
  split at h
  · rename_i ms
    cases hms : Check.adventure ms with
    | ok r => simp [hms, Except.mapError] at h
    | error v =>
      obtain rfl : Violation.diagnose (.object ms) v = d := by simpa [hms, Except.mapError] using h
      exact hlocate v.path
  · obtain rfl := Except.error.inj h
    rfl

/-- A record that is not compiled is refused at the first text that fails, with the name that
was read last in the record of this text. -/
theorem Registry.leaves_of_assemble {registry : Registry} {r : AdventureRecord} (hr : r.IsValid)
    {d : Diagnostic} (h : registry.assemble r = .error d) :
    (d.context.identifier = .string "" ∧ ∃ i, d.cause = .repeatedScene i) ∨
      ∃ before own s after, r.legs = before ++ .record :: (own.map .text ++ .text s :: after) ∧
        Leg.FailsAt r.name before own s d.cause ∧
        d.context = (s.spot.context r.name).visit
          (.string ((Snippet.lastOf r.name (own ++ [s])).getD "")) := by
  obtain ⟨-, hnone⟩ | ⟨a, scenes, i, -, -, rfl⟩ := of_assemble_eq_error h
  · obtain ⟨legs, hlegs, hgoes⟩ := Adventure.goes_compile fun scene hscene =>
      Identifier.exists_ofParts hr.name (hr.scenes scene hscene).name
    have hrun := hgoes { adventure := r.name } ⟨.string "", rfl⟩
    cases hfirst : Snippet.first? r.name (Leg.snippets legs) with
    | none =>
      rw [hfirst] at hrun
      obtain ⟨⟨a, scenes⟩, c, hrun, -⟩ := hrun
      exact absurd ⟨c, hrun⟩ (hnone a scenes)
    | some found =>
      obtain ⟨s, cause⟩ := found
      rw [hfirst] at hrun
      dsimp only at hrun
      rw [assemble, hrun] at h
      obtain rfl := Except.error.inj h
      obtain ⟨before, own, after, hrecord, hfails, hleave⟩ := Leg.leave_eq hfirst
      exact .inr ⟨before, own, s, after, hlegs.trans hrecord, hfails, congrArg _ hleave⟩
  · exact .inl ⟨rfl, _, rfl⟩

/-- **What identifier a refusal names.**  A document that is refused for a field, or for a scene
that repeats another, names none.  Another one is refused at the first text that fails, and
names what was read last by this text or, if this reads no name, by those of its own record that
stand before it.  A text reads names that stand in it, and one that fails at a name fails at the
last of them.  So the identifier stands in the text that fails, or is missing, if this text reads
a name or none before it in its record does. -/
theorem Registry.assembleDocument_leaves {registry : Registry} {document : Json} {d : Diagnostic}
    (h : registry.assembleDocument document = .error d) :
    (d.context.identifier = .string "" ∧
      (AdventureRecord.validate document = .error d ∨ ∃ i, d.cause = .repeatedScene i)) ∨
    ∃ r before own s after, AdventureRecord.validate document = .ok r ∧
      r.legs = before ++ .record :: (own.map .text ++ .text s :: after) ∧
      Leg.FailsAt r.name before own s d.cause ∧
      d.context = (s.spot.context r.name).visit
        (.string ((Snippet.lastOf r.name (own ++ [s])).getD "")) ∧
      (∀ t : Snippet, ∀ n ∈ t.last? r.name, Text.Occurs n t.text.toList) ∧
      (d.cause.family = .identifier →
        ∃ n ∈ s.last? r.name, d.cause = .malformedIdentifier n) ∧
      ((s.last? r.name).isSome = true ∨ (∀ t ∈ own, t.last? r.name = none) →
        d.context.identifier = .string "" ∨
          ∃ n, d.context.identifier = .string n ∧ Text.Occurs n s.text.toList) := by
  rw [assembleDocument] at h
  cases hvalidate : AdventureRecord.validate document with
  | error v =>
    rw [hvalidate] at h
    obtain rfl := Except.error.inj h
    exact .inl ⟨AdventureRecord.identifier_of_validate hvalidate, .inl rfl⟩
  | ok r =>
    rw [hvalidate] at h
    obtain ⟨-, hvalid⟩ := AdventureRecord.of_validate hvalidate
    obtain ⟨hidentifier, hrepeated⟩ | ⟨before, own, s, after, hlegs, hfails, hcontext⟩ :=
      leaves_of_assemble hvalid h
    · exact .inl ⟨hidentifier, .inr hrepeated⟩
    · obtain ⟨hoccurs, hcause⟩ := s.occurs_last? r.name
      refine .inr ⟨r, before, own, s, after, rfl, hlegs, hfails, hcontext,
        fun t => (t.occurs_last? r.name).1, fun hfamily => ?_, fun hreads => ?_⟩
      · rcases hcause d.cause hfails.failure with hexpression | hname
        · exact absurd (hfamily.symm.trans hexpression) (by decide)
        · exact hname
      · rw [hcontext, Snippet.lastOf_append, Snippet.lastOf_singleton]
        cases hlast : s.last? r.name with
        | some n => exact .inr ⟨n, rfl, hoccurs n hlast⟩
        | none =>
          rw [hlast] at hreads
          have hown : ∀ t ∈ own, t.last? r.name = none := hreads.resolve_left Bool.false_ne_true
          rw [Snippet.lastOf_eq_none_iff.2 hown]
          exact .inl rfl

/-- A document with an option whose condition has a parenthesis that is not closed. -/
def Json.unclosed : Json :=
  .object
    [("name", .string "a"), ("title", .string "T"), ("version", .int 1),
     ("scenes", .array
       [.object
         [("name", .string "start"), ("title", .string "S"), ("content", .ofTexts ["c"]),
          ("options", .array
            [.object
              [("label", .string "Pay"), ("target", .string "start"),
               ("condition", .string "(1>0")]])]])]

/-- A value is read as a text just if it is one. -/
theorem Json.string?_eq_some {v : Json} {s : String} : v.string? = some s ↔ v = .string s := by
  cases v <;> simp [string?]

/-- The target is named where the condition of this document is refused. -/
theorem Registry.exists_assembleDocument_unclosed :
    ∃ d, assembleDocument ⟨[]⟩ .unclosed = .error d ∧ d.context.identifier = .string "start" := by
  have hnamed : (match assembleDocument ⟨[]⟩ .unclosed with
      | .ok _ => none
      | .error d => d.context.identifier.string?) = some "start" := by
    decide +kernel
  cases h : assembleDocument ⟨[]⟩ .unclosed with
  | ok built =>
    rw [h] at hnamed
    contradiction
  | error d =>
    rw [h] at hnamed
    exact ⟨d, rfl, Json.string?_eq_some.1 hnamed⟩

/-- The condition reads no name, so the one that is named was read in another text of its
record. -/
theorem Registry.assembleDocument_leaves_target :
    ∃ (d : Diagnostic) (r : AdventureRecord) (before : List Leg) (own : List Snippet)
        (s : Snippet) (after : List Leg), assembleDocument ⟨[]⟩ .unclosed = .error d ∧
      r.legs = before ++ .record :: (own.map .text ++ .text s :: after) ∧
      Leg.FailsAt r.name before own s d.cause ∧
      Snippet.lastOf r.name (own ++ [s]) = some "start" ∧
      d.context = (s.spot.context r.name).visit (.string "start") := by
  obtain ⟨d, h, hnamed⟩ := exists_assembleDocument_unclosed
  obtain ⟨hidentifier, -⟩ | ⟨r, before, own, s, after, -, hlegs, hfails, hcontext, -⟩ :=
    assembleDocument_leaves h
  · exact absurd (hidentifier.symm.trans hnamed) (by simp)
  · have hstart : (Snippet.lastOf r.name (own ++ [s])).getD "" = "start" := by
      rw [hcontext] at hnamed
      exact Json.string.inj hnamed
    have hlast : Snippet.lastOf r.name (own ++ [s]) = some "start" := by
      cases hlast : Snippet.lastOf r.name (own ++ [s]) with
      | none => exact absurd (hlast ▸ hstart) (by decide)
      | some n => exact congrArg some (by rwa [hlast] at hstart)
    exact ⟨d, r, before, own, s, after, h, hlegs, hfails, hlast, hstart ▸ hcontext⟩

/-- **An identifier may be left over** from another text of the record: not every refusal names
what stands in the text that fails. -/
theorem Registry.not_occurs_of_assembleDocument :
    ¬∀ (registry : Registry) (document : Json) (d : Diagnostic) (r : AdventureRecord)
        (s : Snippet) (cause : Cause), registry.assembleDocument document = .error d →
      AdventureRecord.validate document = .ok r →
      Snippet.first? r.name r.snippets = some (s, cause) →
      d.context.identifier = .string "" ∨
        ∃ n, d.context.identifier = .string n ∧ Text.Occurs n s.text.toList := by
  intro hoccurs
  obtain ⟨d, h, hnamed⟩ := exists_assembleDocument_unclosed
  have hfirst : ((AdventureRecord.validate .unclosed).toOption.bind fun r =>
      (Snippet.first? r.name r.snippets).map (·.1.text)) = some "(1>0" := by
    decide +kernel
  obtain ⟨r, hr, hfirst⟩ := Option.bind_eq_some_iff.1 hfirst
  obtain ⟨⟨s, cause⟩, hs, htext⟩ := Option.map_eq_some_iff.1 hfirst
  rcases hoccurs ⟨[]⟩ .unclosed d r s cause h (toOption_eq_some.1 hr) hs with
    hidentifier | ⟨n, hidentifier, hn⟩
  · exact absurd (hidentifier.symm.trans hnamed) (by simp)
  · obtain rfl : n = "start" := Json.string.inj (hidentifier.symm.trans hnamed)
    rw [show s.text = "(1>0" from htext] at hn
    exact absurd hn (by decide)

end Gamebook
