/-
# Failed calls

A call that loads may fail in the middle.  Nothing is taken back then: a document
that is refused leaves no trace, but an adventure that was loaded stays loaded when
something that it requires cannot be loaded, as do those that were loaded before the
one that failed (`LoadCall.failed`).  What the session had before stays as it was.
-/

import Gamebook.Proofs.Calls

namespace Gamebook
namespace LoadCall

/-- **What a failed call leaves behind.**  The variables and what has been set and
run stay as they were, and so do the adventures, with others behind them.  These
are none if the call found no document or its adventure was refused, and otherwise
that adventure and the beginning of the exploration of what it requires, up to an
adventure that cannot be loaded.  Each of them has all its scenes, and no other scene
is registered if the document declares its name plainly. -/
theorem failed {c : LoadCall} {s t : Session} {f : Fault}
    (h : c.request.answer s = (.error f, t)) :
    (t.store = s.store ∧ t.settings = s.settings ∧ t.ready = s.ready) ∧
      ∃ new, t.story.adventures = s.story.adventures ++ new.map (·.1) ∧
        (c.IsPlain s → t = s.extend new) ∧
        ((∀ document a scenes, c.found? s = some (.ok document) →
          ¬s.Admits document a scenes) → new = []) ∧
        ∀ document a scenes, c.found? s = some (.ok document) → s.Admits document a scenes →
          ∃ more name, new = (a, scenes) :: more ∧
            Request.Explored (c.library? s) (s.extend [(a, scenes)]) (s.names ++ [a.name])
              a.requires more (some name) := by
  have hanswers := c.answers s
  rw [h] at hanswers
  cases hanswers with
  | notFound hfound =>
    refine ⟨⟨rfl, rfl, rfl⟩, [], by simp, fun _ => s.extend_nil.symm, fun _ => rfl, ?_⟩
    intro document a scenes hdocument
    exact absurd (hfound.symm.trans hdocument) (by simp)
  | @found document _ hfound loads =>
    have hsame {document' : Json} (h' : c.found? s = some (.ok document')) :
        document' = document := by
      simpa using h'.symm.trans hfound
    cases loads with
    | refused d not_admitted =>
      refine ⟨⟨rfl, rfl, rfl⟩, [], by simp, fun _ => s.extend_nil.symm, fun _ => rfl, ?_⟩
      intro document' a scenes hdocument hadmits
      obtain rfl := hsame hdocument
      exact absurd hadmits (not_admitted a scenes)
    | @strayed a scenes compiled fresh old declared =>
      refine ⟨⟨rfl, rfl, rfl⟩, [], by simp [Session.withStray], ?_, fun _ => rfl, ?_⟩
      · exact fun hplain =>
          absurd (compiled.get?_name_of_isPlain (hplain document hfound)) declared
      · intro document' a' scenes' hdocument hadmits
        obtain rfl := hsame hdocument
        obtain ⟨rfl, -⟩ := compiled.unique hadmits.compiled
        exact absurd old hadmits.new
    | @entered a scenes more halt _ admitted explored ended loaded =>
      obtain ⟨name, rfl⟩ := Option.isSome_iff_exists.1 ended.1
      refine ⟨⟨rfl, rfl, rfl⟩, (a, scenes) :: more, rfl, fun _ => rfl, ?_, ?_⟩
      · exact fun h => absurd admitted (h document a scenes hfound)
      · intro document' a' scenes' hdocument hadmits
        obtain rfl := hsame hdocument
        obtain ⟨rfl, rfl⟩ := admitted.compiled.unique hadmits.compiled
        exact ⟨more, name, rfl, explored⟩

/-- An adventure that requires one which is not found stays behind. -/
theorem failed_missing :
    let s : Session := .start {} (some (.documents [])) {}
    let c : LoadCall := .given (.brief "a" "start" ["b"]) none
    ∃ f t new, c.request.answer s = (.error f, t) ∧ t.store = s.store ∧ t = s.extend new ∧
      new.map (·.1.name) = ["a"] := by
  intro s c
  obtain ⟨hfails, hnames⟩ : (c.request.answer s).1.toOption.isSome = false ∧
      (c.request.answer s).2.names = s.names ++ ["a"] := by
    decide +kernel
  obtain ⟨f, hanswer⟩ := Request.exists_answer_eq_error hfails
  obtain ⟨⟨hstore, -, -⟩, new, -, hextend, -, -⟩ := failed hanswer
  have hplain : c.IsPlain s := by
    rintro document ⟨⟩ raw ⟨⟩
    decide
  refine ⟨f, _, new, hanswer, hstore, hextend hplain, ?_⟩
  rw [hextend hplain, Session.names_extend] at hnames
  exact List.append_cancel_left hnames

/-- Loading is not all or nothing: the adventure that requires one which is not found
stays, and then it is refused when the other one can be found. -/
theorem not_all_or_nothing :
    let s : Session := .start {} (some (.documents [])) {}
    let document : Json := .brief "a" "start" ["b"]
    let repaired : Library := .documents [("b", .brief "b" "start" [])]
    ∃ f t, (given document none).request.answer s = (.error f, t) ∧
      s.names = ["inkspire"] ∧ t.names = ["inkspire", "a"] ∧
      t.story.registry.size = s.story.registry.size + 1 ∧
      ∃ g u, (given document (some repaired)).request.answer t = (.error g, u) := by
  intro s document repaired
  obtain ⟨hfails, hbefore, hafter, hsize, hagain⟩ :
      ((given document none).request.answer s).1.toOption.isSome = false ∧
      s.names = ["inkspire"] ∧
      ((given document none).request.answer s).2.names = ["inkspire", "a"] ∧
      ((given document none).request.answer s).2.story.registry.size =
        s.story.registry.size + 1 ∧
      ((given document (some repaired)).request.answer
        ((given document none).request.answer s).2).1.toOption.isSome = false := by
    decide +kernel
  obtain ⟨f, hanswer⟩ := Request.exists_answer_eq_error hfails
  obtain ⟨g, hrepeated⟩ := Request.exists_answer_eq_error hagain
  exact ⟨f, _, hanswer, hbefore, hafter, hsize, g, _, hrepeated⟩

end LoadCall
end Gamebook
