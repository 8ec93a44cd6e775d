/-
# Answers of requests

A request to a session answers with a result or a fault and leaves a session
behind (`Request.answer`).  The answer of a request that is put together is found
from those of its parts, in order, and a fault leaves out what would follow.

Introducing a document has one of three outcomes: it is refused and nothing
changes; its adventure with all its scenes stands behind the others
(`Session.extend`); or, if its name is taken and the document declares the name
with blanks around it, it is refused when the scenes are registered already
(`Session.withStray`).
-/

import Gamebook.Play.Session
import Gamebook.Proofs.Assembling

namespace Gamebook

namespace Request

variable {α β : Type} {x : Request α} {f : α → Request β} {s t : Session}

/-- What a request answers to a session, and the session after it. -/
def answer (x : Request α) (s : Session) : Except Fault α × Session := x.run.run s

/-- A result is answered, and the session stays. -/
@[simp] theorem answer_pure (a : α) (s : Session) : (pure a : Request α).answer s = (.ok a, s) :=
  rfl

/-- What is asked for is the session itself. -/
@[simp] theorem answer_get (s : Session) : (get : Request Session).answer s = (.ok s, s) := rfl

/-- A session that is modified is the one after the request. -/
@[simp] theorem answer_modify (g : Session → Session) (s : Session) :
    (modify g : Request Unit).answer s = (.ok (), g s) := rfl

/-- A session that is set is the one after the request. -/
@[simp] theorem answer_set (t s : Session) : (set t : Request Unit).answer s = (.ok (), t) := rfl

/-- A result or a fault is answered as it is, and the session stays. -/
@[simp] theorem answer_ofExcept (result : Except Fault α) (s : Session) :
    (ofExcept result).answer s = (result, s) := rfl

/-- A request succeeds or fails. -/
theorem exists_answer_eq_ok (h : (x.answer s).1.toOption.isSome = true) :
    ∃ a, x.answer s = (.ok a, (x.answer s).2) := by
  obtain ⟨a, ha⟩ := Option.isSome_iff_exists.1 h
  exact ⟨a, Prod.ext (toOption_eq_some.1 ha) rfl⟩

/-- A request without an answer has a fault. -/
theorem exists_answer_eq_error (h : (x.answer s).1.toOption.isSome = false) :
    ∃ f, x.answer s = (.error f, (x.answer s).2) := by
  rcases hanswer : x.answer s with ⟨f | a, t⟩
  · exact ⟨f, rfl⟩
  · rw [hanswer] at h
    contradiction

/-- A request goes on with the result of its first part. -/
theorem answer_bind_of_ok {a : α} (h : x.answer s = (.ok a, t)) :
    (x >>= f).answer s = (f a).answer t := by
  show (x.run >>= ExceptT.bindCont f).run s = _
  rw [answer] at h
  rw [StateT.run_bind, h]
  rfl

/-- A request whose first part fails has failed. -/
theorem answer_bind_of_error {e : Fault} (h : x.answer s = (.error e, t)) :
    (x >>= f).answer s = (.error e, t) := by
  show (x.run >>= ExceptT.bindCont f).run s = _
  rw [answer] at h
  rw [StateT.run_bind, h]
  rfl

/-- A request answers before the one behind it begins, and its fault ends both. -/
theorem answer_bind (x : Request α) (f : α → Request β) (s : Session) :
    (x >>= f).answer s =
      match x.answer s with
      | (.ok a, t) => (f a).answer t
      | (.error e, t) => (.error e, t) := by
  rcases h : x.answer s with ⟨_ | _, t⟩
  · exact answer_bind_of_error h
  · exact answer_bind_of_ok h

/-- What every request of some keeps is kept by all of them in order. -/
theorem forM_induction {P : Session → Prop} {g : α → Request Unit} {xs : List α} (h : P s)
    (hstep : ∀ a s, P s → P ((g a).answer s).2) : P ((xs.forM g).answer s).2 := by
  induction xs generalizing s with
  | nil => exact h
  | cons a xs ih =>
    have ha := hstep a s h
    show P ((g a >>= fun _ => xs.forM g).answer s).2
    rw [answer_bind]
    rcases hanswer : (g a).answer s with ⟨e | u, t⟩
    · rwa [hanswer] at ha
    · rw [hanswer] at ha
      exact ih ha

end Request

namespace Session

/-- A session with adventures and their scenes behind its own. -/
def extend (s : Session) (new : List (Adventure × List Scene)) : Session :=
  { s with
    story :=
      { adventures := s.story.adventures ++ new.map (·.1),
        registry := s.story.registry.append (new.flatMap (·.2)) } }

/-- A session with scenes that no adventure of it has. -/
def withStray (s : Session) (scenes : List Scene) : Session :=
  { s with story := { s.story with registry := s.story.registry.append scenes } }

/-- Nothing to extend a session by leaves it as it is. -/
@[simp] theorem extend_nil (s : Session) : s.extend [] = s := by
  simp [extend, Registry.append]

/-- A session is extended by some adventures and then by others. -/
theorem extend_append (s : Session) (xs ys : List (Adventure × List Scene)) :
    s.extend (xs ++ ys) = (s.extend xs).extend ys := by
  simp [extend, Registry.append]

/-- A session is extended by one adventure at a time. -/
theorem extend_cons (s : Session) (x : Adventure × List Scene)
    (xs : List (Adventure × List Scene)) : s.extend (x :: xs) = (s.extend [x]).extend xs :=
  s.extend_append [x] xs

/-- The names of new adventures stand behind the others. -/
@[simp] theorem names_extend (s : Session) (new : List (Adventure × List Scene)) :
    (s.extend new).names = s.names ++ new.map (·.1.name) := by
  simp [extend, names]

/-- An adventure is loaded just if its name is among those of the session. -/
theorem isLoaded_iff {s : Session} {name : String} : s.isLoaded name = true ↔ name ∈ s.names := by
  simp [isLoaded, Story.find?, names]

/-- The adventure of a document, with its scenes, can stand behind those of a
session: its name is not taken, be it with the blanks around it that it is declared
with, and its scenes can be registered. -/
structure Admits (s : Session) (document : Json) (a : Adventure) (scenes : List Scene) : Prop where
  compiled : a.CompiledFrom document scenes
  declared : ∀ name, document.get? "name" = some (.string name) → name ∉ s.names
  new : a.name ∉ s.names
  fresh : s.story.registry.Fresh scenes

end Session

namespace Request

/-- The fault of an adventure whose name is taken. -/
def taken (name : String) : Fault := .document { place := .adventure, cause := .alreadyLoaded name }

/-- A name is required to be new, and the session stays whether it is or not. -/
theorem answer_requireNew (name : String) (s : Session) :
    (requireNew name).answer s =
      if name ∈ s.names then (.error (taken name), s) else (.ok (), s) := by
  rw [requireNew, answer_bind, answer_get]
  simp only [Session.isLoaded_iff]
  split <;> rfl

/-- Throwing the result of a request away keeps its fault. -/
theorem answer_discard (x : Request α) (s : Session) :
    (discard x).answer s = ((x.answer s).1.map fun _ => (), (x.answer s).2) := by
  have hbind : discard x = (x >>= fun _ => pure ()) := by
    show (fun _ => ()) <$> x = _
    rw [← bind_pure_comp]
  rw [hbind, answer_bind]
  rcases x.answer s with ⟨_ | _, t⟩ <;> rfl

/-- Assemble a document and put its adventure behind the others. -/
def introduceUnchecked (document : Json) : Request Adventure := do
  match (← get).story.registry.assembleDocument document with
  | .error d => throw (.document d)
  | .ok (a, registry) =>
    modify fun s => { s with story := { s.story with registry } }
    requireNew a.name
    modify fun s => { s with story := { s.story with adventures := s.story.adventures ++ [a] } }
    return a

/-- Putting an adventure behind the others is refused for its document and leaves the session as
it is, or for its name after its scenes have been registered, or it goes through. -/
theorem introduceUnchecked_cases (document : Json) (s : Session) :
    (∃ d, (introduceUnchecked document).answer s = (.error (.document d), s) ∧
      ∀ (a : Adventure) (scenes : List Scene), a.CompiledFrom document scenes →
        ¬s.story.registry.Fresh scenes) ∨
      ∃ (a : Adventure) (scenes : List Scene),
        a.CompiledFrom document scenes ∧ s.story.registry.Fresh scenes ∧
        (introduceUnchecked document).answer s =
          if a.name ∈ s.names then (.error (taken a.name), s.withStray scenes)
          else (.ok a, s.extend [(a, scenes)]) := by
  rw [introduceUnchecked, answer_bind_of_ok (answer_get s)]
  cases hassemble : s.story.registry.assembleDocument document with
  | error d =>
    refine .inl ⟨d, rfl, fun a scenes hcompiled hfresh => ?_⟩
    have hok := Registry.assembleDocument_eq_ok.2 ⟨scenes, hcompiled, hfresh, rfl⟩
    exact absurd (hassemble.symm.trans hok) (by simp)
  | ok result =>
    obtain ⟨a, registry⟩ := result
    obtain ⟨scenes, hcompiled, hfresh, rfl⟩ := Registry.assembleDocument_eq_ok.1 hassemble
    refine .inr ⟨a, scenes, hcompiled, hfresh, ?_⟩
    have hnames : Session.names { s with story := { s.story with
        registry := s.story.registry.append scenes } } = s.names := rfl
    simp only [answer_bind, answer_modify, answer_requireNew, hnames]
    by_cases hname : a.name ∈ s.names
    · simp only [if_pos hname]
      rfl
    · simp only [if_neg hname, answer_pure, Session.extend, List.map_cons, List.map_nil,
        List.flatMap_cons, List.flatMap_nil, List.append_nil]

/-- **A document is introduced whole, or refused.**  It is refused without a trace,
unless it declares the name of a loaded adventure with blanks around it. -/
theorem introduce_cases (document : Json) (s : Session) :
    (∃ d, (introduce document).answer s = (.error (.document d), s) ∧
      ∀ a scenes, ¬s.Admits document a scenes) ∨
      (∃ (a : Adventure) (scenes : List Scene), s.Admits document a scenes ∧
        (introduce document).answer s = (.ok a, s.extend [(a, scenes)])) ∨
      ∃ (a : Adventure) (scenes : List Scene),
        a.CompiledFrom document scenes ∧ s.story.registry.Fresh scenes ∧
        a.name ∈ s.names ∧ document.get? "name" ≠ some (.string a.name) ∧
        (introduce document).answer s = (.error (taken a.name), s.withStray scenes) := by
  by_cases hloaded : ∃ name, document.get? "name" = some (.string name) ∧ name ∈ s.names
  · obtain ⟨name, hname, hmem⟩ := hloaded
    refine .inl ⟨{ place := .adventure, cause := .alreadyLoaded name }, ?_, ?_⟩
    · simp only [introduce, hname]
      refine answer_bind_of_error ?_
      rw [answer_requireNew, if_pos hmem]
      rfl
    · exact fun a scenes hadmits => hadmits.declared name hname hmem
  · have hanswer : (introduce document).answer s = (introduceUnchecked document).answer s := by
      unfold introduce
      split
      · rename_i name hname
        have hnew : (requireNew name).answer s = (.ok (), s) := by
          rw [answer_requireNew, if_neg fun hmem => hloaded ⟨name, hname, hmem⟩]
        exact answer_bind_of_ok hnew
      · rfl
    rw [hanswer]
    rcases introduceUnchecked_cases document s with
      ⟨d, hd, hnot⟩ | ⟨a, scenes, hcompiled, hfresh, ha⟩
    · exact .inl ⟨d, hd, fun a scenes hadmits => hnot a scenes hadmits.compiled hadmits.fresh⟩
    · refine .inr ?_
      by_cases hmem : a.name ∈ s.names
      · rw [if_pos hmem] at ha
        exact .inr ⟨a, scenes, hcompiled, hfresh, hmem, fun h => hloaded ⟨_, h, hmem⟩, ha⟩
      · rw [if_neg hmem] at ha
        have hdeclared (name : String) (hname : document.get? "name" = some (.string name)) :
            name ∉ s.names := fun h => hloaded ⟨name, hname, h⟩
        exact .inl ⟨a, scenes, ⟨hcompiled, hdeclared, hmem, hfresh⟩, ha⟩

end Request
end Gamebook
