/-
# Calls of a host

What a host does with a session is a sequence of calls: it loads documents, files
and adventures by name, links, and plays.  A call succeeds or fails with a fault, and
either way the session that it leaves behind is the one that the next call is
answered by (`Session.after`).

The calls that load have in common that they look for a document and, if they find
one, load it with a library for what it requires (`LoadCall.answers`).  The other
calls link the story or leave it alone (`Call.leaves`).
-/

import Gamebook.Play.Turn
import Gamebook.Proofs.Requirements

namespace Gamebook

/-- A call that loads: a given document, a file, or the adventure with a name. -/
inductive LoadCall where
  | given (document : Json) (library : Option Library)
  | file (path : Path)
  | require (name : String) (library : Option Library)

/-- A call of a host. -/
inductive Call where
  | load (c : LoadCall)
  | link
  | run (name : String) (answers : List String)

namespace LoadCall

/-- The request that is made by a call. -/
def request : LoadCall → Request Adventure
  | given document library => Request.load document library
  | file path => Request.loadFile path
  | require name library => Request.require name library

/-- What a call finds where it looks for a document.  It does not look for the one
of an adventure that is loaded. -/
def found? (s : Session) : LoadCall → Option (Except Fault Json)
  | given document _ => some (.ok document)
  | file path => some (Library.readDocument s.disk path)
  | require name library =>
    if name ∈ s.names then none else some (Library.supply s.disk name (library.or s.library))

/-- Where a call looks for what the document requires. -/
def library? (s : Session) : LoadCall → Option Library
  | given _ library | require _ library => library.or s.library
  | file path => some (s.library.getD (.directory path.parent))

/-- Whether the document that a call finds declares its name without blanks around
it. -/
def IsPlain (c : LoadCall) (s : Session) : Prop :=
  ∀ document, c.found? s = some (.ok document) → document.IsPlain

/-- What a call answers, by what it finds. -/
inductive Answers (c : LoadCall) (s : Session) : Except Fault Adventure × Session → Prop
  | loaded {a : Adventure} (h : c.found? s = none) : Answers c s (.ok a, s)
  | notFound {f : Fault} (h : c.found? s = some (.error f)) : Answers c s (.error f, s)
  | found {document : Json} {answered : Except Fault Adventure × Session}
      (h : c.found? s = some (.ok document))
      (loads : Request.Loads (c.library? s) s document answered) : Answers c s answered

variable {c : LoadCall} {s : Session} {document : Json} {f : Fault}

/-- A call that finds a document loads it. -/
theorem answer_of_found (h : c.found? s = some (.ok document)) :
    ∃ library, library.or s.library = c.library? s ∧
      c.request.answer s = (Request.load document library).answer s := by
  cases c with
  | given given library =>
    obtain rfl := Except.ok.inj (Option.some.inj h)
    exact ⟨library, rfl, rfl⟩
  | file path =>
    have hread : Library.readDocument s.disk path = .ok document := Option.some.inj h
    refine ⟨library? s (file path), rfl, ?_⟩
    rw [request, Request.loadFile, Request.answer_bind_of_ok (Request.answer_get s)]
    refine Request.answer_bind_of_ok ?_
    rw [Request.answer_ofExcept, hread]
  | require name library =>
    rw [found?, Option.ite_none_left_eq_some] at h
    obtain ⟨hnew, hsupply⟩ := h
    refine ⟨library.or s.library, Library.or_or_self library s.library, ?_⟩
    exact (Request.loads_require library hnew (Option.some.inj hsupply)).1

/-- A call that does not find its document changes nothing. -/
theorem answer_of_notFound (h : c.found? s = some (.error f)) :
    c.request.answer s = (.error f, s) := by
  cases c with
  | given => exact absurd (Option.some.inj h) (by simp)
  | file path =>
    have hread : Library.readDocument s.disk path = .error f := Option.some.inj h
    rw [request, Request.loadFile, Request.answer_bind_of_ok (Request.answer_get s)]
    refine Request.answer_bind_of_error ?_
    rw [Request.answer_ofExcept, hread]
  | require name library =>
    rw [found?, Option.ite_none_left_eq_some] at h
    obtain ⟨hnew, hsupply⟩ := h
    rw [request, Request.answer_require library hnew, Option.some.inj hsupply]

/-- A call that does not look for a document changes nothing either. -/
theorem answer_of_loaded (h : c.found? s = none) : ∃ a, c.request.answer s = (.ok a, s) := by
  cases c with
  | given | file => contradiction
  | require name library =>
    have hmem : name ∈ s.names := by simpa [found?] using h
    obtain ⟨a, ha⟩ := Option.isSome_iff_exists.1 (Session.isLoaded_iff.2 hmem)
    exact ⟨a, Request.answer_require_of_loaded library ha⟩

/-- A call that finds a document loads it, and any other one changes nothing. -/
theorem answers (c : LoadCall) (s : Session) : c.Answers s (c.request.answer s) := by
  rcases hfound : c.found? s with _ | f | document
  · obtain ⟨a, ha⟩ := answer_of_loaded hfound
    exact ha ▸ .loaded hfound
  · exact answer_of_notFound hfound ▸ .notFound hfound
  · obtain ⟨library, hlib, hanswer⟩ := answer_of_found hfound
    exact hanswer ▸ .found hfound (Request.loads_load hlib document)

end LoadCall

namespace Request

variable {s : Session}

/-- Loading writes nothing to the disk. -/
theorem Loads.disk_eq {document : Json} {library : Option Library}
    {answered : Except Fault Adventure × Session} (h : Loads library s document answered) :
    answered.2.disk = s.disk := by
  cases h <;> rfl

/-- The load-time actions of an adventure change neither the story nor the disk. -/
theorem story_initialise (a : Adventure) (s : Session) :
    ((initialise a).answer s).2.story = s.story ∧ ((initialise a).answer s).2.disk = s.disk := by
  rw [initialise, answer_bind_of_ok (answer_get s)]
  cases hready : s.isReady a.name with
  | true => simp
  | false =>
    simp only [Bool.not_false, if_true, answer_bind, answer_set]
    cases (Action.runAll a.actions s.store).1 with
    | none => exact ⟨rfl, rfl⟩
    | some e => exact ⟨rfl, rfl⟩

/-- Linking a session links its story. -/
theorem story_link (s : Session) : (link.answer s).2.story = s.story.link.result ∧
    (link.answer s).2.disk = s.disk := by
  rw [link, answer_bind_of_ok (answer_get s), answer_bind_of_ok (answer_modify _ s)]
  cases s.story.link.failure with
  | some d => exact ⟨rfl, rfl⟩
  | none =>
    refine forM_induction (P := fun t => t.story = s.story.link.result ∧ t.disk = s.disk)
      ⟨rfl, rfl⟩ fun a t ht => ?_
    obtain ⟨hstory, hdisk⟩ := story_initialise a t
    exact ⟨hstory.trans ht.1, hdisk.trans ht.2⟩

end Request

namespace Session

/-- A play changes neither the story nor the disk. -/
theorem story_run (s : Session) (name : String) (answers : List String) :
    (s.run name answers).2.story = s.story ∧ (s.run name answers).2.disk = s.disk := by
  rw [run]
  cases s.story.find? name <;> exact ⟨rfl, rfl⟩

end Session

namespace Call

/-- Whether a call succeeds, and the session after it. -/
def answer : Call → Session → Except Fault Unit × Session
  | load c, s => (discard c.request).answer s
  | link, s => Request.link.answer s
  | run name answers, s =>
    ((s.run name answers).1.result.map fun _ => (), (s.run name answers).2)

/-- What a call makes of the story of a session: it loads a document that it found, or
it links the story, or it leaves it alone. -/
inductive Leaves : Call → Session → Session → Prop
  | same {c : Call} {s t : Session} (story : t.story = s.story) : Leaves c s t
  | loaded {c : LoadCall} {s : Session} {document : Json}
      {answered : Except Fault Adventure × Session} (found : c.found? s = some (.ok document))
      (loads : Request.Loads (c.library? s) s document answered) : Leaves (load c) s answered.2
  | linked {s t : Session} (story : t.story = s.story.link.result) : Leaves link s t

/-- **A call loads, links, or leaves the story alone**, and it never writes to the
disk. -/
theorem leaves (c : Call) (s : Session) :
    c.Leaves s (c.answer s).2 ∧ (c.answer s).2.disk = s.disk := by
  cases c with
  | load c =>
    rw [answer, Request.answer_discard]
    have hanswers := c.answers s
    generalize c.request.answer s = answered at hanswers
    cases hanswers with
    | loaded | notFound => exact ⟨.same rfl, rfl⟩
    | found found loads => exact ⟨.loaded found loads, loads.disk_eq⟩
  | link =>
    obtain ⟨hstory, hdisk⟩ := Request.story_link s
    exact ⟨.linked hstory, hdisk⟩
  | run name answers =>
    obtain ⟨hstory, hdisk⟩ := s.story_run name answers
    exact ⟨.same hstory, hdisk⟩

end Call

namespace Session

/-- A session after some calls, whether they succeed or fail. -/
def after (s : Session) (calls : List Call) : Session :=
  calls.foldl (fun s c => (c.answer s).2) s

/-- What every call preserves holds after any calls. -/
theorem after_induction {P : Session → Prop} {s : Session} {calls : List Call} (h : P s)
    (hstep : ∀ c ∈ calls, ∀ s, P s → P (c.answer s).2) : P (s.after calls) := by
  induction calls generalizing s with
  | nil => exact h
  | cons c calls ih =>
    exact ih (hstep c (List.mem_cons_self ..) s h) fun c' hc' =>
      hstep c' (List.mem_cons_of_mem _ hc')

end Session
end Gamebook
