/-
# Required adventures

An adventure that is asked for by name is loaded from the library unless it is
loaded already.  It is loaded once, and with it every adventure that can be reached
from it along what adventures require, without passing through one that was loaded
before; cycles do no harm.  The order is that of a depth-first exploration
(`Request.require_explores`).

The name that is asked for may have blanks around it, and then the library has to
hold the document under the name with the blanks.  The adventure is loaded under the
name without them, which is also the one that others require it by.
-/

import Gamebook.Proofs.Loading

namespace Gamebook

/-- The document of an adventure with one scene, out of which no choice leads. -/
def Json.brief (name scene : String) (requires : List String) : Json :=
  .object
    [("name", .string name), ("title", .string "T"), ("version", .int 1),
     ("requires", .ofTexts requires),
     ("scenes", .array
       [.object [("name", .string scene), ("title", .string "S"), ("content", .ofTexts ["c"])]])]

namespace Library

/-- The document of an adventure by its name, `asked` being the name by which one of
them is asked for. -/
def supplyFrom (library : Option Library) (disk : Disk) (asked name : String) :
    Except Fault Json :=
  supply disk (if name = Text.trim asked then asked else name) library

/-- The adventures that an adventure requires, by its name, `asked` being the name by
which one of them is asked for. -/
def requiresFrom (library : Option Library) (disk : Disk) (asked name : String) : List String :=
  requirementsOf (supplyFrom library disk asked name)

variable {library : Option Library} {disk : Disk} {asked name : String}

/-- Under the name that is asked for, without the blanks around it, the document that is asked for
is supplied. -/
theorem supplyFrom_self : supplyFrom library disk asked (Text.trim asked) =
    supply disk asked library := by
  rw [supplyFrom, if_pos rfl]

/-- Under every other name, a library supplies what it does without being asked for something
else. -/
theorem supplyFrom_of_ne (h : name ≠ Text.trim asked) :
    supplyFrom library disk asked name = supply disk name library := by
  rw [supplyFrom, if_neg h]

end Library

namespace Session

/-- The adventures of a library that stand behind those of a session were compiled
from its documents. -/
theorem Grows.exists_document {s : Session} {library : Option Library}
    {new : List (Adventure × List Scene)} (h : s.Grows library new) :
    ∀ e ∈ new, ∃ document, Library.supply s.disk e.1.name library = .ok document ∧
      e.1.CompiledFrom document e.2 := by
  induction h with
  | nil => exact nofun
  | cons found admitted rest ih =>
    rintro e (_ | ⟨_, he⟩)
    · exact ⟨_, found, admitted.compiled⟩
    · exact ih e he

end Session

namespace Request

variable {s : Session} {name : String}

/-- An adventure is not found just if its name is not among those of the session. -/
theorem find?_eq_none_iff : s.story.find? name = none ↔ name ∉ s.names := by
  rw [← Session.isLoaded_iff, Session.isLoaded, Option.not_isSome_iff_eq_none]

/-- Nothing happens when an adventure that is loaded is asked for. -/
theorem answer_require_of_loaded {a : Adventure} (library : Option Library)
    (h : s.story.find? name = some a) : (require name library).answer s = (.ok a, s) := by
  rw [require, answer_bind_of_ok (answer_get s), h]
  rfl

/-- An adventure that is not loaded is loaded from its document. -/
theorem answer_require (library : Option Library) (h : name ∉ s.names) :
    (require name library).answer s =
      match Library.supply s.disk name (library.or s.library) with
      | .ok document => (load document (library.or s.library)).answer s
      | .error f => (.error f, s) := by
  rw [require, answer_bind_of_ok (answer_get s), find?_eq_none_iff.2 h]
  simp only [answer_bind, answer_fetch]
  cases Library.supply s.disk name (library.or s.library) <;> rfl

/-- Adventures with their scenes are what is loaded when an adventure is asked for in
a session where it is not loaded. -/
structure LoadedFrom (s : Session) (lib : Option Library) (asked : String)
    (new : List (Adventure × List Scene)) : Prop where
  /-- Each of them is the adventure of its document. -/
  compiled : ∀ e ∈ new, ∃ document,
    Library.supplyFrom lib s.disk asked e.1.name = .ok document ∧ e.1.CompiledFrom document e.2
  /-- They stand in the order of a depth-first exploration of what they require. -/
  depthFirst : DepthFirst (Library.requiresFrom lib s.disk asked) s.names [Text.trim asked]
    (new.map (·.1.name)) none
  /-- None of them is loaded twice. -/
  nodup : (new.map (·.1.name)).Nodup
  /-- None of them was loaded before. -/
  not_mem : ∀ n ∈ new.map (·.1.name), n ∉ s.names
  /-- They are all that can be reached without one that was loaded before. -/
  mem_iff : ∀ n, n ∈ new.map (·.1.name) ↔ Relation.ReflTransGen
    (DepthFirst.Step (Library.requiresFrom lib s.disk asked) s.names) (Text.trim asked) n

/-- What was explored behind the document of an adventure is what is loaded with
it. -/
theorem loadedFrom_of_explored {lib : Option Library} {asked : String}
    {document : Json} {a : Adventure} {scenes : List Scene} {new : List (Adventure × List Scene)}
    (hfound : Library.supply s.disk asked lib = .ok document) (ha : s.Admits document a scenes)
    (h : Explored lib (s.extend [(a, scenes)]) (s.names ++ [a.name]) a.requires new none) :
    LoadedFrom s lib asked ((a, scenes) :: new) := by
  have hname : a.name = Text.trim asked := by
    obtain ⟨raw, hraw, hname⟩ := ha.compiled.exists_name
    obtain rfl : raw = asked := by
      simpa [Library.get?_name_of_supply hfound, eq_comm] using hraw
    exact hname
  have hnew : ∀ n ∈ new.map (·.1.name), n ≠ a.name := fun n hn hna =>
    h.depthFirst.not_mem_visited n hn (by simp [hna])
  have hdepthFirst : DepthFirst (Library.requiresFrom lib s.disk asked) s.names [Text.trim asked]
      (((a, scenes) :: new).map (·.1.name)) none := by
    have hbehind : Library.requiresFrom lib s.disk asked a.name = a.requires := by
      rw [Library.requiresFrom, hname, Library.supplyFrom_self, hfound]
      exact ha.compiled.requires_eq.symm
    have hsame : ∀ y, y ∉ s.names ++ [a.name] →
        Library.requires lib s.disk y = Library.requiresFrom lib s.disk asked y := by
      intro y hy
      have hne : y ≠ Text.trim asked := fun hya => hy (by simp [hya, hname])
      rw [Library.requires, Library.requiresFrom, Library.supplyFrom_of_ne hne]
    have hdone : DepthFirst (Library.requiresFrom lib s.disk asked) s.names [a.name]
        (a.name :: (new.map (·.1.name) ++ [])) none :=
      .enter ha.new (hbehind ▸ h.depthFirst.congr hsame) .done
    rw [List.append_nil] at hdone
    rwa [List.map_cons, ← hname]
  refine ⟨?_, hdepthFirst, hdepthFirst.nodup, hdepthFirst.not_mem_visited, fun n => ?_⟩
  · rintro e (_ | ⟨_, he⟩)
    · refine ⟨document, ?_, ha.compiled⟩
      rw [hname, Library.supplyFrom_self, hfound]
    · obtain ⟨document', hfound', hcompiled⟩ := h.grows.exists_document e he
      have hne : e.1.name ≠ Text.trim asked :=
        hname ▸ hnew e.1.name (List.mem_map.2 ⟨e, he, rfl⟩)
      exact ⟨document', by rwa [Library.supplyFrom_of_ne hne], hcompiled⟩
  · rw [hdepthFirst.mem_iff n]
    constructor
    · rintro ⟨x, hx, -, hreach⟩
      exact List.mem_singleton.1 hx ▸ hreach
    · exact fun hreach => ⟨_, List.mem_singleton.2 rfl, hname ▸ ha.new, hreach⟩

/-- What comes of asking for an adventure that is not loaded. -/
theorem loads_require {document : Json} (library : Option Library) (hnew : name ∉ s.names)
    (hfound : Library.supply s.disk name (library.or s.library) = .ok document) :
    (require name library).answer s = (load document (library.or s.library)).answer s ∧
      Loads (library.or s.library) s document ((require name library).answer s) := by
  have hrequire := answer_require library hnew
  simp only [hfound] at hrequire
  refine ⟨hrequire, ?_⟩
  rw [hrequire]
  exact loads_load (Library.or_or_self library s.library) document

/-- Asking for an adventure never gives up on a row of requirements. -/
theorem suffices_require (name : String) (library : Option Library) (s : Session) :
    Suffices ((require name library).answer s) := by
  cases hloaded : s.story.find? name with
  | some b =>
    rw [answer_require_of_loaded library hloaded]
    simp [Suffices]
  | none =>
    have hnew : name ∉ s.names := find?_eq_none_iff.1 hloaded
    cases hfound : Library.supply s.disk name (library.or s.library) with
    | error f =>
      rw [answer_require library hnew, hfound]
      rintro ⟨⟩
      exact Library.supply_ne_endlessRow _ _ _ hfound
    | ok document => exact (loads_require library hnew hfound).2.suffices

/-- An adventure that was asked for and is not loaded is loaded with what it
requires. -/
theorem exists_loadedFrom {library : Option Library} {a : Adventure} {t : Session}
    (hnew : name ∉ s.names) (h : (require name library).answer s = (.ok a, t)) :
    ∃ new, t = s.extend new ∧ LoadedFrom s (library.or s.library) name new := by
  cases hfound : Library.supply s.disk name (library.or s.library) with
  | error f =>
    have hrequire := answer_require library hnew
    rw [hfound, h] at hrequire
    exact absurd hrequire (by simp)
  | ok document =>
    have hloads := (loads_require library hnew hfound).2
    rw [h] at hloads
    cases hloads with
    | @entered b scenes new halt _ hb hexplored hended hresult =>
      obtain rfl : halt = none := hended
      exact ⟨_, rfl, loadedFrom_of_explored hfound hb hexplored⟩

/-- **What is required is loaded once, depth first.**  Asking for an adventure comes to
an end: a row of requirements is never too long, and rows of any greater length would
change nothing.  Where it succeeds, nothing was loaded if the adventure was, and
otherwise what is loaded from it stands behind the others. -/
theorem require_explores (s : Session) (name : String) (library : Option Library) :
    (((require name library).answer s).1 ≠ .error .endlessRow ∧
      ∀ document, name ∉ s.names →
        Library.supply s.disk name (library.or s.library) = .ok document →
          ∃ size, ∀ length, size ≤ length →
            (loadRow length (library.or s.library) document).answer s =
              (require name library).answer s) ∧
      ∀ a t, (require name library).answer s = (.ok a, t) →
        (name ∈ s.names → t = s) ∧
        (name ∉ s.names →
          ∃ new, t = s.extend new ∧ LoadedFrom s (library.or s.library) name new) := by
  refine ⟨⟨suffices_require name library s, fun document hnew hfound => ?_⟩, fun a t h => ⟨?_, ?_⟩⟩
  · rw [(loads_require library hnew hfound).1]
    exact exists_loadRow_eq (library.or s.library) document s
  · intro hmem
    cases hloaded : s.story.find? name with
    | none => exact absurd hmem (find?_eq_none_iff.1 hloaded)
    | some b =>
      rw [answer_require_of_loaded library hloaded] at h
      exact (Prod.mk.inj h).2.symm
  · exact fun hnew => exists_loadedFrom hnew h

/-- Adventures that require each other, one of them also itself. -/
theorem require_explores_cycle :
    let s : Session := .start {} none {}
    let l : Library := .documents
      [("a", .brief "a" "start" ["b"]), ("b", .brief "b" "start" ["b", "a"])]
    ∃ a t new, (require "a" (some l)).answer s = (.ok a, t) ∧ t = s.extend new ∧
      LoadedFrom s (some l) "a" new ∧ t.names = ["inkspire", "a", "b"] := by
  intro s l
  obtain ⟨hsucceeds, hnames⟩ : ((require "a" (some l)).answer s).1.toOption.isSome = true ∧
      ((require "a" (some l)).answer s).2.names = ["inkspire", "a", "b"] := by
    decide +kernel
  obtain ⟨a, hanswer⟩ := exists_answer_eq_ok hsucceeds
  have hnew : "a" ∉ s.names := by decide +kernel
  obtain ⟨new, ht, hloaded⟩ := ((require_explores s "a" (some l)).2 a _ hanswer).2 hnew
  exact ⟨a, _, new, hanswer, ht, hloaded, hnames⟩

end Request
end Gamebook
