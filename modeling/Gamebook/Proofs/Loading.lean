/-
# Loading an adventure

Loading a document puts its adventure behind the others and then explores what it
requires, depth first (`DepthFirst`), the nodes being names of adventures, those
that are loaded counting as visited.  A requirement that cannot be loaded ends the
exploration early; what was found before stays loaded (`Request.Loads`).

Each adventure in a row of adventures that wait for their requirements is another
one of the library, so the row is never longer than the library has documents
(`Session.Room`).
-/

import Gamebook.Proofs.Exploring
import Gamebook.Proofs.Libraries
import Gamebook.Proofs.Requests

namespace Gamebook

variable {s t : Session} {library lib : Option Library}

/-- Adventures of a library, with their scenes, that stand behind those of a session
in the order in which they were admitted. -/
inductive Session.Grows (library : Option Library) :
    Session → List (Adventure × List Scene) → Prop
  | nil {s : Session} : Grows library s []
  | cons {s : Session} {document : Json} {a : Adventure} {scenes : List Scene}
      {new : List (Adventure × List Scene)}
      (found : Library.supply s.disk a.name library = .ok document)
      (admitted : s.Admits document a scenes) (rest : Grows library (s.extend [(a, scenes)]) new) :
      Grows library s ((a, scenes) :: new)

namespace Session

/-- A session that grows by some adventures and then by others grows by all of them. -/
theorem Grows.append {xs ys : List (Adventure × List Scene)} (hxs : s.Grows library xs)
    (hys : (s.extend xs).Grows library ys) : s.Grows library (xs ++ ys) := by
  induction hxs with
  | nil => simpa using hys
  | cons found admitted rest ih =>
    refine .cons found admitted (ih ?_)
    rwa [← extend_cons]

/-- No more adventures than some number are found in a library and not loaded. -/
def Room (s : Session) (library : Option Library) (size : Nat) : Prop :=
  ∃ left : List String, left.length ≤ size ∧ ∀ name document,
    Library.supply s.disk name library = .ok document → name ∉ s.names → name ∈ left

/-- A library has no more adventures than documents. -/
theorem room_size (s : Session) (l : Library) : s.Room (some l) (l.size s.disk) := by
  refine ⟨(l.holdings s.disk).filterMap Json.declaredName?, ?_, ?_⟩
  · exact Nat.le_trans (List.length_filterMap_le ..) (l.length_holdings_le s.disk)
  · exact fun name document h _ => Library.mem_of_supply h

/-- Without a library nothing more is found. -/
theorem room_none (s : Session) : s.Room none 0 := by
  refine ⟨[], Nat.le_refl 0, fun name document h => ?_⟩
  exact absurd h (by simp [Library.supply, Library.refuse])

/-- Loading leaves room. -/
theorem Room.extend {size : Nat} (h : s.Room library size) (new : List (Adventure × List Scene)) :
    (s.extend new).Room library size := by
  obtain ⟨left, hlen, hleft⟩ := h
  refine ⟨left, hlen, fun name document hfound hnew => hleft name document hfound ?_⟩
  exact fun hmem => hnew (by simp [hmem])

/-- Loading an adventure of the library takes up room. -/
theorem Room.enter {size : Nat} {name : String} {document : Json} (h : s.Room library size)
    (hfound : Library.supply s.disk name library = .ok document) (hnew : name ∉ s.names) :
    ∃ k, size = k + 1 ∧ ∀ (a : Adventure) (scenes : List Scene), a.name = name →
      (s.extend [(a, scenes)]).Room library k := by
  obtain ⟨left, hlen, hleft⟩ := h
  have hmem : name ∈ left := hleft name document hfound hnew
  have hpos : 0 < left.length := List.length_pos_of_mem hmem
  refine ⟨size - 1, by omega, fun a scenes ha => ?_⟩
  refine ⟨left.erase name, ?_, fun other document' hother hnot => ?_⟩
  · rw [List.length_erase_of_mem hmem]
    omega
  · simp only [names_extend, List.map_cons, List.map_nil, List.mem_append, List.mem_singleton,
      not_or, ha] at hnot
    exact (List.mem_erase_of_ne hnot.2).2 (hleft other document' hother hnot.1)

/-- An adventure cannot be loaded from a library: where its document is found, the
session does not admit it. -/
structure Refuses (s : Session) (library : Option Library) (name : String) : Prop where
  new : name ∉ s.names
  not_admitted : ∀ document a scenes, Library.supply s.disk name library = .ok document →
    ¬s.Admits document a scenes

end Session

namespace Request

/-- Load an adventure from a library, unless it is loaded, and what it requires, in
rows of at most the given length. -/
def loadOne (length : Nat) (library : Option Library) (name : String) : Request Unit := do
  if !(← get).isLoaded name then
    let library := library.or (← get).library
    let required ← fetch name library
    discard <| loadRow length library required

/-- Load adventures in order. -/
def loadAll (length : Nat) (library : Option Library) (names : List String) : Request Unit :=
  names.forM (loadOne length library)

/-- A row of documents begins with one that is introduced, and goes on with what that requires. -/
theorem loadRow_succ (length : Nat) (library : Option Library) (document : Json) :
    loadRow (length + 1) library document = do
      let a ← introduce document
      loadAll length library a.requires
      return a := rfl

/-- Fetching a document answers what the library supplies and leaves the session as it is. -/
theorem answer_fetch (name : String) (library : Option Library) (s : Session) :
    (fetch name library).answer s = (Library.supply s.disk name library, s) := by
  cases library <;> rfl

variable {length : Nat} {name : String} {names : List String}

/-- What is loaded is not loaded again. -/
theorem answer_loadOne_of_loaded (h : name ∈ s.names) :
    (loadOne length library name).answer s = (.ok (), s) := by
  rw [loadOne, answer_bind, answer_get]
  simp [Session.isLoaded_iff.2 h]

/-- What is not loaded is fetched and loaded in a row of its own. -/
theorem answer_loadOne (h : name ∉ s.names) (hlib : library.or s.library = lib) :
    (loadOne length library name).answer s =
      match Library.supply s.disk name lib with
      | .ok document => (discard (loadRow length lib document)).answer s
      | .error f => (.error f, s) := by
  have hloaded : s.isLoaded name = false := by
    simpa using fun h' => h (Session.isLoaded_iff.1 h')
  rw [loadOne, answer_bind, answer_get]
  simp only [hloaded, Bool.not_false, if_true, answer_bind, answer_get, answer_fetch, hlib]
  cases Library.supply s.disk name lib <;> rfl

/-- What has the first name is loaded before the others. -/
theorem loadAll_cons (length : Nat) (library : Option Library) (name : String)
    (names : List String) : loadAll length library (name :: names) =
      (loadOne length library name >>= fun _ => loadAll length library names) := rfl

/-- Whether a result is the one of an exploration that went through, or that ended
early at an adventure, with a fault.  It is never the fault that the row became too
long. -/
def Ended {α : Type} : Except Fault α → Option String → Prop
  | .ok _, halt => halt = none
  | .error f, halt => halt.isSome = true ∧ f ≠ .endlessRow

/-- Some loaded adventures are what an exploration of a library found, which ended
early, if it did, at an adventure that cannot be loaded after them. -/
structure Explored (lib : Option Library) (s : Session) (visited names : List String)
    (new : List (Adventure × List Scene)) (halt : Option String) : Prop where
  grows : s.Grows lib new
  depthFirst : DepthFirst (Library.requires lib s.disk) visited names (new.map (·.1.name)) halt
  refused : ∀ name ∈ halt, (s.extend new).Refuses lib name

namespace Explored

variable {document : Json} {a : Adventure} {scenes : List Scene} {halt : Option String}
  {new more : List (Adventure × List Scene)}

/-- What is required is read off the adventure of the document that is found. -/
theorem requires_eq (hfound : Library.supply s.disk a.name lib = .ok document)
    (ha : s.Admits document a scenes) : Library.requires lib s.disk a.name = a.requires := by
  rw [Library.requires, hfound]
  exact ha.compiled.requires_eq.symm

/-- An exploration ends early at an adventure that is refused. -/
theorem refuse (h : s.Refuses lib name) :
    Explored lib s s.names (name :: names) [] (some name) := by
  refine ⟨.nil, .halt h.new, ?_⟩
  rintro _ ⟨⟩
  rwa [s.extend_nil]

/-- An exploration that ends early behind an adventure has found that one. -/
theorem stop {y : String} (hfound : Library.supply s.disk a.name lib = .ok document)
    (ha : s.Admits document a scenes)
    (h : Explored lib (s.extend [(a, scenes)]) (s.names ++ [a.name]) a.requires new (some y)) :
    Explored lib s s.names (a.name :: names) ((a, scenes) :: new) (some y) := by
  refine ⟨.cons hfound ha h.grows, .stop ha.new ?_, ?_⟩
  · rw [requires_eq hfound ha]
    exact h.depthFirst
  · rw [s.extend_cons]
    exact h.refused

/-- An exploration goes on when it went through behind an adventure. -/
theorem enter (hfound : Library.supply s.disk a.name lib = .ok document)
    (ha : s.Admits document a scenes)
    (h : Explored lib (s.extend [(a, scenes)]) (s.names ++ [a.name]) a.requires new none)
    (hmore : Explored lib (s.extend ((a, scenes) :: new)) (s.extend ((a, scenes) :: new)).names
      names more halt) :
    Explored lib s s.names (a.name :: names) ((a, scenes) :: (new ++ more)) halt := by
  have hnames : (s.extend ((a, scenes) :: new)).names =
      s.names ++ a.name :: new.map (·.1.name) := by simp
  refine ⟨.cons hfound ha (h.grows.append ?_), ?_, ?_⟩
  · rw [← Session.extend_cons]
    exact hmore.grows
  · rw [List.map_cons, List.map_append]
    refine .enter ha.new ?_ (hnames ▸ hmore.depthFirst)
    rw [requires_eq hfound ha]
    exact h.depthFirst
  · rw [← List.cons_append, s.extend_append]
    exact hmore.refused

end Explored

/-- Loading adventures in rows of at most the given length explores what they
require, where the library has room for no longer row. -/
def LoadsAll (length : Nat) : Prop :=
  ∀ (library lib : Option Library) (s : Session) (names : List String),
    library.or s.library = lib → s.Room lib length → (∀ n ∈ names, Text.trim n = n) →
      ∃ new halt result, (loadAll length library names).answer s = (result, s.extend new) ∧
        Explored lib s s.names names new halt ∧ Ended result halt

/-- What comes of loading a document in a session: a result and the session after
it. -/
inductive Loads (lib : Option Library) (s : Session) (document : Json) :
    Except Fault Adventure × Session → Prop
  /-- The document is refused and nothing changes. -/
  | refused (d : Diagnostic) (not_admitted : ∀ a scenes, ¬s.Admits document a scenes) :
      Loads lib s document (.error (.document d), s)
  /-- Its adventure stays loaded, and so does what was found behind it. -/
  | entered {a : Adventure} {scenes : List Scene} {new : List (Adventure × List Scene)}
      {halt : Option String} {result : Except Fault Adventure}
      (admitted : s.Admits document a scenes)
      (explored : Explored lib (s.extend [(a, scenes)]) (s.names ++ [a.name]) a.requires new halt)
      (ended : Ended result halt) (loaded : ∀ b, result = .ok b → b = a) :
      Loads lib s document (result, s.extend ((a, scenes) :: new))
  /-- It is refused since its name is taken, which is seen only when its scenes are
  registered, the name being declared with blanks around it. -/
  | strayed {a : Adventure} {scenes : List Scene} (compiled : a.CompiledFrom document scenes)
      (fresh : s.story.registry.Fresh scenes) (old : a.name ∈ s.names)
      (declared : document.get? "name" ≠ some (.string a.name)) :
      Loads lib s document (.error (taken a.name), s.withStray scenes)

/-- **A document is loaded with what it requires, or refused.** -/
theorem loads_loadRow (hall : LoadsAll length) (hlib : library.or s.library = lib)
    (document : Json) (hroom : ∀ a scenes, s.Admits document a scenes →
      (s.extend [(a, scenes)]).Room lib length) :
    Loads lib s document ((loadRow (length + 1) library document).answer s) := by
  rw [loadRow_succ]
  rcases introduce_cases document s with ⟨d, hd, hnot⟩ | ⟨a, scenes, hadmits, ha⟩ |
    ⟨a, scenes, hcompiled, hfresh, hmem, hname, ha⟩
  · rw [answer_bind_of_error hd]
    exact .refused d hnot
  · obtain ⟨new, halt, result, hanswer, hexplored, hended⟩ :=
      hall library lib (s.extend [(a, scenes)]) a.requires hlib (hroom a scenes hadmits)
        fun n hn => hadmits.compiled.trim_of_mem_requires hn
    rw [Session.names_extend] at hexplored
    rw [answer_bind_of_ok ha, answer_bind, hanswer, ← s.extend_cons (a, scenes) new]
    cases result with
    | error f => exact .entered hadmits hexplored hended nofun
    | ok u => exact .entered hadmits hexplored hended fun b hb => (Except.ok.inj hb).symm
  · rw [answer_bind_of_error ha]
    exact .strayed hcompiled hfresh hmem hname

/-- **Loading adventures explores what they require.**  It goes through, or it ends
early at an adventure that cannot be loaded. -/
theorem loadsAll (length : Nat) : LoadsAll length := by
  induction length using Nat.strong_induction_on with
  | _ length ih =>
    intro library lib s names hlib hroom htrim
    induction names generalizing s with
    | nil => exact ⟨[], none, .ok (), by simp [loadAll], ⟨.nil, .done, nofun⟩, rfl⟩
    | cons name names ihnames =>
      rw [loadAll_cons]
      have hrest : ∀ n ∈ names, Text.trim n = n := fun n hn => htrim n (List.mem_cons_of_mem _ hn)
      by_cases hmem : name ∈ s.names
      · obtain ⟨new, halt, result, hanswer, hexplored, hended⟩ := ihnames s hlib hroom hrest
        refine ⟨new, halt, result, ?_, ⟨hexplored.grows, .skip hmem hexplored.depthFirst,
          hexplored.refused⟩, hended⟩
        rw [answer_bind_of_ok (answer_loadOne_of_loaded hmem), hanswer]
      · have hone : (loadOne length library name).answer s = _ := answer_loadOne hmem hlib
        cases hfound : Library.supply s.disk name lib with
        | error f =>
          rw [hfound] at hone
          have hrefused : s.Refuses lib name :=
            ⟨hmem, fun document _ _ h => absurd (hfound.symm.trans h) (by simp)⟩
          refine ⟨[], some name, .error f, ?_, .refuse hrefused, rfl, ?_⟩
          · rw [answer_bind_of_error hone, s.extend_nil]
          · rintro rfl
            exact Library.supply_ne_endlessRow _ _ _ hfound
        | ok document =>
          simp only [hfound, answer_discard] at hone
          have hname := Library.get?_name_of_supply hfound
          have hnamed {a : Adventure} {scenes : List Scene} (ha : a.CompiledFrom document scenes) :
              a.name = name := ha.name_eq hname (htrim name (List.mem_cons_self ..))
          obtain ⟨k, rfl, hroom'⟩ := hroom.enter hfound hmem
          have hlib' : lib.or s.library = lib := hlib ▸ Library.or_or_self library s.library
          have hloads := loads_loadRow (ih k (Nat.lt_succ_self k)) hlib' document
            fun a scenes ha => hroom' a scenes (hnamed ha.compiled)
          generalize (loadRow (k + 1) lib document).answer s = answered at hone hloads
          cases hloads with
          | refused d not_admitted =>
            have hrefused : s.Refuses lib name := by
              refine ⟨hmem, fun document' a scenes h => ?_⟩
              obtain rfl : document = document' := Except.ok.inj (hfound.symm.trans h)
              exact not_admitted a scenes
            refine ⟨[], some name, .error (.document d), ?_, .refuse hrefused, rfl, nofun⟩
            rw [answer_bind_of_error hone, s.extend_nil]
          | strayed hcompiled _ htaken _ => exact absurd (hnamed hcompiled ▸ htaken) hmem
          | @entered a scenes new halt result ha hexplored hended hloaded =>
            obtain rfl := hnamed ha.compiled
            cases result with
            | error f =>
              obtain ⟨y, rfl⟩ := Option.isSome_iff_exists.1 hended.1
              exact ⟨_, some y, .error f, answer_bind_of_error hone, hexplored.stop hfound ha,
                hended⟩
            | ok b =>
              obtain rfl := hended
              obtain ⟨more, halt, result, hanswer, hmore, hended⟩ :=
                ihnames (s.extend ((a, scenes) :: new)) hlib (hroom.extend _) hrest
              refine ⟨_, halt, result, ?_, hexplored.enter hfound ha hmore, hended⟩
              rw [answer_bind_of_ok hone, hanswer, ← Session.extend_append, List.cons_append]

/-- **Loading never gives up.**  Whatever library it uses, a document is loaded with
what it requires or refused, and never is the row of adventures that wait for their
requirements too long. -/
theorem loads_load (hlib : library.or s.library = lib) (document : Json) :
    Loads lib s document ((load document library).answer s) := by
  obtain ⟨size, hsize, hroom⟩ : ∃ size, (rowLength library).answer s = (.ok (size + 1), s) ∧
      s.Room lib size := by
    rw [rowLength, answer_bind_of_ok (answer_get s), hlib]
    cases lib with
    | none => exact ⟨0, rfl, s.room_none⟩
    | some l => exact ⟨l.size s.disk, rfl, s.room_size l⟩
  rw [load, answer_bind_of_ok hsize]
  exact loads_loadRow (loadsAll size) hlib document fun a scenes _ => hroom.extend _

/-! ## The length of rows -/

/-- An answer is not that the row became too long. -/
def Suffices {α : Type} (answered : Except Fault α × Session) : Prop :=
  answered.1 ≠ .error .endlessRow

/-- If a request does not make the row too long with what is behind it, it does not without. -/
theorem suffices_of_bind {α β : Type} {x : Request α} {f : α → Request β}
    (h : Suffices ((x >>= f).answer s)) : Suffices (x.answer s) := by
  intro hx
  obtain ⟨t, ht⟩ : ∃ t, x.answer s = (.error .endlessRow, t) := ⟨_, Prod.ext hx rfl⟩
  exact h (by rw [answer_bind_of_error ht])

/-- Loading some adventures goes as in longer rows, if loading one does. -/
theorem loadAll_succ_eq (hrow : ∀ library document s,
      Suffices ((loadRow length library document).answer s) →
        (loadRow (length + 1) library document).answer s =
          (loadRow length library document).answer s)
    (library : Option Library) (names : List String) (s : Session)
    (h : Suffices ((loadAll length library names).answer s)) :
    (loadAll (length + 1) library names).answer s = (loadAll length library names).answer s := by
  induction names generalizing s with
  | nil => rfl
  | cons name names ih =>
    rw [loadAll_cons] at h
    have hone : (loadOne (length + 1) library name).answer s =
        (loadOne length library name).answer s := by
      have hsuffices := suffices_of_bind h
      by_cases hmem : name ∈ s.names
      · rw [answer_loadOne_of_loaded hmem, answer_loadOne_of_loaded hmem]
      · rw [answer_loadOne hmem rfl] at hsuffices ⊢
        rw [answer_loadOne hmem rfl]
        cases hfound : Library.supply s.disk name (library.or s.library) with
        | error f => rfl
        | ok document =>
          simp only [hfound, answer_discard] at hsuffices ⊢
          rw [hrow _ document s fun hendless => hsuffices (by rw [hendless]; rfl)]
    rw [loadAll_cons, loadAll_cons, answer_bind, answer_bind, hone]
    rcases hanswer : (loadOne length library name).answer s with ⟨f | u, t⟩
    · rfl
    · rw [answer_bind_of_ok hanswer] at h
      exact ih t h

/-- **The length of rows does not matter.**  Longer rows change nothing where a row
was long enough. -/
theorem loadRow_eq_of_le {more : Nat} (hle : length ≤ more) (library : Option Library)
    (document : Json) (s : Session)
    (h : Suffices ((loadRow length library document).answer s)) :
    (loadRow more library document).answer s = (loadRow length library document).answer s := by
  have hsucc (length : Nat) : ∀ library document s,
      Suffices ((loadRow length library document).answer s) →
        (loadRow (length + 1) library document).answer s =
          (loadRow length library document).answer s := by
    induction length with
    | zero => exact fun library document s h => absurd rfl h
    | succ length ih =>
      intro library document s h
      rw [loadRow_succ] at h ⊢
      rw [loadRow_succ, answer_bind, answer_bind]
      rcases hanswer : (introduce document).answer s with ⟨f | a, t⟩
      · rfl
      · rw [answer_bind_of_ok hanswer] at h
        have hall := loadAll_succ_eq ih library a.requires t (suffices_of_bind h)
        simp only [answer_bind, hall]
  induction hle with
  | refl => rfl
  | step hle ih => rw [hsucc _ library document s (by rwa [ih]), ih]

/-- What comes of a load is never that its row is too long. -/
theorem Loads.suffices {document : Json} {answered : Except Fault Adventure × Session}
    (h : Loads lib s document answered) : Suffices answered := by
  cases h with
  | refused d _ => simp [Suffices]
  | strayed _ _ _ _ => simp [Suffices, taken]
  | entered _ _ ended _ =>
    rintro rfl
    exact ended.2 rfl

/-- A document is loaded in a row of any length, from some length on. -/
theorem exists_loadRow_eq (library : Option Library) (document : Json) (s : Session) :
    ∃ size, ∀ length, size ≤ length →
      (loadRow length library document).answer s = (load document library).answer s := by
  obtain ⟨size, hsize⟩ : ∃ size, (rowLength library).answer s = (.ok size, s) := by
    rw [rowLength, answer_bind_of_ok (answer_get s)]
    cases library.or s.library with
    | none => exact ⟨1, rfl⟩
    | some l => exact ⟨l.size s.disk + 1, rfl⟩
  have hload : (load document library).answer s = (loadRow size library document).answer s := by
    rw [load, answer_bind_of_ok hsize]
  refine ⟨size, fun length hle => ?_⟩
  rw [hload]
  exact loadRow_eq_of_le hle library document s (hload ▸ (loads_load rfl document).suffices)

end Request
end Gamebook
