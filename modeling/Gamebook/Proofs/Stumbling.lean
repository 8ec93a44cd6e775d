/-
# Why loading fails

A load that fails has refused a document, or it has come to one that is not supplied:
the document of its own file, or one that a loaded adventure requires
(`Request.Explains`).  A file is not read if it is missing, if its text is no JSON
object, and for three more reasons that are no errors of the disk or of a document: its
path has a NUL character, its document is too deep for the stack of the program, or its
text has a whole number with too many digits (`Library.Stumbles`).  Whatever call loads from
files, it fails with a fault that is reported, or it has asked for such a file
(`LoadCall.stumbles`).

What becomes of a document that has half of a surrogate pair is left open, so all this is
about disks without such documents (`Disk.Paired`).
-/

import Gamebook.Proofs.Calls

namespace Gamebook

/-! ## Reading files -/

/-- Whether a path has a character that no file name has. -/
def Path.hasNul (p : Path) : Bool := p.parts.any fun part => part.toList.contains '\x00'

namespace Disk

variable {disk : Disk} {path : Path}

/-- Walking meets no NUL character. -/
theorem walk_ne_nulCharacter (disk : Disk) (path here : Path) (parts : List String) :
    disk.walk path here parts ≠ .error .nulCharacter := by
  induction parts generalizing here with
  | nil => simp [walk]
  | cons part rest ih =>
    rw [walk]
    split
    · simp
    · simp
    · split
      · split
        · simp
        · exact ih _
      · split
        · simp
        · exact ih _

/-- Only a path with a NUL character is refused for one. -/
theorem hasNul_of_read (h : disk.read path = .error .nulCharacter) : path.hasNul = true := by
  have hcontents : disk.contents path = .error .nulCharacter := by
    rw [read] at h
    cases hcontents : disk.contents path with
    | ok text => simp [hcontents, Except.map] at h
    | error e => simpa [hcontents, Except.map] using h
  rw [contents] at hcontents
  split at hcontents
  · contradiction
  · split at hcontents
    · assumption
    · cases hplace : disk.walk path { path with parts := [] } path.parts with
      | error e =>
        have he : e = .nulCharacter := by simpa [hplace, bind, Except.bind] using hcontents
        exact absurd (he ▸ hplace) (walk_ne_nulCharacter disk path _ _)
      | ok place =>
        simp only [hplace, bind, Except.bind] at hcontents
        split at hcontents <;> simp [pure, Except.pure] at hcontents

end Disk

/-- Whether no document on a disk has half of a surrogate pair. -/
def Disk.Paired (disk : Disk) : Prop :=
  ∀ file ∈ disk.files,
    Json.read (String.ofList (lineFeeds file.2.toList)) ≠ .error .loneSurrogate

/-- Whether a fault before the play has a message of its own. -/
def Fault.isReported : Fault → Bool
  | .document _ | .evaluation _ => true
  | .disk e => e != .nulCharacter
  | .impasse _ | .history _ | .longNumber _ | .loneSurrogate | .tooDeep | .noHome
  | .notObject _ | .endOfInput | .endlessRow => false

namespace Library

variable {disk : Disk} {path : Path} {name : String} {f : Fault}

/-- A file whose document is not read, though neither the disk nor the document is at
fault. -/
inductive Stumbles (disk : Disk) (path : Path) : Fault → Prop
  | nulCharacter (nul : path.hasNul = true) : Stumbles disk path (.disk .nulCharacter)
  | tooDeep {text : String} (read : disk.read path = .ok text) (deep : path ∈ disk.deep) :
      Stumbles disk path .tooDeep
  | longNumber {text : String} {digits : Nat} (read : disk.read path = .ok text)
      (long : Json.read text = .error (.longNumber digits)) :
      Stumbles disk path (.longNumber digits)

/-- What a program stumbles over has no message of its own. -/
theorem Stumbles.isReported_eq_false (h : Stumbles disk path f) : f.isReported = false := by
  cases h <;> rfl

/-- A text that is not read is refused, or it has a number that is too long or half of a
surrogate pair. -/
theorem readText_eq_error {text : String} (h : readText path text = .error f) :
    f.isReported = true ∨
      (∃ digits, Json.read text = .error (.longNumber digits) ∧ f = .longNumber digits) ∨
      Json.read text = .error .loneSurrogate := by
  unfold readText at h
  split at h
  · obtain rfl := Except.error.inj h
    exact .inl rfl
  · rename_i digits hlong
    exact .inr (.inl ⟨digits, hlong, (Except.error.inj h).symm⟩)
  · rename_i hlone
    exact .inr (.inr hlone)
  · contradiction
  · obtain rfl := Except.error.inj h
    exact .inl rfl

/-- A document that is not read is refused or missing, or the file stumbles. -/
theorem stumbles_of_readDocument (hpaired : disk.Paired) (h : readDocument disk path = .error f) :
    f.isReported = true ∨ Stumbles disk path f := by
  unfold readDocument at h
  split at h
  · rename_i e hread
    obtain rfl := Except.error.inj h
    by_cases he : e = .nulCharacter
    · subst he
      exact .inr (.nulCharacter (Disk.hasNul_of_read hread))
    · exact .inl (bne_iff_ne.2 he)
  · rename_i text hread
    split at h
    · rename_i hdeep
      obtain rfl := Except.error.inj h
      exact .inr (.tooDeep hread (List.contains_iff_mem.1 hdeep))
    · obtain hf | ⟨digits, hlong, rfl⟩ | hlone := readText_eq_error h
      · exact .inl hf
      · exact .inr (.longNumber hread hlong)
      · obtain ⟨file, hfile, rfl⟩ := Disk.exists_of_read hread
        exact absurd hlone (hpaired file hfile)

/-- A library that finds an object supplies it, or refuses it. -/
theorem isReported_of_fetch {l : Library} {document : Json}
    (hfind : l.find disk name = .ok document) (hobject : document.members?.isSome = true)
    (h : l.fetch disk name = .error f) : f.isReported = true := by
  cases document with
  | object members =>
    simp only [fetch, hfind, bind, Except.bind] at h
    split at h
    · split at h
      · contradiction
      · obtain rfl := Except.error.inj h
        rfl
    · obtain rfl := Except.error.inj h
      rfl
  | null | bool _ | int _ | float _ | string _ | array _ => contradiction

/-- Every document in a file is an object, and so is every bundled one. -/
theorem isSome_members_of_find {l : Library} (hfiles : ∀ ds, l ≠ .documents ds) {document : Json}
    (h : l.find disk name = .ok document) : document.members?.isSome = true := by
  have hmem := mem_holdings_of_find h
  cases l with
  | documents ds => exact absurd rfl (hfiles ds)
  | bundled =>
    have hbundled : ∀ d ∈ Bundled.documents.map (·.2), d.members?.isSome = true := by
      decide +kernel
    rw [holdings] at hmem
    exact hbundled document hmem
  | directory path =>
    obtain ⟨file, -, hobject⟩ := List.mem_filterMap.1 hmem
    unfold objectIn? at hobject
    split at hobject
    · obtain rfl := Option.some.inj hobject
      rfl
    · contradiction

/-- **What is looked for in a directory is found, refused or missing, or its file
stumbles.** -/
theorem stumbles_of_fetch {l : Library} (hpaired : disk.Paired)
    (hfiles : ∀ ds, l ≠ .documents ds) (h : l.fetch disk name = .error f) : f.isReported = true ∨
      ∃ directory, l = .directory directory ∧ Stumbles disk (fileOf directory name) f := by
  cases hfind : l.find disk name with
  | ok document => exact .inl (isReported_of_fetch hfind (isSome_members_of_find hfiles hfind) h)
  | error f' =>
    obtain rfl : f' = f := by simpa [fetch, hfind, bind, Except.bind] using h
    cases l with
    | documents ds => exact absurd rfl (hfiles ds)
    | bundled =>
      simp only [find] at hfind
      split at hfind
      · contradiction
      · obtain rfl := Except.error.inj hfind
        exact .inl rfl
    | directory path =>
      simp only [find] at hfind
      split at hfind
      · obtain rfl := Except.error.inj hfind
        exact .inl rfl
      · exact (stumbles_of_readDocument hpaired hfind).imp_right fun h => ⟨path, rfl, h⟩

end Library

/-! ## Loading -/

namespace Session

/-- Whether a session goes on from another one, with what was loaded there. -/
structure Continues (s t : Session) : Prop where
  library : t.library = s.library
  disk : t.disk = s.disk
  adventures : s.story.adventures ⊆ t.story.adventures

/-- Whether a name is one of some names, or a loaded adventure requires it. -/
def AsksFor (s : Session) (names : List String) (name : String) : Prop :=
  name ∈ names ∨ ∃ b ∈ s.story.adventures, name ∈ b.requires

variable {s t u : Session}

/-- A session goes on from itself. -/
theorem Continues.refl (s : Session) : s.Continues s := ⟨rfl, rfl, List.Subset.refl _⟩

/-- A session goes on from whatever the one that it goes on from goes on from. -/
theorem Continues.trans (h : s.Continues t) (h' : t.Continues u) : s.Continues u :=
  ⟨h'.library.trans h.library, h'.disk.trans h.disk,
    List.Subset.trans h.adventures h'.adventures⟩

/-- A session goes on with adventures behind its own. -/
theorem continues_extend (s : Session) (new : List (Adventure × List Scene)) :
    s.Continues (s.extend new) := ⟨rfl, rfl, List.subset_append_left ..⟩

/-- A session goes on with scenes that no adventure has. -/
theorem continues_withStray (s : Session) (scenes : List Scene) :
    s.Continues (s.withStray scenes) := ⟨rfl, rfl, List.Subset.refl _⟩

end Session

namespace Request

variable {α β : Type} {s t : Session} {library lib : Option Library} {names more : List String}

/-- Why a load fails that asks for some names: a document is refused, or one is not
supplied under a name that is asked for.  That a row becomes too long never happens to
a whole load. -/
structure Explains (lib : Option Library) (s : Session) (names : List String)
    (answered : Except Fault α × Session) : Prop where
  continues : s.Continues answered.2
  cause : ∀ f, answered.1 = .error f → f = .endlessRow ∨ (∃ d, f = .document d) ∨
    ∃ name, Library.supply s.disk name lib = .error f ∧ answered.2.AsksFor names name

namespace Explains

/-- A load that goes through has nothing to explain. -/
theorem ok (a : α) (h : s.Continues t) : Explains lib s names (.ok a, t) :=
  ⟨h, fun _ hf => absurd hf (by simp)⟩

/-- A document that is refused explains that a load fails. -/
theorem document {d : Diagnostic} (h : s.Continues t) :
    Explains lib s names ((.error (.document d), t) : Except Fault α × Session) :=
  ⟨h, fun _ hf => .inr (.inl ⟨d, (Except.error.inj hf).symm⟩)⟩

/-- What asks for names that are asked for anyway. -/
theorem absorb {answered : Except Fault α × Session} (h : Explains lib s more answered)
    (hmore : ∀ n ∈ more, answered.2.AsksFor names n) : Explains lib s names answered := by
  refine ⟨h.continues, fun f hf => (h.cause f hf).imp_right (.imp_right ?_)⟩
  rintro ⟨name, hsupply, hasks⟩
  exact ⟨name, hsupply, hasks.elim (hmore name) .inr⟩

/-- A load is explained as well if nothing becomes of its answer. -/
theorem discard {x : Request α} (h : Explains lib s names (x.answer s)) :
    Explains lib s names ((discard x).answer s) := by
  rw [answer_discard]
  refine ⟨h.continues, fun f hf => h.cause f ?_⟩
  generalize x.answer s = answered at hf
  obtain ⟨f' | a, t⟩ := answered
  · exact congrArg _ (Except.error.inj hf)
  · contradiction

/-- What goes on with the result of a load is explained with it. -/
theorem bind {x : Request α} {g : α → Request β} (hx : Explains lib s names (x.answer s))
    (hg : ∀ a t, x.answer s = (.ok a, t) → Explains lib t names ((g a).answer t)) :
    Explains lib s names ((x >>= g).answer s) := by
  rcases hanswer : x.answer s with ⟨f | a, t⟩
  · rw [answer_bind_of_error hanswer]
    rw [hanswer] at hx
    exact ⟨hx.continues, fun f' hf => hx.cause f' (congrArg _ (Except.error.inj hf))⟩
  · rw [answer_bind_of_ok hanswer]
    rw [hanswer] at hx
    obtain ⟨hcontinues, hcause⟩ := hg a t hanswer
    refine ⟨hx.continues.trans hcontinues, fun f hf => ?_⟩
    rw [← hx.continues.disk]
    exact hcause f hf

end Explains

/-- A document is introduced or refused. -/
theorem explains_introduce (document : Json) :
    Explains lib s [] ((introduce document).answer s) := by
  rcases introduce_cases document s with ⟨d, hanswer, -⟩ | ⟨a, scenes, -, hanswer⟩ |
    ⟨a, scenes, -, -, -, -, hanswer⟩ <;> rw [hanswer]
  · exact .document (.refl s)
  · exact .ok a (s.continues_extend _)
  · exact .document (s.continues_withStray scenes)

/-- An adventure that is put behind the others is loaded then. -/
theorem mem_of_introduce {document : Json} {a : Adventure}
    (h : (introduce document).answer s = (.ok a, t)) : a ∈ t.story.adventures := by
  rcases introduce_cases document s with ⟨d, hanswer, -⟩ | ⟨b, scenes, -, hanswer⟩ |
    ⟨b, scenes, -, -, -, -, hanswer⟩ <;> rw [hanswer] at h
  · simp at h
  · obtain ⟨hb, rfl⟩ := Prod.mk.inj h
    obtain rfl := Except.ok.inj hb
    exact List.mem_append_right _ (List.mem_singleton_self _)
  · simp [taken] at h

/-- Whether loading in rows of at most the given length is explained. -/
def ExplainsRow (length : Nat) : Prop :=
  ∀ (library lib : Option Library) (document : Json) (s : Session), library.or s.library = lib →
    Explains lib s [] ((loadRow length library document).answer s)

/-- Loading what has one name is explained by that name, if rows of the length are explained. -/
theorem explains_loadOne {length : Nat} {name : String} (hrow : ExplainsRow length)
    (hlib : library.or s.library = lib) :
    Explains lib s [name] ((loadOne length library name).answer s) := by
  by_cases hmem : name ∈ s.names
  · rw [answer_loadOne_of_loaded hmem]
    exact .ok () (.refl s)
  · rw [answer_loadOne hmem hlib]
    cases hfound : Library.supply s.disk name lib with
    | error f =>
      refine ⟨.refl s, fun f' hf => .inr (.inr ⟨name, ?_, .inl (List.mem_singleton_self name)⟩)⟩
      rw [hfound, Except.error.inj hf]
    | ok document =>
      have hlib' : lib.or s.library = lib := hlib ▸ Library.or_or_self library s.library
      exact (hrow lib lib document s hlib').discard.absorb nofun

/-- Loading what has some names is explained by one of them, if rows of the length are explained. -/
theorem explains_loadAll {length : Nat} (hrow : ExplainsRow length)
    (hlib : library.or s.library = lib) :
    Explains lib s names ((loadAll length library names).answer s) := by
  induction names generalizing s with
  | nil => exact .ok () (.refl s)
  | cons name names ih =>
    have hone : Explains lib s [name] ((loadOne length library name).answer s) :=
      explains_loadOne hrow hlib
    rw [loadAll_cons]
    refine (hone.absorb fun n hn => .inl ?_).bind fun u t hanswer => ?_
    · exact List.mem_singleton.1 hn ▸ List.mem_cons_self ..
    · rw [hanswer] at hone
      exact (ih (hone.continues.library ▸ hlib)).absorb fun n hn => .inl (List.mem_cons_of_mem _ hn)

/-- Rows of every length are explained, a row being as many rows of what it requires, each shorter
by one. -/
theorem explains_loadRow (length : Nat) : ExplainsRow length := by
  induction length with
  | zero =>
    exact fun library lib document s _ => ⟨.refl s, fun f hf => .inl (Except.error.inj hf).symm⟩
  | succ length ih =>
    intro library lib document s hlib
    have hintroduce : Explains lib s [] ((introduce document).answer s) :=
      explains_introduce document
    rw [loadRow_succ]
    refine hintroduce.bind fun a t hanswer => ?_
    rw [hanswer] at hintroduce
    have hall : Explains lib t a.requires ((loadAll length library a.requires).answer t) :=
      explains_loadAll ih (hintroduce.continues.library ▸ hlib)
    -- what the adventure requires is asked for since it stays loaded
    have hmem := mem_of_introduce hanswer
    refine Explains.bind (hall.absorb fun n hn => .inr ⟨a, hall.continues.adventures hmem, hn⟩) ?_
    exact fun _ u _ => .ok a (.refl u)

/-- **A load fails at a document that is refused, or not supplied.**  It looks for no
other ones than loaded adventures require. -/
theorem explains_load (hlib : library.or s.library = lib) {document : Json} {f : Fault}
    (h : (load document library).answer s = (.error f, t)) : t.library = s.library ∧
      ((∃ d, f = .document d) ∨ ∃ b ∈ t.story.adventures, ∃ name ∈ b.requires,
        Library.supply s.disk name lib = .error f) := by
  obtain ⟨size, hsize⟩ := exists_loadRow_eq library document s
  have hexplains := explains_loadRow size library lib document s hlib
  have hsuffices := (loads_load hlib document).suffices
  rw [hsize size (Nat.le_refl size), h] at hexplains
  rw [h] at hsuffices
  refine ⟨hexplains.continues.library, ?_⟩
  obtain rfl | hrefused | ⟨name, hsupply, hnone | ⟨b, hb, hname⟩⟩ := hexplains.cause f rfl
  · exact absurd rfl hsuffices
  · exact .inl hrefused
  · contradiction
  · exact .inr ⟨b, hb, name, hname, hsupply⟩

end Request

namespace LoadCall

variable {c : LoadCall} {s t : Session} {f : Fault}

/-- The files that a call asks for, by the session that it leaves: its own, that of the
adventure that it names, and those of what the loaded adventures require. -/
inductive Asks (c : LoadCall) (t : Session) : Path → Prop
  | file {path : Path} (call : c = .file path) : Asks c t path
  | named {name : String} {library : Option Library} {directory : Path}
      (call : c = .require name library) (within : c.library? t = some (.directory directory)) :
      Asks c t (Library.fileOf directory name)
  | required {b : Adventure} {name : String} {directory : Path} (loaded : b ∈ t.story.adventures)
      (requires : name ∈ b.requires) (within : c.library? t = some (.directory directory)) :
      Asks c t (Library.fileOf directory name)

/-- Where a call looks documents up depends on the library of the session and on nothing else of
it. -/
theorem library?_congr (c : LoadCall) (h : t.library = s.library) :
    c.library? t = c.library? s := by
  cases c <;> simp only [library?, h]

/-- A library of files, or none, supplies a document or stumbles. -/
theorem stumbles_of_supply {name : String} {lib : Option Library} (hpaired : s.disk.Paired)
    (hfiles : ∀ ds, lib ≠ some (.documents ds))
    (h : Library.supply s.disk name lib = .error f) : f.isReported = true ∨
      ∃ directory, lib = some (.directory directory) ∧
        Library.Stumbles s.disk (Library.fileOf directory name) f := by
  cases lib with
  | none =>
    obtain rfl := Except.error.inj h
    exact .inl rfl
  | some l =>
    have hl ds (hl : l = .documents ds) : False := hfiles ds (congrArg _ hl)
    refine (Library.stumbles_of_fetch hpaired hl h).imp_right ?_
    rintro ⟨directory, rfl, hstumbles⟩
    exact ⟨directory, rfl, hstumbles⟩

/-- **A call that loads from files fails with a fault that is reported, or a file that it
asks for stumbles.** -/
theorem stumbles (hpaired : s.disk.Paired) (hfiles : ∀ ds, c.library? s ≠ some (.documents ds))
    (h : c.request.answer s = (.error f, t)) : f.isReported = true ∨
      ∃ path, c.Asks t path ∧ Library.Stumbles s.disk path f := by
  rcases hfound : c.found? s with _ | f' | document
  · obtain ⟨a, ha⟩ := answer_of_loaded hfound
    simp [ha] at h
  · obtain ⟨rfl, rfl⟩ : f' = f ∧ s = t := by simpa [answer_of_notFound hfound] using h
    cases c with
    | given => exact absurd (Option.some.inj hfound) (by simp)
    | file path =>
      have hread := Option.some.inj hfound
      refine (Library.stumbles_of_readDocument hpaired hread).imp_right fun h => ?_
      exact ⟨path, .file rfl, h⟩
    | require name library =>
      rw [found?, Option.ite_none_left_eq_some] at hfound
      refine (stumbles_of_supply hpaired hfiles (Option.some.inj hfound.2)).imp_right ?_
      rintro ⟨directory, hwithin, h⟩
      exact ⟨_, .named rfl hwithin, h⟩
  · obtain ⟨library, hlib, hanswer⟩ := answer_of_found hfound
    obtain ⟨hlibrary, ⟨d, rfl⟩ | ⟨b, hb, name, hname, hsupply⟩⟩ :=
      Request.explains_load hlib (hanswer.symm.trans h)
    · exact .inl rfl
    · refine (stumbles_of_supply hpaired hfiles hsupply).imp_right ?_
      rintro ⟨directory, hwithin, h⟩
      exact ⟨_, .required hb hname ((c.library?_congr hlibrary).trans hwithin), h⟩

end LoadCall
end Gamebook
