/-
# What libraries hold

A library holds finitely many documents (`Library.holdings`, no more than its
size), and a document is found only under the name that it declares.  So the names
under which documents are found are finitely many as well, whether the library is a
list, the bundled adventures or a directory.
-/

import Gamebook.Play.Session
import Gamebook.Proofs.Assembling

namespace Gamebook

/-- The name that a document declares. -/
def Json.declaredName? (document : Json) : Option String := (document.get? "name").bind string?

/-- What is read from a disk is what one of its files holds. -/
theorem Disk.exists_of_contents {disk : Disk} {path : Path} {text : String}
    (h : disk.contents path = .ok text) : ∃ file ∈ disk.files, file.2 = text := by
  unfold contents at h
  split at h
  · rename_i found hfound
    obtain rfl := Except.ok.inj h
    exact Bindings.exists_mem_of_lookup hfound
  · split at h
    · exact absurd h (by simp)
    · obtain ⟨place, -, h⟩ := Grammar.exists_of_bind_eq_ok h
      cases hfile : disk.files.lookup place with
      | none =>
        simp only [node, hfile] at h
        split at h <;> first | exact absurd h (by simp) | skip
        rename_i hnode
        split at hnode <;> exact absurd hnode (by simp)
      | some found =>
        simp only [node, hfile] at h
        obtain rfl := Except.ok.inj h
        exact Bindings.exists_mem_of_lookup hfile

/-- What is read from a disk is what one of its files holds, with its line ends made line
feeds. -/
theorem Disk.exists_of_read {disk : Disk} {path : Path} {text : String}
    (h : disk.read path = .ok text) :
    ∃ file ∈ disk.files, String.ofList (lineFeeds file.2.toList) = text := by
  rw [read] at h
  cases hcontents : disk.contents path with
  | error e => simp [hcontents, Except.map] at h
  | ok content =>
    obtain rfl := by simpa [hcontents, Except.map] using h
    obtain ⟨file, hfile, rfl⟩ := exists_of_contents hcontents
    exact ⟨file, hfile, rfl⟩

namespace Library

/-- A document that is read from a file is read from the text of the file. -/
theorem exists_of_readDocument {disk : Disk} {path : Path} {document : Json}
    (h : readDocument disk path = .ok document) :
    ∃ text, disk.read path = .ok text ∧ readText path text = .ok document := by
  unfold readDocument at h
  split at h
  · contradiction
  · rename_i text hread
    split at h
    · contradiction
    · exact ⟨text, hread, h⟩

/-- The object that a text writes, if it writes one. -/
def objectIn? (text : String) : Option Json :=
  match Json.read text with
  | .ok (.object members) => some (.object members)
  | _ => none

/-- What is read from a text is an object that is written there. -/
theorem objectIn?_of_readText {path : Path} {text : String} {document : Json}
    (h : readText path text = .ok document) : objectIn? text = some document := by
  unfold readText at h
  unfold objectIn?
  split at h
  · contradiction
  · contradiction
  · contradiction
  · rename_i members hread
    obtain rfl := Except.ok.inj h
    rw [hread]
  · contradiction

/-- The documents that a library can hold. -/
def holdings (disk : Disk) : Library → List Json
  | documents ds => ds.map (·.2)
  | bundled => Bundled.documents.map (·.2)
  | directory _ =>
    disk.files.filterMap fun file => objectIn? (String.ofList (Disk.lineFeeds file.2.toList))

/-- A library holds no more documents than its size says. -/
theorem length_holdings_le (disk : Disk) (l : Library) :
    (l.holdings disk).length ≤ l.size disk := by
  cases l with
  | documents ds => simp [holdings, size]
  | bundled => simp [holdings, size]
  | directory path => exact List.length_filterMap_le ..

/-- A library finds what it holds. -/
theorem mem_holdings_of_find {disk : Disk} {name : String} {l : Library} {document : Json}
    (h : l.find disk name = .ok document) : document ∈ l.holdings disk := by
  cases l with
  | documents ds =>
    simp only [find] at h
    split at h
    · rename_i found hfound
      obtain rfl := Except.ok.inj h
      exact List.mem_map.2 (Bindings.exists_mem_of_lookup hfound)
    · exact absurd h (by simp [refuse])
  | bundled =>
    simp only [find] at h
    split at h
    · rename_i found hfound
      obtain rfl := Except.ok.inj h
      exact List.mem_map.2 (Bindings.exists_mem_of_lookup hfound)
    · exact absurd h (by simp)
  | directory path =>
    replace h : readDocument disk (fileOf path name) = .ok document := by
      simp only [find] at h
      split at h
      · exact absurd h (by simp [refuse])
      · exact h
    obtain ⟨text, hread, hdocument⟩ := exists_of_readDocument h
    obtain ⟨file, hfile, rfl⟩ := Disk.exists_of_read hread
    exact List.mem_filterMap.2 ⟨file, hfile, objectIn?_of_readText hdocument⟩

/-- A document is found under the name that it declares. -/
theorem get?_name_of_fetch {disk : Disk} {name : String} {l : Library} {document : Json}
    (h : l.fetch disk name = .ok document) :
    l.find disk name = .ok document ∧ document.get? "name" = some (.string name) := by
  obtain ⟨found, hfound, h⟩ := Grammar.exists_of_bind_eq_ok h
  cases found with
  | object members =>
    cases hname : members.lookup "name" with
    | none => exact absurd h (by simp [hname, refuse])
    | some declared =>
      cases declared with
      | string s =>
        by_cases hs : s = name
        · subst hs
          obtain rfl : document = .object members := by
            simpa [hname, pure, Except.pure, eq_comm] using h
          exact ⟨hfound, hname⟩
        · exact absurd h (by simp [hname, hs, refuse])
      | null | bool _ | int _ | float _ | array _ | object _ =>
        exact absurd h (by simp [hname, refuse])
  | null | bool _ | int _ | float _ | string _ | array _ => exact absurd h (by simp)

/-- What is looked for in a library is looked for in the same one again. -/
theorem or_or_self (library own : Option Library) :
    (library.or own).or own = library.or own := by
  rw [Option.or_assoc, Option.or_self]

/-- The document that is found under a name; none without a library. -/
def supply (disk : Disk) (name : String) : Option Library → Except Fault Json
  | none => refuse (.noSource name)
  | some l => l.fetch disk name

/-- Where a document is looked up, no row is too long: rows are counted by what is loaded. -/
theorem find_ne_endlessRow (disk : Disk) (name : String) (l : Library) :
    l.find disk name ≠ .error .endlessRow := by
  cases l with
  | documents ds =>
    simp only [find]
    split <;> simp [refuse]
  | bundled =>
    simp only [find]
    split <;> simp
  | directory path =>
    have hread : readDocument disk (fileOf path name) ≠ .error .endlessRow := by
      unfold readDocument
      split
      · simp
      · split
        · simp
        · unfold readText
          split <;> simp [refuse]
    simp only [find]
    split
    · simp [refuse]
    · exact hread

/-- Looking for a document comes to an end. -/
theorem supply_ne_endlessRow (disk : Disk) (name : String) (library : Option Library) :
    supply disk name library ≠ .error .endlessRow := by
  cases library with
  | none => simp [supply, refuse]
  | some l =>
    rw [supply, fetch]
    cases hfind : l.find disk name with
    | error f =>
      rintro ⟨⟩
      exact find_ne_endlessRow disk name l hfind
    | ok document =>
      simp only [bind, Except.bind]
      split
      · split
        · split <;> simp [refuse, pure, Except.pure]
        · simp [refuse]
      · simp

/-- What a document that was looked for requires. -/
def requirementsOf : Except Fault Json → List String
  | .ok document => document.requirements
  | .error _ => []

/-- The adventures that an adventure requires, by its name. -/
def requires (library : Option Library) (disk : Disk) (name : String) : List String :=
  requirementsOf (supply disk name library)

/-- A document that is supplied under a name declares that name. -/
theorem get?_name_of_supply {disk : Disk} {name : String} {library : Option Library}
    {document : Json} (h : supply disk name library = .ok document) :
    document.get? "name" = some (.string name) := by
  cases library with
  | none => exact absurd h (by simp [supply, refuse])
  | some l => exact (get?_name_of_fetch h).2

/-- The names under which documents are found are among the names that those in
the library declare. -/
theorem mem_of_supply {disk : Disk} {name : String} {l : Library} {document : Json}
    (h : supply disk name (some l) = .ok document) :
    name ∈ (l.holdings disk).filterMap Json.declaredName? := by
  obtain ⟨hfind, hname⟩ := get?_name_of_fetch h
  refine List.mem_filterMap.2 ⟨document, mem_holdings_of_find hfind, ?_⟩
  rw [Json.declaredName?, hname]
  rfl

end Library
end Gamebook
