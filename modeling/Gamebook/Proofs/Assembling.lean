/-
# Assembled documents

What is known of an adventure that a document was compiled to
(`Adventure.CompiledFrom`), and what assembling adds to a registry: all scenes of
the adventure, none of which was registered before, or nothing.

A document declares its name, and the adventures that it requires, with or
without blanks around them; the adventure has them without.
-/

import Gamebook.Proofs.Compiling
import Gamebook.Proofs.Validity

namespace Gamebook

/-- Whether no blanks stand around the name that a document declares. -/
def Json.IsPlain (document : Json) : Prop :=
  ∀ raw, document.get? "name" = some (.string raw) → Text.trim raw = raw

/-- The adventures that a document requires; none if it is not valid.  The control
scenes are there without being required. -/
def Json.requirements (document : Json) : List String :=
  match AdventureRecord.validate document with
  | .ok r => r.requires.filter (· != Control.scope)
  | .error _ => []

namespace Adventure

/-- A record is compiled to an adventure with scenes. -/
def CompiledFromRecord (record : AdventureRecord) (a : Adventure) (scenes : List Scene) : Prop :=
  ∃ c, (compile record).run { adventure := record.name } = .ok ((a, scenes), c)

/-- A document is compiled to an adventure with scenes. -/
def CompiledFrom (document : Json) (a : Adventure) (scenes : List Scene) : Prop :=
  ∃ r c, AdventureRecord.validate document = .ok r ∧
    (compile r).run { adventure := r.name } = .ok ((a, scenes), c)

variable {document : Json} {record : AdventureRecord} {a : Adventure} {scenes : List Scene}

/-- **A record is compiled part by part.** -/
theorem compiledFromRecord_iff : a.CompiledFromRecord record scenes ↔ a.Compiles record scenes := by
  constructor
  · rintro ⟨c, hc⟩
    exact yields_compiles record _ _ _ hc
  · intro h
    exact h.gives _

namespace CompiledFrom

/-- A document is compiled to what its record is compiled to. -/
theorem exists_compiles (h : CompiledFrom document a scenes) :
    ∃ r, AdventureRecord.validate document = .ok r ∧ a.Compiles r scenes := by
  obtain ⟨r, c, hr, hc⟩ := h
  exact ⟨r, hr, compiledFromRecord_iff.1 ⟨c, hc⟩⟩

/-- A document is compiled to one adventure at most. -/
theorem unique {a' : Adventure} {scenes' : List Scene} (h : CompiledFrom document a scenes)
    (h' : CompiledFrom document a' scenes') : a = a' ∧ scenes = scenes' := by
  obtain ⟨r, c, hr, hc⟩ := h
  obtain ⟨r', c', hr', hc'⟩ := h'
  obtain rfl : r = r' := Except.ok.inj (hr.symm.trans hr')
  have hboth := (Prod.mk.inj (Except.ok.inj (hc.symm.trans hc'))).1
  exact Prod.mk.inj hboth

/-- An adventure has the name that its document declares, without the blanks
around it. -/
theorem exists_name (h : CompiledFrom document a scenes) :
    ∃ raw, document.get? "name" = some (.string raw) ∧ a.name = Text.trim raw := by
  obtain ⟨r, hr, hcompiles⟩ := h.exists_compiles
  obtain ⟨⟨raw, hraw, hname⟩, -⟩ := AdventureRecord.of_validate hr
  exact ⟨raw, hraw, hcompiles.name.trans hname⟩

/-- A name that is declared without blanks around it is the name of the adventure. -/
theorem name_eq (h : CompiledFrom document a scenes) {name : String}
    (hname : document.get? "name" = some (.string name)) (htrim : Text.trim name = name) :
    a.name = name := by
  obtain ⟨raw, hraw, ha⟩ := h.exists_name
  obtain rfl : raw = name := by simpa [hname, eq_comm] using hraw
  rw [ha, htrim]

/-- A plain document declares the name of its adventure. -/
theorem get?_name_of_isPlain (h : CompiledFrom document a scenes) (hplain : document.IsPlain) :
    document.get? "name" = some (.string a.name) := by
  obtain ⟨raw, hraw, ha⟩ := h.exists_name
  rw [hraw, ha, hplain raw hraw]

/-- An adventure requires what its document requires. -/
theorem requires_eq (h : CompiledFrom document a scenes) :
    a.requires = document.requirements := by
  obtain ⟨r, hr, hcompiles⟩ := h.exists_compiles
  rw [Json.requirements, hr]
  exact hcompiles.requires

/-- The names that an adventure requires have no blanks around them. -/
theorem trim_of_mem_requires (h : CompiledFrom document a scenes) {n : String}
    (hn : n ∈ a.requires) : Text.trim n = n := by
  obtain ⟨r, hr, hcompiles⟩ := h.exists_compiles
  rw [hcompiles.requires] at hn
  exact ((AdventureRecord.of_validate hr).2.requires n (List.mem_filter.1 hn).1).trim_eq

/-- An adventure has the scenes that were compiled with it. -/
theorem scenes_eq (h : CompiledFrom document a scenes) :
    a.scenes = scenes.map (·.identifier) := by
  obtain ⟨r, -, hcompiles⟩ := h.exists_compiles
  exact hcompiles.identifiers

/-- The scenes of an adventure are in its scope. -/
theorem scope_eq (h : CompiledFrom document a scenes) {scene : Scene} (hscene : scene ∈ scenes) :
    scene.identifier.scope = a.name := by
  obtain ⟨r, -, hcompiles⟩ := h.exists_compiles
  exact (hcompiles.scope_eq hscene).trans hcompiles.name.symm

end CompiledFrom
end Adventure

namespace Registry

/-- Whether scenes can be registered behind others: no two of them share an
identifier, and none is registered. -/
structure Fresh (r : Registry) (scenes : List Scene) : Prop where
  nodup : (scenes.map (·.identifier)).Nodup
  not_mem : ∀ scene ∈ scenes, scene.identifier ∉ r.identifiers

/-- The registry with scenes behind the others. -/
def append (r : Registry) (scenes : List Scene) : Registry := ⟨r.scenes ++ scenes⟩

/-- Scenes that are appended are registered behind the others. -/
@[simp] theorem identifiers_append (r : Registry) (scenes : List Scene) :
    (r.append scenes).identifiers = r.identifiers ++ scenes.map (·.identifier) := by
  simp [append, identifiers]

/-- No scene is registered twice by registering scenes that can be. -/
theorem Fresh.nodup_append {r : Registry} {scenes : List Scene} (h : r.Fresh scenes)
    (hr : r.identifiers.Nodup) : (r.append scenes).identifiers.Nodup := by
  rw [identifiers_append]
  refine List.nodup_append.2 ⟨hr, h.nodup, ?_⟩
  rintro i hi j hj rfl
  obtain ⟨scene, hscene, rfl⟩ := List.mem_map.1 hj
  exact h.not_mem scene hscene hi

/-- Scenes that can be registered are registered one by one. -/
theorem fresh_cons {r : Registry} {scene : Scene} {rest : List Scene} :
    r.Fresh (scene :: rest) ↔
      scene.identifier ∉ r.identifiers ∧ (r.append [scene]).Fresh rest := by
  constructor
  · rintro ⟨hnodup, hnew⟩
    obtain ⟨hscene, hrest⟩ := List.nodup_cons.1 hnodup
    refine ⟨hnew scene (List.mem_cons_self ..), hrest, fun other hother => ?_⟩
    simp only [identifiers_append, List.map_cons, List.map_nil, List.mem_append,
      List.mem_singleton, not_or]
    refine ⟨hnew other (List.mem_cons_of_mem _ hother), fun he => hscene ?_⟩
    exact List.mem_map.2 ⟨other, hother, he⟩
  · rintro ⟨hscene, hnodup, hnew⟩
    simp only [identifiers_append, List.map_cons, List.map_nil, List.mem_append,
      List.mem_singleton, not_or] at hnew
    refine ⟨List.nodup_cons.2 ⟨fun hmem => ?_, hnodup⟩, ?_⟩
    · obtain ⟨other, hother, he⟩ := List.mem_map.1 hmem
      exact (hnew other hother).2 he
    · rintro other (_ | ⟨_, hother⟩)
      · exact hscene
      · exact (hnew other hother).1

/-- **Scenes are registered all or not at all.** -/
theorem registerAll_eq_ok {r r' : Registry} {c : Context} {scenes : List Scene} :
    r.registerAll c scenes = .ok r' ↔ r.Fresh scenes ∧ r' = r.append scenes := by
  induction scenes generalizing r with
  | nil =>
    have hnil : r.append [] = r := by simp [append]
    have hfresh : r.Fresh [] := ⟨List.nodup_nil, nofun⟩
    simp [registerAll, hnil, hfresh, eq_comm]
  | cons scene rest ih =>
    have happend : r.append (scene :: rest) = (r.append [scene]).append rest := by simp [append]
    rw [fresh_cons, happend]
    by_cases hmem : scene.identifier ∈ r.identifiers
    · have hrepeated : r.register scene c = .error (repeated scene.identifier c) :=
        if_pos ((contains_iff ..).2 hmem)
      simp [registerAll, hrepeated, hmem, bind, Except.bind]
    · have hregister : r.register scene c = .ok (r.append [scene]) :=
        if_neg fun h => hmem ((contains_iff ..).1 h)
      have hbind : r.registerAll c (scene :: rest) = (r.append [scene]).registerAll c rest := by
        rw [registerAll, hregister]
        rfl
      rw [hbind, ih, and_iff_right hmem]

/-- Assembling a record gives its adventure and adds the scenes of it to the
registry. -/
theorem assemble_eq_ok {r r' : Registry} {record : AdventureRecord} {a : Adventure} :
    r.assemble record = .ok (a, r') ↔
      ∃ scenes, a.CompiledFromRecord record scenes ∧ r.Fresh scenes ∧ r' = r.append scenes := by
  constructor
  · intro h
    obtain ⟨⟨⟨b, scenes⟩, c⟩, hcompile, h⟩ := Grammar.exists_of_bind_eq_ok h
    obtain ⟨r'', hregister, h⟩ := Grammar.exists_of_bind_eq_ok h
    obtain ⟨hfresh, rfl⟩ := registerAll_eq_ok.1 hregister
    obtain ⟨rfl, rfl⟩ := Prod.mk.inj (Except.ok.inj h)
    exact ⟨scenes, ⟨c, hcompile⟩, hfresh, rfl⟩
  · rintro ⟨scenes, ⟨c, hcompile⟩, hfresh, rfl⟩
    have hregister : r.registerAll { adventure := record.name } scenes = .ok (r.append scenes) :=
      registerAll_eq_ok.2 ⟨hfresh, rfl⟩
    rw [assemble, hcompile]
    show (r.registerAll _ scenes >>= fun r' => _) = _
    rw [hregister]
    rfl

/-- Assembling a document gives its adventure and adds the scenes of it to the
registry. -/
theorem assembleDocument_eq_ok {r r' : Registry} {document : Json} {a : Adventure} :
    r.assembleDocument document = .ok (a, r') ↔
      ∃ scenes, a.CompiledFrom document scenes ∧ r.Fresh scenes ∧ r' = r.append scenes := by
  constructor
  · intro h
    obtain ⟨record, hrecord, h⟩ := Grammar.exists_of_bind_eq_ok h
    obtain ⟨scenes, ⟨c, hcompile⟩, hfresh, rfl⟩ := assemble_eq_ok.1 h
    exact ⟨scenes, ⟨record, c, hrecord, hcompile⟩, hfresh, rfl⟩
  · rintro ⟨scenes, ⟨record, c, hrecord, hcompile⟩, hfresh, rfl⟩
    rw [assembleDocument, hrecord]
    exact assemble_eq_ok.2 ⟨scenes, ⟨c, hcompile⟩, hfresh, rfl⟩

end Registry
end Gamebook
