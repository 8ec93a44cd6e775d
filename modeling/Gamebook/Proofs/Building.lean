/-
# Building adventures

A builder takes a document, or a record that was validated before, and puts the scenes of it
into the registry one by one (`Request.build`).  A scene that is in the registry stays there
whatever comes later, so the builder looks through all of them before it registers the first:
one that repeats an identifier is found beforehand (`Registry.firstTaken?`), and then every
registration goes through (`Request.registers_of_firstTaken?`).

So a build registers all scenes of its payload, in order, or none
(`Request.build_all_or_nothing`), and it comes to what assembling a document comes to
(`Request.answer_build`).
-/

import Gamebook.Proofs.Causes
import Gamebook.Proofs.Interleaving

namespace Gamebook

/-- What an adventure is built from. -/
inductive Payload where
  | document (d : Json)
  | record (r : AdventureRecord)

namespace Payload

/-- The record of a payload; one that is given is not validated again. -/
def validate : Payload → Except Diagnostic AdventureRecord
  | document d => AdventureRecord.validate d
  | record r => .ok r

/-- A payload is refused for a field of its document, or because that is no object. -/
theorem cause_of_validate {payload : Payload} {d : Diagnostic} (h : payload.validate = .error d) :
    d.cause = .notAnObject ∨ ∃ name problem, d.cause = .field name problem := by
  cases payload with
  | document document => exact AdventureRecord.cause_of_validate h
  | record r => contradiction

/-- The adventure of a payload, and the registry with its scenes. -/
def assemble (r : Registry) : Payload → Except Diagnostic (Adventure × Registry)
  | document d => r.assembleDocument d
  | record validated => r.assemble validated

/-- A payload is assembled by assembling the record that it is validated to. -/
theorem assemble_eq (r : Registry) (payload : Payload) :
    payload.assemble r = payload.validate >>= r.assemble := by
  cases payload <;> rfl

end Payload

/-! ## Scenes that repeat an identifier -/

namespace Registry

variable {r : Registry} {scenes before : List Scene} {seen : List Identifier} {i : Identifier}

/-- The identifier of the first scene that was seen before, or is registered. -/
def firstTaken? (r : Registry) (seen : List Identifier) : List Scene → Option Identifier
  | [] => none
  | scene :: rest =>
    if scene.identifier ∈ seen ∨ r.contains scene.identifier = true then some scene.identifier
    else firstTaken? r (scene.identifier :: seen) rest

/-- **Registering scenes one by one stops at the first that is taken**, or at none. -/
theorem registerAll_append (hseen : ∀ i, i ∈ seen ↔ i ∈ before.map (·.identifier)) (c : Context) :
    (r.append before).registerAll c scenes =
      match r.firstTaken? seen scenes with
      | some i => .error (repeated i c)
      | none => .ok ((r.append before).append scenes) := by
  induction scenes generalizing seen before with
  | nil => simp [registerAll, firstTaken?, append]
  | cons scene rest ih =>
    have hcontains : (r.append before).contains scene.identifier = true ↔
        scene.identifier ∈ seen ∨ r.contains scene.identifier = true := by
      rw [contains_iff, contains_iff, identifiers_append, List.mem_append, hseen, or_comm]
    rw [registerAll, register, firstTaken?]
    by_cases htaken : scene.identifier ∈ seen ∨ r.contains scene.identifier = true
    · rw [if_pos htaken, if_pos (hcontains.2 htaken)]
      rfl
    · rw [if_neg htaken, if_neg fun h => htaken (hcontains.1 h)]
      have hgrown : ∀ i, i ∈ scene.identifier :: seen ↔
          i ∈ (before ++ [scene]).map (·.identifier) := by
        simp [hseen, or_comm]
      have hrest := ih hgrown
      simp only [append, List.append_assoc, List.singleton_append] at hrest ⊢
      exact hrest

/-- The scenes are looked through before they are registered, to the same end. -/
theorem registerAll_eq (r : Registry) (c : Context) (scenes : List Scene) :
    r.registerAll c scenes =
      match r.firstTaken? [] scenes with
      | some i => .error (repeated i c)
      | none => .ok (r.append scenes) := by
  have hseen : ∀ i, i ∈ ([] : List Identifier) ↔ i ∈ ([] : List Scene).map (·.identifier) := by
    simp
  simpa [append] using registerAll_append (r := r) hseen c

/-- No scene is taken where all of them can be registered. -/
theorem firstTaken?_eq_none_iff : r.firstTaken? [] scenes = none ↔ r.Fresh scenes := by
  constructor
  · intro hnone
    have hregister := registerAll_eq r {} scenes
    rw [hnone] at hregister
    exact (registerAll_eq_ok.1 hregister).1
  · intro hfresh
    have hregister := (registerAll_eq_ok (c := {})).2 ⟨hfresh, rfl⟩
    rw [registerAll_eq] at hregister
    split at hregister
    · contradiction
    · assumption

end Registry

/-! ## The builder -/

namespace Request

/-- A result with the diagnostic of a document. -/
def ofDiagnosed {α : Type} (result : Except Diagnostic α) : Request α :=
  ofExcept (result.mapError .document)

/-- A result without a diagnostic is answered, and the session stays. -/
theorem answer_ofDiagnosed_ok {α : Type} (a : α) (s : Session) :
    (ofDiagnosed (.ok a)).answer s = (.ok a, s) := rfl

/-- Put a scene into the registry. -/
def register (c : Context) (scene : Scene) : Request Unit := do
  let registry ← ofDiagnosed ((← get).story.registry.register scene c)
  modify fun s => { s with story := { s.story with registry } }

/-- Build the adventure of a payload and register its scenes. -/
def build (payload : Payload) : Request Adventure := do
  let record ← ofDiagnosed payload.validate
  let context : Context := { adventure := record.name }
  let ((a, scenes), _) ← ofDiagnosed ((Adventure.compile record).run context)
  match (← get).story.registry.firstTaken? [] scenes with
  | some i => throw (.document (Registry.repeated i context))
  | none =>
    scenes.forM (register context)
    return a

variable {s : Session} {payload : Payload}

/-- **What can be registered is registered, scene by scene.** -/
theorem registers_of_fresh {scenes : List Scene} (h : s.story.registry.Fresh scenes)
    (c : Context) : (scenes.forM (register c)).answer s = (.ok (), s.withStray scenes) := by
  induction scenes generalizing s with
  | nil => simp [Session.withStray, Registry.append]
  | cons scene rest ih =>
    obtain ⟨hscene, hrest⟩ := Registry.fresh_cons.1 h
    have hregister : (register c scene).answer s = (.ok (), s.withStray [scene]) := by
      have hok : s.story.registry.register scene c = .ok (s.story.registry.append [scene]) :=
        if_neg fun hcontains => hscene ((Registry.contains_iff ..).1 hcontains)
      rw [register, answer_bind_of_ok (answer_get s), hok]
      rfl
    have hbehind := ih (s := s.withStray [scene]) hrest
    show (register c scene >>= fun _ => rest.forM (register c)).answer s = _
    rw [answer_bind_of_ok hregister, hbehind]
    simp [Session.withStray, Registry.append]

/-- A registration that was looked through before cannot fail. -/
theorem registers_of_firstTaken? {scenes : List Scene}
    (h : s.story.registry.firstTaken? [] scenes = none) (c : Context) :
    (scenes.forM (register c)).answer s = (.ok (), s.withStray scenes) :=
  registers_of_fresh (Registry.firstTaken?_eq_none_iff.1 h) c

/-- **A build comes to what assembling comes to**, and what it leaves behind is the registry
with the scenes of the adventure, or the session as it was. -/
theorem answer_build (payload : Payload) (s : Session) :
    (build payload).answer s =
      match payload.assemble s.story.registry with
      | .ok (a, registry) => (.ok a, { s with story := { s.story with registry } })
      | .error d => (.error (.document d), s) := by
  rw [Payload.assemble_eq, build]
  cases hrecord : payload.validate with
  | error d => rfl
  | ok record =>
    have hassemble : (Except.ok record >>= s.story.registry.assemble) =
        s.story.registry.assemble record := rfl
    rw [hassemble, Registry.assemble, answer_bind_of_ok (answer_ofDiagnosed_ok ..)]
    dsimp only
    cases hcompile : (Adventure.compile record).run { adventure := record.name } with
    | error d => rfl
    | ok result =>
      obtain ⟨⟨a, scenes⟩, c⟩ := result
      rw [answer_bind_of_ok (answer_ofDiagnosed_ok ..)]
      rw [answer_bind_of_ok (answer_get s)]
      simp only [bind, Except.bind, Registry.registerAll_eq]
      cases htaken : s.story.registry.firstTaken? [] scenes with
      | some i => rfl
      | none =>
        exact answer_bind_of_ok (f := fun _ => pure a) (registers_of_firstTaken? htaken _)

end Request

/-! ## What is registered -/

/-- The segments of an identifier. -/
def Identifier.segments (i : Identifier) : String × String := (i.scope, i.name)

/-- Two identifiers with the same segments are the same. -/
theorem Identifier.segments_injective : Function.Injective segments := by
  rintro ⟨scope, name, _, _⟩ ⟨scope', name', _, _⟩ h
  obtain ⟨rfl, rfl⟩ := Prod.mk.inj h
  rfl

/-- **The scenes of an adventure are those of its record, in order**, each by the name of the
adventure and its own. -/
theorem Adventure.Compiles.segments_eq {record : AdventureRecord} {a : Adventure}
    {scenes : List Scene} (h : a.Compiles record scenes) :
    scenes.map (·.identifier.segments) = record.scenes.map fun r => (record.name, r.name) := by
  have hscenes := h.scenes
  clear h
  generalize record.scenes = records at hscenes ⊢
  induction hscenes with
  | nil => rfl
  | cons hscene _ ih =>
    obtain ⟨hscope, hname⟩ := Identifier.of_ofParts hscene.identifier
    rw [List.map_cons, List.map_cons, ih, Identifier.segments, hscope, hname]

namespace Registry

variable {r : Registry} {record : AdventureRecord} {a : Adventure} {scenes : List Scene}

/-- Two scenes of a record share a name, or one of them is registered. -/
def Repeats (r : Registry) (record : AdventureRecord) : Prop :=
  ¬(record.scenes.map (·.name)).Nodup ∨
    ∃ scene ∈ record.scenes, ∃ i ∈ r.identifiers, i.segments = (record.name, scene.name)

/-- Scenes can be registered unless their record repeats one. -/
theorem not_fresh_iff (h : a.Compiles record scenes) : ¬r.Fresh scenes ↔ r.Repeats record := by
  have hsegments := h.segments_eq
  have hnodup : (scenes.map (·.identifier)).Nodup ↔ (record.scenes.map (·.name)).Nodup := by
    rw [← List.nodup_map_iff Identifier.segments_injective, List.map_map]
    have hpair : Function.Injective (Prod.mk (β := String) record.name) :=
      fun _ _ h => (Prod.mk.inj h).2
    rw [← List.nodup_map_iff hpair, List.map_map]
    exact hsegments ▸ Iff.rfl
  have hmem (i : Identifier) : (∃ scene ∈ scenes, scene.identifier = i) ↔
      ∃ scene ∈ record.scenes, i.segments = (record.name, scene.name) := by
    have hpair : i.segments ∈ scenes.map (·.identifier.segments) ↔
        i.segments ∈ record.scenes.map fun r => (record.name, r.name) := by rw [hsegments]
    simpa [Identifier.segments_injective.eq_iff, eq_comm] using hpair
  constructor
  · intro hnot
    by_contra hrepeats
    obtain ⟨hnames, hnone⟩ := not_or.1 hrepeats
    refine hnot ⟨hnodup.2 (not_not.1 hnames), fun scene hscene hregistered => hnone ?_⟩
    obtain ⟨r', hr', he⟩ := (hmem _).1 ⟨scene, hscene, rfl⟩
    exact ⟨r', hr', _, hregistered, he⟩
  · rintro (hnames | ⟨r', hr', i, hi, he⟩) hfresh
    · exact hnames (hnodup.1 hfresh.nodup)
    · obtain ⟨scene, hscene, rfl⟩ := (hmem i).2 ⟨r', hr', he⟩
      exact hfresh.not_mem scene hscene hi

/-- A record is refused for its scripts, or for a scene that is taken. -/
theorem of_assemble_eq_error {d : Diagnostic} (h : r.assemble record = .error d) :
    (d.cause.IsOfScript ∧ ∀ a scenes, ¬Adventure.CompiledFromRecord record a scenes) ∨
      ∃ a scenes i, Adventure.CompiledFromRecord record a scenes ∧
        r.firstTaken? [] scenes = some i ∧ d = repeated i { adventure := record.name } := by
  rw [assemble] at h
  cases hcompile : (Adventure.compile record).run { adventure := record.name } with
  | error e =>
    rw [hcompile] at h
    obtain rfl := Except.error.inj h
    refine .inl ⟨Adventure.blames_compile record _ _ hcompile, ?_⟩
    rintro a scenes ⟨c, hc⟩
    rw [hcompile] at hc
    contradiction
  | ok result =>
    obtain ⟨⟨a, scenes⟩, c⟩ := result
    rw [hcompile] at h
    simp only [bind, Except.bind, registerAll_eq] at h
    cases htaken : r.firstTaken? [] scenes with
    | none =>
      rw [htaken] at h
      contradiction
    | some i =>
      rw [htaken] at h
      exact .inr ⟨a, scenes, i, ⟨c, hcompile⟩, htaken, (Except.error.inj h).symm⟩

/-- **A record is refused for a repeated scene if it is compiled and repeats one.** -/
theorem assemble_repeated_iff :
    (∃ d i, r.assemble record = .error d ∧ d.cause = .repeatedScene i) ↔
      ∃ a scenes, Adventure.CompiledFromRecord record a scenes ∧ r.Repeats record := by
  constructor
  · rintro ⟨d, i, hd, hcause⟩
    obtain ⟨hscript, -⟩ | ⟨a, scenes, j, hcompiled, htaken, -⟩ := of_assemble_eq_error hd
    · rw [hcause] at hscript
      exact absurd hscript (by simp [Cause.IsOfScript, Cause.family])
    · refine ⟨a, scenes, hcompiled, ?_⟩
      rw [← not_fresh_iff (Adventure.compiledFromRecord_iff.1 hcompiled),
        ← firstTaken?_eq_none_iff, htaken]
      exact Option.some_ne_none j
  · rintro ⟨a, scenes, hcompiled, hrepeats⟩
    have hnot := (not_fresh_iff (Adventure.compiledFromRecord_iff.1 hcompiled)).2 hrepeats
    cases hassemble : r.assemble record with
    | ok result =>
      obtain ⟨scenes', hcompiled', hfresh, -⟩ := assemble_eq_ok.1 hassemble
      obtain ⟨c, hc⟩ := hcompiled
      obtain ⟨c', hc'⟩ := hcompiled'
      have hboth := (Prod.mk.inj (Except.ok.inj (hc.symm.trans hc'))).1
      obtain ⟨-, rfl⟩ := Prod.mk.inj hboth
      exact absurd hfresh hnot
    | error d =>
      obtain ⟨-, hnone⟩ | ⟨a', scenes', i, -, -, rfl⟩ := of_assemble_eq_error hassemble
      · exact absurd hcompiled (hnone a scenes)
      · exact ⟨_, _, rfl, rfl⟩

end Registry

/-- A payload is refused for a repeated scene if it is valid, and its record is. -/
theorem Payload.assemble_repeated_iff {payload : Payload} {r : Registry} :
    (∃ d i, payload.assemble r = .error d ∧ d.cause = .repeatedScene i) ↔
      ∃ record a scenes, payload.validate = .ok record ∧
        Adventure.CompiledFromRecord record a scenes ∧ r.Repeats record := by
  rw [assemble_eq]
  cases hrecord : payload.validate with
  | error e =>
    constructor
    · rintro ⟨d, i, hd, hcause⟩
      obtain rfl := Except.error.inj hd
      obtain he | ⟨name, problem, he⟩ := cause_of_validate hrecord
      · exact absurd (hcause.symm.trans he) (by simp)
      · exact absurd (hcause.symm.trans he) (by simp)
    · rintro ⟨record, a, scenes, h, -⟩
      contradiction
  | ok record =>
    have hassemble : (Except.ok record >>= r.assemble) = r.assemble record := rfl
    rw [hassemble, Registry.assemble_repeated_iff]
    constructor
    · rintro ⟨a, scenes, h⟩
      exact ⟨record, a, scenes, rfl, h⟩
    · rintro ⟨_, a, scenes, h, hcompiled⟩
      obtain rfl := Except.ok.inj h
      exact ⟨a, scenes, hcompiled⟩

namespace Request

/-- A build is refused for what its payload is refused for. -/
theorem answer_build_eq_error_iff {payload : Payload} {s : Session} {d : Diagnostic} :
    (build payload).answer s = (.error (.document d), s) ↔
      payload.assemble s.story.registry = .error d := by
  rw [answer_build]
  cases payload.assemble s.story.registry <;> simp

/-- **A build registers all scenes of its payload, or nothing.**  It is refused and leaves the
session as it was, or it puts the scenes of the payload behind those that are registered, in
their order and by the names of the adventure and of each, and what was registered is found as
before.  It is refused for a scene that repeats another exactly if everything is compiled and
two scenes share a name or one of them is registered; and when the scenes are looked through,
to register them cannot fail. -/
theorem build_all_or_nothing (payload : Payload) (s : Session) :
    ((∃ d, (build payload).answer s = (.error (.document d), s)) ∨
      ∃ record a scenes, payload.validate = .ok record ∧
        Adventure.CompiledFromRecord record a scenes ∧
        (build payload).answer s = (.ok a, s.withStray scenes) ∧
        scenes.map (·.identifier.segments) = record.scenes.map (fun r => (record.name, r.name)) ∧
        ∀ i ∈ s.story.registry.identifiers,
          (s.story.registry.append scenes).find? i = s.story.registry.find? i) ∧
    ((∃ d i, (build payload).answer s = (.error (.document d), s) ∧ d.cause = .repeatedScene i) ↔
      ∃ record a scenes, payload.validate = .ok record ∧
        Adventure.CompiledFromRecord record a scenes ∧ s.story.registry.Repeats record) ∧
    ∀ scenes c, s.story.registry.firstTaken? [] scenes = none →
      (scenes.forM (register c)).answer s = (.ok (), s.withStray scenes) := by
  refine ⟨?_, ?_, fun scenes c hnone => registers_of_firstTaken? hnone c⟩
  · rw [answer_build]
    cases hassemble : payload.assemble s.story.registry with
    | error d => exact .inl ⟨d, rfl⟩
    | ok result =>
      obtain ⟨a, registry⟩ := result
      rw [Payload.assemble_eq] at hassemble
      obtain ⟨record, hrecord, hassemble⟩ := Grammar.exists_of_bind_eq_ok hassemble
      obtain ⟨scenes, hcompiled, hfresh, rfl⟩ := Registry.assemble_eq_ok.1 hassemble
      refine .inr ⟨record, a, scenes, hrecord, hcompiled, rfl, ?_, ?_⟩
      · exact (Adventure.compiledFromRecord_iff.1 hcompiled).segments_eq
      · exact fun i hi => Registry.find?_append_of_mem hi
  · simp only [answer_build_eq_error_iff]
    exact Payload.assemble_repeated_iff

/-- A document with two scenes of one name is compiled, but it registers neither of them. -/
theorem build_all_or_nothing_twice :
    let scene : Json := .object
      [("name", .string "start"), ("title", .string "S"), ("content", .ofTexts ["text"])]
    let document : Json := .object
      [("name", .string "a"), ("title", .string "T"), ("version", .int 1),
       ("scenes", .array [scene, scene])]
    let s : Session := { story := {} }
    (∃ d i, (build (.document document)).answer s = (.error (.document d), s) ∧
      d.cause = .repeatedScene i) ∧
    ∃ record a scenes, AdventureRecord.validate document = .ok record ∧
      Adventure.CompiledFromRecord record a scenes ∧ Registry.empty.Repeats record := by
  intro scene document s
  have hruns : (match Registry.empty.assembleDocument document with
      | .error d => match d.cause with
        | .repeatedScene i => i == "a:start"
        | _ => false
      | .ok _ => false) = true := by decide +kernel
  have hrefused : ∃ d i, (build (.document document)).answer s = (.error (.document d), s) ∧
      d.cause = .repeatedScene i := by
    split at hruns
    · rename_i d hd
      split at hruns
      · rename_i i hi
        exact ⟨d, i, answer_build_eq_error_iff.2 hd, hi⟩
      · contradiction
    · contradiction
  exact ⟨hrefused, (build_all_or_nothing (.document document) s).2.1.1 hrefused⟩

end Request
end Gamebook
