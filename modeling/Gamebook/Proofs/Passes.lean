/-
# Passes over references

Linking goes through adventures, through the scenes of each and through the choices of each
scene, and stops at the first reference that it cannot resolve.  The references stand in the
order of the document, each with the place and the context that a diagnostic names
(`Volume.sites`).  The three loops are one pass over them (`Volume.map_linkAll`), which
resolves what stands before the first missing reference, counts what was unresolved, and
leaves the rest alone (`Site.each_link_eq`).

An adventure is taken here with the scenes that it holds (`Volume`), whatever the registry
is in which references are looked up.
-/

import Gamebook.Proofs.Unlinked

namespace Gamebook

/-! ## Passes -/

namespace Pass

variable {α β γ δ : Type}

/-- A pass with another view of what it made. -/
def map (f : α → β) (p : Pass α) : Pass β := ⟨f p.result, p.resolved, p.failure⟩

/-- A pass that has nothing to do. -/
def idle (a : α) : Pass α := ⟨a, 0, none⟩

/-- A pass and, unless that is stopped, another one behind it. -/
def andThen (p : Pass α) (rest : β) (q : Pass β) : Pass (α × β) :=
  match p.failure with
  | some d => ⟨(p.result, rest), p.resolved, some d⟩
  | none => ⟨(p.result, q.result), p.resolved + q.resolved, q.failure⟩

/-- Pass over a list in order, up to the first element that stops it. -/
def each (f : α → Pass α) : List α → Pass (List α)
  | [] => idle []
  | a :: rest => ((f a).andThen rest (each f rest)).map fun (b, bs) => b :: bs

/-- A pass that is viewed twice is viewed once by both views. -/
@[simp]
theorem map_map (f : α → β) (g : β → γ) (p : Pass α) : (p.map f).map g = p.map (g ∘ f) := rfl

/-- The two parts of a pass are viewed apart. -/
theorem map_andThen (f : α → γ) (g : β → δ) (p : Pass α) (rest : β) (q : Pass β) :
    (p.andThen rest q).map (Prod.map f g) = (p.map f).andThen (g rest) (q.map g) := by
  obtain ⟨a, n, failure⟩ := p
  cases failure <;> rfl

/-- What the first part of a pass made stays, whether the second one begins or not. -/
theorem fst_result_andThen (p : Pass α) (rest : β) (q : Pass β) :
    (p.andThen rest q).result.1 = p.result := by
  obtain ⟨a, n, failure⟩ := p
  cases failure <;> rfl

/-- A pass that has nothing to do leaves everything to the one behind it. -/
theorem idle_andThen (a : α) (rest : β) (q : Pass β) :
    (idle a).andThen rest q = q.map fun b => (a, b) := by
  simp [andThen, idle, map]

variable {f : α → Pass α}

/-- Lists one behind the other are passed over one after the other. -/
theorem each_append (xs ys : List α) :
    each f (xs ++ ys) = ((each f xs).andThen ys (each f ys)).map fun (as, bs) => as ++ bs := by
  induction xs with
  | nil => simp [each, idle_andThen, map]
  | cons x xs ih =>
    rw [List.cons_append, each, ih, each]
    cases hx : (f x).failure with
    | some d => simp [map, andThen, hx]
    | none =>
      cases hxs : (each f xs).failure with
      | some d => simp [map, andThen, hx, hxs]
      | none => simp [map, andThen, hx, hxs, Nat.add_assoc]

/-- **A pass over lists of items is a pass over the items**, if the pass over each list is. -/
theorem map_each {F : β → Pass β} {items : β → List α}
    (h : ∀ b, (F b).map items = each f (items b)) (bs : List β) :
    (each F bs).map (·.flatMap items) = each f (bs.flatMap items) := by
  induction bs with
  | nil => rfl
  | cons b bs ih =>
    rw [List.flatMap_cons, each_append, ← h, ← ih, ← map_andThen]
    rfl

/-- What an element has to do nothing for, a list of such has to do nothing for. -/
theorem each_eq_idle {as : List α} (h : ∀ a ∈ as, f a = idle a) : each f as = idle as := by
  induction as with
  | nil => rfl
  | cons a as ih =>
    obtain ⟨ha, has⟩ := List.forall_mem_cons.1 h
    rw [each, ha, ih has, idle_andThen]
    rfl

/-- What no step changes, the pass does not change. -/
theorem map_result_each {g : α → β} (h : ∀ a, g (f a).result = g a) (as : List α) :
    (each f as).result.map g = as.map g := by
  induction as with
  | nil => rfl
  | cons a as ih =>
    rw [each]
    cases hfailure : (f a).failure with
    | some d => simp [map, andThen, hfailure, h]
    | none => simp [map, andThen, hfailure, h, ih]

end Pass

/-! ## References in their places -/

/-- A reference with the place and the context that a diagnostic names for it. -/
structure Site where
  place : Place
  context : Context
  ref : SceneRef

namespace Site

/-- Whether a reference is unresolved and names no known scene. -/
def isMissing (known : Identifier → Bool) (x : Site) : Bool :=
  !x.ref.isResolved && !known x.ref.identifier

/-- A reference in its place, resolved. -/
def resolve (x : Site) : Site := { x with ref := x.ref.linked }

/-- A reference that is resolved stays as it is in its place. -/
theorem resolve_eq_self (x : Site) (h : x.ref.isResolved = true) : x.resolve = x := by
  rw [resolve, SceneRef.linked_eq_self h]

/-- The diagnostic for a reference to a scene that is not known. -/
def diagnostic (x : Site) : Diagnostic :=
  ⟨x.place, .unknownScene x.ref.identifier.canonical,
    x.context.visit (.string x.ref.identifier.canonical)⟩

/-- Link one reference. -/
def link (known : Identifier → Bool) (x : Site) : Pass Site :=
  if x.isMissing known then ⟨x, 0, some x.diagnostic⟩
  else ⟨x.resolve, if x.ref.isResolved then 0 else 1, none⟩

variable {known : Identifier → Bool}

/-- **A pass over references resolves those before the first that is missing**, and leaves the
others alone. -/
theorem each_link_eq (xs : List Site) :
    Pass.each (link known) xs =
      ⟨(xs.takeWhile (!isMissing known ·)).map resolve ++ xs.dropWhile (!isMissing known ·),
        (xs.takeWhile (!isMissing known ·)).countP (!·.ref.isResolved),
        (xs.find? (isMissing known)).map diagnostic⟩ := by
  induction xs with
  | nil => rfl
  | cons x xs ih =>
    rw [Pass.each, ih]
    cases hmissing : x.isMissing known with
    | true => simp [link, hmissing, Pass.andThen, Pass.map]
    | false =>
      cases hresolved : x.ref.isResolved with
      | true => simp [link, hmissing, hresolved, Pass.andThen, Pass.map]
      | false => simp [link, hmissing, hresolved, Pass.andThen, Pass.map, Nat.add_comm]

end Site

/-! ## Choices, scenes and adventures -/

/-- The reference of a choice of the scene in a context. -/
def Choice.site (c : Context) (ch : Choice) : Site :=
  ⟨.option, { c with option := tagOf ch.label.source }, ch.target⟩

/-- The references of a scene of the adventure in a context. -/
def Scene.sites (c : Context) (scene : Scene) : List Site :=
  scene.choices.map (Choice.site { c with scene := scene.identifier.name })

/-- The reference to the starting scene of an adventure. -/
def Adventure.startSite (a : Adventure) : Site := ⟨.adventure, { adventure := a.name }, a.start⟩

/-- An adventure with the scenes that it holds. -/
abbrev Volume := Adventure × List Scene

/-- The references of an adventure and its scenes: the starting scene, and then the choices,
scene by scene. -/
def Volume.sites (v : Volume) : List Site :=
  v.1.startSite :: v.2.flatMap (Scene.sites { adventure := v.1.name })

/-- Link the choices of a scene. -/
def Scene.link (known : Identifier → Bool) (c : Context) (scene : Scene) : Pass Scene :=
  (Choice.link known { c with scene := scene.identifier.name } scene.choices).map fun choices =>
    { scene with choices }

/-- Link an adventure and then the scenes that it holds. -/
def Volume.link (r : Registry) (v : Volume) : Pass Volume :=
  (v.1.linkStart r).andThen v.2
    (Pass.each (Scene.link r.contains { adventure := v.1.name }) v.2)

/-- Link adventures in order. -/
def Volume.linkAll (r : Registry) : List Volume → Pass (List Volume) := Pass.each (link r)

section

variable {known : Identifier → Bool} {c : Context} {r : Registry}

/-- Linking choices is a pass over their references in order. -/
theorem Choice.map_link (choices : List Choice) :
    (link known c choices).map (·.map (site c)) =
      Pass.each (Site.link known) (choices.map (site c)) := by
  induction choices with
  | nil => rfl
  | cons ch choices ih =>
    rw [List.map_cons, Pass.each, ← ih]
    cases htarget : ch.target with
    | resolved i =>
      simp [link, htarget, site, Site.link, Site.isMissing, Site.resolve, SceneRef.isResolved,
        SceneRef.linked, SceneRef.identifier, Pass.andThen, Pass.map]
    | unresolved i =>
      cases hknown : known i with
      | true =>
        simp [link, htarget, hknown, site, Site.link, Site.isMissing, Site.resolve,
          SceneRef.isResolved, SceneRef.linked, SceneRef.identifier, Pass.andThen, Pass.map,
          Nat.add_comm]
      | false =>
        simp [link, htarget, hknown, site, Site.link, Site.isMissing, Site.diagnostic,
          SceneRef.isResolved, SceneRef.identifier, Pass.andThen, Pass.map, Context.visit]

/-- Linking a scene is a pass over the references of its choices. -/
theorem Scene.map_link (scene : Scene) :
    (scene.link known c).map (sites c) = Pass.each (Site.link known) (scene.sites c) := by
  rw [sites, ← Choice.map_link]
  rfl

/-- Linking the start of an adventure is a pass over that one reference. -/
theorem Adventure.map_linkStart (a : Adventure) :
    (a.linkStart r).map startSite = Site.link r.contains a.startSite := by
  cases hstart : a.start with
  | resolved i =>
    simp [linkStart, hstart, startSite, Site.link, Site.isMissing, Site.resolve,
      SceneRef.isResolved, SceneRef.linked, SceneRef.identifier, Pass.map]
  | unresolved i =>
    cases hknown : r.contains i with
    | true =>
      simp [linkStart, hstart, hknown, startSite, Site.link, Site.isMissing, Site.resolve,
        SceneRef.isResolved, SceneRef.linked, SceneRef.identifier, Pass.map]
    | false =>
      simp [linkStart, hstart, hknown, startSite, Site.link, Site.isMissing, Site.diagnostic,
        SceneRef.isResolved, SceneRef.identifier, Pass.map, Context.visit]

/-- Linking its start does not rename an adventure. -/
theorem Adventure.name_linkStart (a : Adventure) : (a.linkStart r).result.name = a.name := by
  obtain ⟨start, -, hstart⟩ := becomes_linkStart (a := a) (r := r)
  rw [hstart]

/-- Linking an adventure and its scenes is a pass over their references, the starting scene
first. -/
theorem Volume.map_link (v : Volume) :
    (v.link r).map sites = Pass.each (Site.link r.contains) v.sites := by
  obtain ⟨a, scenes⟩ := v
  have hlink (scene : Scene) : (scene.link r.contains { adventure := a.name }).map (Scene.sites _) =
      Pass.each (Site.link r.contains) (scene.sites { adventure := a.name }) := scene.map_link
  have hscenes := Pass.map_each hlink scenes
  have hname : (link r (a, scenes)).result.1.name = a.name := by
    rw [link, Pass.fst_result_andThen, Adventure.name_linkStart]
  rw [sites, Pass.each, ← hscenes, ← Adventure.map_linkStart, ← Pass.map_andThen, Pass.map_map]
  show (link r (a, scenes)).map sites = (link r (a, scenes)).map _
  simp only [Pass.map, sites, hname, Function.comp_apply, Prod.map]

/-- **Linking adventures is one pass over their references.** -/
theorem Volume.map_linkAll (vs : List Volume) :
    (linkAll r vs).map (·.flatMap sites) = Pass.each (Site.link r.contains) (vs.flatMap sites) :=
  Pass.map_each map_link vs

/-! ## What a pass leaves alone -/

/-- Choices that are linked leave a pass nothing to do. -/
theorem Choice.link_of_isLinked {choices : List Choice} (h : ∀ ch ∈ choices, ch.IsLinked) :
    link known c choices = Pass.idle choices := by
  induction choices with
  | nil => rfl
  | cons ch choices ih =>
    obtain ⟨hch, hrest⟩ := List.forall_mem_cons.1 h
    cases htarget : ch.target with
    | resolved i => simp only [link, htarget, ih hrest, Pass.idle]
    | unresolved i =>
      rw [IsLinked, htarget] at hch
      contradiction

/-- A starting scene that is resolved leaves a pass nothing to do. -/
theorem Adventure.linkStart_of_isResolved {a : Adventure} (h : a.start.isResolved = true) :
    a.linkStart r = Pass.idle a := by
  cases hstart : a.start with
  | resolved i => simp [linkStart, hstart, Pass.idle]
  | unresolved i =>
    rw [hstart] at h
    contradiction

/-- A pass over references that are resolved does nothing. -/
theorem Volume.linkAll_of_isResolved {vs : List Volume}
    (h : ∀ x ∈ vs.flatMap sites, x.ref.isResolved = true) : linkAll r vs = Pass.idle vs := by
  refine Pass.each_eq_idle fun v hv => ?_
  obtain ⟨a, scenes⟩ := v
  obtain ⟨hstart, hscenes⟩ := List.forall_mem_cons.1 (List.forall_mem_flatMap.1 h _ hv)
  have heach : Pass.each (Scene.link r.contains { adventure := a.name }) scenes =
      Pass.idle scenes := by
    refine Pass.each_eq_idle fun scene hscene => ?_
    have hchoices : ∀ ch ∈ scene.choices, ch.IsLinked := fun ch hch =>
      List.forall_mem_flatMap.1 hscenes scene hscene _ (List.mem_map_of_mem hch)
    rw [Scene.link, Choice.link_of_isLinked hchoices]
    rfl
  rw [link, Adventure.linkStart_of_isResolved hstart, heach]
  rfl

/-- An adventure and its scenes with the references as they were built. -/
def Volume.unlinked (v : Volume) : Volume :=
  (v.1.mapRef .unlinked, v.2.map (·.mapRefs .unlinked))

/-- Linking changes nothing but references. -/
theorem Volume.unlinked_linkAll (vs : List Volume) :
    (linkAll r vs).result.map unlinked = vs.map unlinked := by
  refine Pass.map_result_each (fun v => ?_) vs
  obtain ⟨a, scenes⟩ := v
  have hstart : (a.linkStart r).result.mapRef .unlinked = a.mapRef .unlinked :=
    Adventure.becomes_linkStart.unlinked_eq
  have hscenes := Pass.map_result_each (f := Scene.link r.contains { adventure := a.name })
    (g := (·.mapRefs .unlinked)) (fun scene =>
      Scene.Becomes.unlinked_eq ⟨_, Choice.becomes_link, rfl⟩) scenes
  rw [link, Pass.andThen]
  cases (a.linkStart r).failure with
  | some d => simp only [unlinked, hstart]
  | none => simp only [unlinked, hstart, hscenes]

end

end Gamebook
