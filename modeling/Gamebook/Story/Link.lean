/-
# Linking

Linking replaces unresolved references by resolved ones: for each adventure in
turn its starting scene, then the targets of the choices, scene by scene.  A
reference to a scene that is not registered stops the pass with a diagnostic;
what was resolved before stays resolved, and what comes after stays as it was.
Resolved references are left alone, so passing twice does no harm.
-/

import Gamebook.Story.Registry

namespace Gamebook

/-- Where a pass ends: what it made, how many references it resolved, and what
stopped it, if something did. -/
structure Pass (α : Type) where
  result : α
  resolved : Nat := 0
  failure : Option Diagnostic := none

/-- Adventures with the registry of their scenes. -/
structure Story where
  adventures : List Adventure := []
  registry : Registry := {}

namespace Choice

/-- Link choices in order, `known` being the registered scenes. -/
def link (known : Identifier → Bool) (c : Context) : List Choice → Pass (List Choice)
  | [] => ⟨[], 0, none⟩
  | ch :: rest =>
    match ch.target with
    | .resolved _ =>
      let p := link known c rest
      { p with result := ch :: p.result }
    | .unresolved i =>
      if known i then
        let p := link known c rest
        let ch := { ch with target := .resolved i }
        { p with result := ch :: p.result, resolved := p.resolved + 1 }
      else
        let c := { c with option := tagOf ch.label.source, identifier := .string i.canonical }
        ⟨ch :: rest, 0, some ⟨.option, .unknownScene i.canonical, c⟩⟩

end Choice

namespace Registry

/-- Link the choices of scenes in order. -/
def link (c : Context) : List Identifier → Registry → Pass Registry
  | [], r => ⟨r, 0, none⟩
  | i :: rest, r =>
    match r.find? i with
    | none => link c rest r
    | some scene =>
      let p := Choice.link r.contains { c with scene := i.name } scene.choices
      let r := r.setChoices i p.result
      match p.failure with
      | some d => ⟨r, p.resolved, some d⟩
      | none =>
        let q := link c rest r
        { q with resolved := p.resolved + q.resolved }

end Registry

namespace Adventure

/-- Link the starting scene of an adventure. -/
def linkStart (a : Adventure) (r : Registry) : Pass Adventure :=
  match a.start with
  | .resolved _ => ⟨a, 0, none⟩
  | .unresolved i =>
    if r.contains i then ⟨{ a with start := .resolved i }, 1, none⟩
    else
      let c : Context := { adventure := a.name, identifier := .string i.canonical }
      ⟨a, 0, some ⟨.adventure, .unknownScene i.canonical, c⟩⟩

/-- Link an adventure and its scenes. -/
def link (a : Adventure) (r : Registry) : Pass (Adventure × Registry) :=
  let p := a.linkStart r
  match p.failure with
  | some d => ⟨(p.result, r), p.resolved, some d⟩
  | none =>
    let q := Registry.link { adventure := a.name } a.scenes r
    ⟨(p.result, q.result), p.resolved + q.resolved, q.failure⟩

/-- The choices of an adventure, scene by scene. -/
def choices (a : Adventure) (r : Registry) : List Choice :=
  (a.scenes.filterMap r.find?).flatMap (·.choices)

/-- The references of an adventure that are unresolved: the starting scene, shown
without a choice, and the choices. -/
def unresolved (a : Adventure) (r : Registry) : List (Option Choice × Identifier) :=
  let start := if a.start.isResolved then [] else [(none, a.start.identifier)]
  let loose := (a.choices r).filter fun c => !c.target.isResolved
  start ++ loose.map fun c => (some c, c.target.identifier)

/-- Whether every reference of an adventure is resolved. -/
def isLinked (a : Adventure) (r : Registry) : Bool :=
  a.start.isResolved && (a.choices r).all fun c => c.target.isResolved

end Adventure

namespace Story

/-- Link the adventures at some positions, in the order given. -/
def linkAt : List Nat → Story → Pass Story
  | [], s => ⟨s, 0, none⟩
  | k :: rest, s =>
    match s.adventures[k]? with
    | none => linkAt rest s
    | some a =>
      let p := a.link s.registry
      let s : Story := ⟨s.adventures.set k p.result.1, p.result.2⟩
      match p.failure with
      | some d => ⟨s, p.resolved, some d⟩
      | none =>
        let q := linkAt rest s
        { q with resolved := p.resolved + q.resolved }

/-- Link all adventures. -/
def link (s : Story) : Pass Story := s.linkAt (List.range s.adventures.length)

/-- The unresolved references of the adventures at some positions. -/
def unresolvedAt (s : Story) (positions : List Nat) :
    List (Adventure × Option Choice × Identifier) :=
  positions.flatMap fun k =>
    match s.adventures[k]? with
    | none => []
    | some a => (a.unresolved s.registry).map fun u => (a, u)

/-- The unresolved references of all adventures. -/
def unresolved (s : Story) : List (Adventure × Option Choice × Identifier) :=
  s.unresolvedAt (List.range s.adventures.length)

/-- Whether every reference of every adventure is resolved. -/
def isLinked (s : Story) : Bool := s.adventures.all fun a => a.isLinked s.registry

/-- The adventure with a name. -/
def find? (s : Story) (name : String) : Option Adventure :=
  s.adventures.find? fun a => a.name = name

end Story
end Gamebook
