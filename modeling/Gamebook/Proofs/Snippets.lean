/-
# The first text that fails

The texts of a document are compiled one by one, from the outside in: first those of the
adventure, then scene by scene those of the scene, and after them option by option those of
the option (`AdventureRecord.snippets`).  Each of them stands at a spot, in the adventure, in
one of its scenes or in an option of a scene, and the compiler comes to it in the context of
the spot, whatever it compiled before (`Compile.Walks`).

The identifier that was read last is forgotten where a record begins, and nowhere else
(`AdventureRecord.legs`).  So the context of a text holds, besides its spot, the name that was
read last by the texts of the same record, up to the first that fails (`Compile.Goes`).

| spot | innermost record | scene | option |
| --- | --- | --- | --- |
| `adventure` | adventure | | |
| `scene s` | scene | `s` | |
| `option s l` | option | `s` | `l`, or `(unlabelled)` |

So a document that is not compiled is refused with what is wrong with the first text that
fails by itself, in the context of the spot of this text
(`Registry.assembleDocument_blames_first`).
-/

import Gamebook.Proofs.Building
import Gamebook.Proofs.Pointing
import Gamebook.Proofs.Recognising

namespace Gamebook

/-! ## The texts of a document -/

/-- Where in an adventure a text stands. -/
inductive Spot where
  | adventure
  | scene (name : String)
  | option (scene label : String)

namespace Spot

/-- The innermost record around a spot. -/
def record : Spot → Place
  | adventure => .adventure
  | scene _ => .scene
  | option .. => .option

/-- The context at a spot, before an identifier is read. -/
def context (name : String) : Spot → Context
  | adventure => { adventure := name }
  | scene s => { adventure := name, scene := s }
  | option s label =>
    { adventure := name, scene := s, option := if label = "" then "(unlabelled)" else label }

/-- A context is one of a spot, whatever was read there. -/
def Holds (name : String) (spot : Spot) (c : Context) : Prop :=
  ∃ raw, c = (spot.context name).visit raw

end Spot

/-- A context is one of a scene, in whatever option of it. -/
def Context.InScene (name scene : String) (c : Context) : Prop :=
  c.adventure = name ∧ c.scene = scene

/-- A context is one of an adventure, in whatever scene of it. -/
def Context.InAdventure (name : String) (c : Context) : Prop := c.adventure = name

/-- What a text is compiled to. -/
inductive SnippetKind where
  | template
  | reference
  | condition
  | action

/-- A text that is compiled, with the spot where it stands. -/
structure Snippet where
  kind : SnippetKind
  text : String
  spot : Spot

namespace Snippet

/-- Compile a text by itself. -/
def compile (scope : String) (s : Snippet) : Compile Unit := do
  match s.kind with
  | .template => let _ ← Template.compileText scope s.text
  | .reference => let _ ← Identifier.resolve scope (.string s.text)
  | .condition => let _ ← Condition.compileText scope s.text
  | .action => let _ ← Action.compile scope s.text

/-- What is wrong with a text by itself. -/
def failure? (scope : String) (s : Snippet) : Option Cause :=
  match (s.compile scope).run {} with
  | .ok _ => none
  | .error d => some d.cause

/-- The name that a text reads last, if it reads one. -/
def last? (scope : String) (s : Snippet) : Option String :=
  match (s.compile scope).run { identifier := .null } with
  | .ok (_, c) => c.identifier.string?
  | .error d => d.context.identifier.string?

/-- The first of some texts that fails, and what is wrong with it. -/
def first? (scope : String) (ss : List Snippet) : Option (Snippet × Cause) :=
  ss.findSome? fun s => (s.failure? scope).map (s, ·)

variable {scope : String} {s : Snippet} {ss : List Snippet} {cause : Cause}

/-- No text fails first just if none fails. -/
theorem first?_eq_none_iff : first? scope ss = none ↔ ∀ s ∈ ss, s.failure? scope = none := by
  simp [first?]

/-- What fails first is a text that fails, behind texts that do not. -/
theorem exists_of_first? (h : first? scope ss = some (s, cause)) :
    ∃ before after, ss = before ++ s :: after ∧ (∀ t ∈ before, t.failure? scope = none) ∧
      s.failure? scope = some cause := by
  obtain ⟨before, found, after, rfl, hfound, hbefore⟩ := List.findSome?_eq_some_iff.1 h
  obtain ⟨cause', hcause, hpair⟩ := Option.map_eq_some_iff.1 hfound
  obtain ⟨rfl, rfl⟩ := Prod.mk.inj hpair
  refine ⟨before, after, rfl, fun t ht => ?_, hcause⟩
  exact Option.map_eq_none_iff.1 (hbefore t ht)

end Snippet

/-- The statements of actions at a spot. -/
def Spot.actions (spot : Spot) (texts : List String) : List Snippet :=
  (Action.statements texts).map (⟨.action, ·, spot⟩)

/-- A text at a spot that may be missing; an empty one is missing. -/
def Spot.optional (spot : Spot) (kind : SnippetKind) (source : Option String) : List Snippet :=
  (filled? source).toList.map (⟨kind, ·, spot⟩)

/-- The texts of an option of a scene, in the order in which they are compiled. -/
def OptionRecord.snippets (scene : String) (r : OptionRecord) : List Snippet :=
  let spot := Spot.option scene r.label
  ⟨.template, r.label, spot⟩ :: ⟨.reference, r.target, spot⟩ ::
    (spot.optional .condition r.condition ++ spot.actions r.actions)

/-- The texts of a scene, in the order in which they are compiled. -/
def SceneRecord.snippets (r : SceneRecord) : List Snippet :=
  let spot := Spot.scene r.name
  ⟨.template, r.title, spot⟩ :: (r.content.map (⟨.template, ·, spot⟩) ++
    (spot.actions r.actions ++ r.options.flatMap (OptionRecord.snippets r.name)))

/-- The texts of an adventure, in the order in which they are compiled. -/
def AdventureRecord.snippets (r : AdventureRecord) : List Snippet :=
  let spot := Spot.adventure
  ⟨.template, r.title, spot⟩ :: ⟨.reference, r.startingScene, spot⟩ ::
    (spot.optional .template r.author ++ (spot.actions r.actions ++
      (spot.optional .template r.globalTop ++ (spot.optional .template r.globalBottom ++
        r.scenes.flatMap SceneRecord.snippets))))

/-! ## Legs of a compilation -/

/-- What the compiler comes to: a record, where the identifier that was read last is forgotten,
or a text that is compiled. -/
inductive Leg where
  | record
  | text (s : Snippet)

namespace Leg

/-- The text of a leg. -/
def snippet? : Leg → Option Snippet
  | record => none
  | text s => some s

/-- The texts of legs, in order. -/
def snippets (legs : List Leg) : List Snippet := legs.filterMap snippet?

/-- The identifier in the context behind some legs, or at the first text of them that fails. -/
def leave (name : String) (raw : Json) : List Leg → Json
  | [] => raw
  | record :: rest => leave name (.string "") rest
  | text s :: rest =>
    let next := (s.last? name).elim raw .string
    if (s.failure? name).isSome then next else leave name next rest

variable {name : String} {before after : List Leg} {s : Snippet}

/-- A record has no text of its own. -/
@[simp] theorem snippets_record (legs : List Leg) :
    snippets (record :: legs) = snippets legs := rfl

/-- The text of a leg comes before those of the legs behind it. -/
@[simp] theorem snippets_text (s : Snippet) (legs : List Leg) :
    snippets (text s :: legs) = s :: snippets legs := rfl

/-- Legs in a row have their texts in a row. -/
@[simp] theorem snippets_append (before after : List Leg) :
    snippets (before ++ after) = snippets before ++ snippets after :=
  List.filterMap_append

/-- Legs that are made of texts have these texts. -/
@[simp] theorem snippets_map_text (ss : List Snippet) : snippets (ss.map text) = ss := by
  induction ss with
  | nil => rfl
  | cons s ss ih => rw [List.map_cons, snippets_text, ih]

/-- If what is made of each element has its texts, what is made of all has all of them in order. -/
theorem snippets_flatMap {ι : Type} {of : ι → List Leg} {texts : ι → List Snippet}
    (h : ∀ i, snippets (of i) = texts i) (is : List ι) :
    snippets (is.flatMap of) = is.flatMap texts := by
  induction is with
  | nil => rfl
  | cons i is ih => rw [List.flatMap_cons, List.flatMap_cons, snippets_append, h, ih]

/-- The first text that fails is the one in front, or else the first one behind it. -/
theorem first?_text (legs : List Leg) :
    Snippet.first? name (snippets (text s :: legs)) =
      ((s.failure? name).map (s, ·)).or (Snippet.first? name (snippets legs)) := by
  rw [snippets_text, Snippet.first?, List.findSome?_cons]
  cases s.failure? name <;> rfl

/-- Legs that all go through hand the identifier that they leave to the legs behind them. -/
theorem leave_append_of_none (h : Snippet.first? name (snippets before) = none) (raw : Json)
    (after : List Leg) :
    leave name raw (before ++ after) = leave name (leave name raw before) after := by
  induction before generalizing raw with
  | nil => rfl
  | cons leg before ih =>
    cases leg with
    | record => exact ih h _
    | text s =>
      rw [first?_text, Option.or_eq_none_iff, Option.map_eq_none_iff] at h
      simp only [List.cons_append, leave, h.1, Option.isSome_none, Bool.false_eq_true, if_false]
      exact ih h.2 _

/-- Legs behind a text that fails are not come to, so they do not change what is left. -/
theorem leave_append_of_some {found : Snippet × Cause}
    (h : Snippet.first? name (snippets before) = some found) (raw : Json) (after : List Leg) :
    leave name raw (before ++ after) = leave name raw before := by
  induction before generalizing raw with
  | nil => contradiction
  | cons leg before ih =>
    cases leg with
    | record => exact ih h _
    | text s =>
      rw [first?_text] at h
      cases hs : s.failure? name with
      | some cause => simp [leave, hs]
      | none =>
        rw [hs] at h
        simp only [List.cons_append, leave, hs, Option.isSome_none, Bool.false_eq_true, if_false]
        exact ih h _

end Leg

/-- The legs of an option of a scene. -/
def OptionRecord.legs (scene : String) (r : OptionRecord) : List Leg :=
  .record :: (r.snippets scene).map .text

/-- The texts of a scene outside its options, in the order in which they are compiled. -/
def SceneRecord.texts (r : SceneRecord) : List Snippet :=
  let spot := Spot.scene r.name
  ⟨.template, r.title, spot⟩ :: (r.content.map (⟨.template, ·, spot⟩) ++ spot.actions r.actions)

/-- The legs of a scene and of its options. -/
def SceneRecord.legs (r : SceneRecord) : List Leg :=
  .record :: (r.texts.map .text ++ r.options.flatMap (OptionRecord.legs r.name))

/-- The texts of an adventure outside its scenes, in the order in which they are compiled. -/
def AdventureRecord.texts (r : AdventureRecord) : List Snippet :=
  let spot := Spot.adventure
  ⟨.template, r.title, spot⟩ :: ⟨.reference, r.startingScene, spot⟩ ::
    (spot.optional .template r.author ++ (spot.actions r.actions ++
      (spot.optional .template r.globalTop ++ spot.optional .template r.globalBottom)))

/-- The legs of an adventure and of its scenes; the identifier is forgotten between them too. -/
def AdventureRecord.legs (r : AdventureRecord) : List Leg :=
  .record :: (r.texts.map .text ++ .record :: r.scenes.flatMap SceneRecord.legs)

/-- The legs of an option have the texts of the option. -/
theorem OptionRecord.snippets_legs (scene : String) (r : OptionRecord) :
    Leg.snippets (r.legs scene) = r.snippets scene :=
  Leg.snippets_map_text _

/-- The legs of a scene have the texts of the scene, those of its options behind its own. -/
theorem SceneRecord.snippets_legs (r : SceneRecord) : Leg.snippets r.legs = r.snippets := by
  rw [legs, Leg.snippets_record, Leg.snippets_append, Leg.snippets_map_text,
    Leg.snippets_flatMap (OptionRecord.snippets_legs r.name)]
  simp [texts, snippets]

/-- The legs of an adventure have the texts of the adventure, those of its scenes behind its own. -/
theorem AdventureRecord.snippets_legs (r : AdventureRecord) :
    Leg.snippets r.legs = r.snippets := by
  rw [legs, Leg.snippets_record, Leg.snippets_append, Leg.snippets_map_text,
    Leg.snippets_record, Leg.snippets_flatMap SceneRecord.snippets_legs]
  simp [texts, snippets]

/-! ## Going through texts -/

namespace Compile

variable {α β ι : Type} {x : Compile α} {f : α → Compile β} {P Q R : Context → Prop}
  {name : String} {before after : List Leg}

/-- From the contexts with one property a computation goes through some texts to contexts
with another one, or stops at the first of them that fails, in the context of its spot. -/
def Walks (name : String) (x : Compile α) (P : Context → Prop) (ss : List Snippet)
    (Q : Context → Prop) : Prop :=
  ∀ c, P c → match Snippet.first? name ss with
    | none => ∃ a c', x.run c = .ok (a, c') ∧ Q c'
    | some (s, cause) => ∃ raw, x.run c = ((s.spot.context name).visit raw).tell (.error cause)

/-- A computation goes through the texts of legs, and the identifier that it leaves in the
context is the one that the legs leave there. -/
def Goes (name : String) (x : Compile α) (P : Context → Prop) (legs : List Leg)
    (Q : Context → Prop) : Prop :=
  ∀ c, P c → match Snippet.first? name (Leg.snippets legs) with
    | none => ∃ a c', x.run c = .ok (a, c') ∧ Q c' ∧
        c'.identifier = Leg.leave name c.identifier legs
    | some (s, cause) =>
      x.run c = ((s.spot.context name).visit (Leg.leave name c.identifier legs)).tell
        (.error cause)

/-- What goes through legs walks through their texts. -/
theorem Goes.walks {legs : List Leg} (h : Goes name x P legs Q) :
    Walks name x P (Leg.snippets legs) Q := by
  intro c hc
  have hgoes := h c hc
  cases hfirst : Snippet.first? name (Leg.snippets legs) with
  | none =>
    rw [hfirst] at hgoes
    obtain ⟨a, c', hrun, hc', -⟩ := hgoes
    exact ⟨a, c', hrun, hc'⟩
  | some found =>
    rw [hfirst] at hgoes
    exact ⟨_, hgoes⟩

/-- A computation with a result goes through no legs. -/
theorem goes_pure (a : α) : Goes name (pure a : Compile α) P [] P :=
  fun c hc => ⟨a, c, rfl, hc, rfl⟩

/-- To move in the document is no leg if the identifier is kept. -/
theorem goes_modify {move : Context → Context} (h : ∀ c, P c → Q (move c))
    (hkept : ∀ c, (move c).identifier = c.identifier) :
    Goes name (modify move : Compile PUnit) P [] Q :=
  fun c hc => ⟨⟨⟩, move c, rfl, h c hc, hkept c⟩

/-- A record begins where the identifier is forgotten. -/
theorem goes_record {move : Context → Context} (h : ∀ c, P c → Q (move c))
    (hforgotten : ∀ c, (move c).identifier = .string "") :
    Goes name (modify move : Compile PUnit) P [.record] Q :=
  fun c hc => ⟨⟨⟩, move c, rfl, h c hc, hforgotten c⟩

/-- A result that is there goes through no legs. -/
theorem goes_ofExcept {r : Except Diagnostic α} {a : α} (h : r = .ok a) :
    Goes name (ofExcept r) P [] P := by
  subst h
  exact fun c hc => ⟨a, c, rfl, hc, rfl⟩

/-- What holds where a computation arrives may be weakened. -/
theorem Goes.imp {legs : List Leg} (h : Goes name x P legs Q) (hQ : ∀ c, Q c → R c) :
    Goes name x P legs R := by
  intro c hc
  have hgoes := h c hc
  cases hfirst : Snippet.first? name (Leg.snippets legs) with
  | none =>
    rw [hfirst] at hgoes
    obtain ⟨a, c', hrun, hc', hleave⟩ := hgoes
    exact ⟨a, c', hrun, hQ c' hc', hleave⟩
  | some found =>
    rw [hfirst] at hgoes
    exact hgoes

/-- Legs are gone through one after the other. -/
theorem Goes.bind (hx : Goes name x P before Q) (hf : ∀ a, Goes name (f a) Q after R) :
    Goes name (x >>= f) P (before ++ after) R := by
  intro c hc
  have hgoes := hx c hc
  have happend : Snippet.first? name (Leg.snippets (before ++ after)) =
      (Snippet.first? name (Leg.snippets before)).or
        (Snippet.first? name (Leg.snippets after)) := by
    rw [Leg.snippets_append, Snippet.first?, List.findSome?_append]
    rfl
  rw [happend]
  cases hfirst : Snippet.first? name (Leg.snippets before) with
  | none =>
    rw [hfirst] at hgoes
    obtain ⟨a, c', hrun, hc', hleave⟩ := hgoes
    rw [Option.none_or, run_bind_of_ok hrun, Leg.leave_append_of_none hfirst, ← hleave]
    exact hf a c' hc'
  | some found =>
    rw [hfirst] at hgoes
    rw [Option.some_or, Leg.leave_append_of_some hfirst]
    exact run_bind_of_error hgoes

/-- No more legs are gone through at the end. -/
theorem Goes.bind_nil (hx : Goes name x P before Q) (hf : ∀ a, Goes name (f a) Q [] R) :
    Goes name (x >>= f) P before R := by
  simpa using hx.bind hf

/-- What is done with the result of a computation without compiling adds no legs. -/
theorem Goes.bind_pure {f : α → β} (h : Goes name x P before Q) :
    Goes name (x >>= fun a => pure (f a)) P before Q :=
  h.bind_nil fun a => goes_pure (f a)

/-- Computations one by one go through their legs in order, if each arrives where the next
starts. -/
theorem goes_mapM {g : ι → Compile α} {is : List ι} {of : ι → List Leg}
    (h : ∀ i ∈ is, Goes name (g i) P (of i) P) :
    Goes name (is.mapM g) P (is.flatMap of) P := by
  induction is with
  | nil => exact goes_pure []
  | cons i is ih =>
    rw [List.mapM_cons, List.flatMap_cons]
    obtain ⟨hi, his⟩ := List.forall_mem_cons.1 h
    exact hi.bind fun a => (ih his).bind_pure

variable {s : Snippet} {spot : Spot}

/-- What is wrong where there is no result. -/
def cause? : Except Cause α → Option Cause
  | .ok _ => none
  | .error cause => some cause

/-- What is wrong with a text by itself, and the name that it reads last, are what its
compilation comes to in every context. -/
theorem Leaves.of_compile {last : Option String} {r : Except Cause α}
    (hx : Leaves (fun _ => x) last r) (hs : s.compile name = x >>= fun _ => pure ()) :
    s.last? name = last ∧ s.failure? name = cause? r := by
  have hempty := hx {} {} rfl
  have hnull := hx { identifier := .null } { identifier := .null } rfl
  have hstring : (Context.revisit { identifier := .null } last).identifier.string? = last := by
    cases last <;> rfl
  cases r with
  | ok a =>
    rw [Snippet.last?, Snippet.failure?, hs, run_bind_of_ok hempty, run_bind_of_ok hnull]
    exact ⟨hstring, rfl⟩
  | error cause =>
    rw [Snippet.last?, Snippet.failure?, hs, run_bind_of_error hempty, run_bind_of_error hnull]
    exact ⟨hstring, rfl⟩

/-- A text is gone through by compiling it. -/
theorem Reads.goes {T : String → Prop} {S : α → Prop} (hx : Reads T (fun _ => x) S)
    (hs : s.compile name = x >>= fun _ => pure ()) :
    Goes name x (s.spot.Holds name) [.text s] (s.spot.Holds name) := by
  obtain ⟨last, r, hleaves, -, -⟩ := hx
  obtain ⟨rfl, hfailure⟩ := hleaves.of_compile hs
  rintro c ⟨raw, rfl⟩
  have hrun := hleaves ((s.spot.context name).visit raw) _ rfl
  rw [Context.revisit_eq_visit] at hrun
  rw [Leg.first?_text, hfailure]
  cases r with
  | ok a =>
    refine ⟨a, _, hrun, ⟨_, rfl⟩, ?_⟩
    rw [Leg.leave, hfailure]
    rfl
  | error cause =>
    have hleave : Leg.leave name ((s.spot.context name).visit raw).identifier [.text s] =
        (s.last? name).elim raw .string := by
      rw [Leg.leave, hfailure]
      rfl
    rw [hleave]
    exact hrun

/-- Compiling a template goes through its text. -/
theorem goes_template (text : String) (spot : Spot) :
    Goes name (Template.compileText name text) (spot.Holds name) [.text ⟨.template, text, spot⟩]
      (spot.Holds name) :=
  (Template.reads_compileText name text).goes (s := ⟨.template, text, spot⟩) rfl

/-- Resolving an identifier goes through its text. -/
theorem goes_reference (text : String) (spot : Spot) :
    Goes name (Identifier.resolve name (.string text)) (spot.Holds name)
      [.text ⟨.reference, text, spot⟩] (spot.Holds name) := by
  have hreads : Reads (fun _ => True) (fun _ => Identifier.resolve name (.string text))
      fun _ => True := Identifier.reads_resolve trivial
  exact hreads.goes (s := ⟨.reference, text, spot⟩) rfl

/-- Compiling a condition goes through its text. -/
theorem goes_condition (text : String) (spot : Spot) :
    Goes name (Condition.compileText name text) (spot.Holds name)
      [.text ⟨.condition, text, spot⟩] (spot.Holds name) :=
  (Condition.reads_compileText name text).goes (s := ⟨.condition, text, spot⟩) rfl

/-- Texts that are compiled one by one at a spot are gone through in order. -/
theorem goes_texts {g : String → Compile α} {kind : SnippetKind}
    (h : ∀ text, Goes name (g text) (spot.Holds name) [.text ⟨kind, text, spot⟩]
      (spot.Holds name)) (texts : List String) :
    Goes name (texts.mapM g) (spot.Holds name) ((texts.map (⟨kind, ·, spot⟩)).map .text)
      (spot.Holds name) := by
  rw [List.map_map, List.map_eq_flatMap]
  exact goes_mapM fun text _ => h text

/-- Compiling actions goes through their statements in order. -/
theorem goes_actions (texts : List String) (spot : Spot) :
    Goes name (Action.compileAll name texts) (spot.Holds name) ((spot.actions texts).map .text)
      (spot.Holds name) := by
  refine goes_texts (fun text => ?_) _
  exact (Action.reads_compile name text).goes (s := ⟨.action, text, spot⟩) rfl

/-- A text that may be missing is gone through if it is there. -/
theorem goes_optional {g : String → Compile α} {kind : SnippetKind}
    (h : ∀ text, Goes name (g text) (spot.Holds name) [.text ⟨kind, text, spot⟩]
      (spot.Holds name)) (source : Option String) :
    Goes name (ofFilled g source) (spot.Holds name) ((spot.optional kind source).map .text)
      (spot.Holds name) := by
  unfold ofFilled Spot.optional
  cases filled? source with
  | none => exact goes_pure none
  | some text => exact (h text).bind_pure

end Compile

open Compile

variable {name : String}

/-- An option is gone through, in whatever option of its scene the compiler was before. -/
theorem Choice.goes_assemble (scene : String) (r : OptionRecord) :
    Goes name (assemble name r) (Context.InScene name scene) (r.legs scene)
      (Context.InScene name scene) := by
  have henter : Goes name
      (modify fun c => { c with option := tagOf r.label, identifier := .string "" } : Compile PUnit)
      (Context.InScene name scene) [.record] ((Spot.option scene r.label).Holds name) := by
    refine goes_record ?_ fun c => rfl
    rintro ⟨_, _, _, _⟩ ⟨rfl, rfl⟩
    exact ⟨_, rfl⟩
  rw [OptionRecord.legs, OptionRecord.snippets, List.map_cons, List.map_cons, List.map_append]
  refine henter.bind fun _ => ?_
  refine (goes_template r.label _).bind fun label => ?_
  refine (goes_reference r.target _).bind fun target => ?_
  refine (goes_optional (fun text => goes_condition text _) r.condition).bind fun condition => ?_
  refine ((goes_actions r.actions _).imp ?_).bind_pure
  rintro _ ⟨raw, rfl⟩
  exact ⟨rfl, rfl⟩

/-- A scene is gone through, in whatever scene the compiler was before. -/
theorem Scene.goes_assemble (header footer : Option Template) {r : SceneRecord}
    {i : Identifier} (hi : Identifier.ofParts (.string name) (.string r.name) = .ok i) :
    Goes name (assemble name header footer r) (Context.InAdventure name) r.legs
      (Context.InAdventure name) := by
  have henter : Goes name (modify fun c =>
        { c with scene := r.name, option := "", identifier := .string "" } : Compile PUnit)
      (Context.InAdventure name) [.record] ((Spot.scene r.name).Holds name) := by
    refine goes_record ?_ fun c => rfl
    rintro ⟨_, _, _, _⟩ rfl
    exact ⟨_, rfl⟩
  have hactions : Goes name (Action.compileAll name r.actions) ((Spot.scene r.name).Holds name)
      (((Spot.scene r.name).actions r.actions).map .text) (Context.InScene name r.name) := by
    refine (goes_actions r.actions _).imp ?_
    rintro _ ⟨raw, rfl⟩
    exact ⟨rfl, rfl⟩
  have hleave : Goes name (modify fun c => { c with option := "" } : Compile PUnit)
      (Context.InScene name r.name) [] (Context.InAdventure name) :=
    goes_modify (fun c hc => hc.1) fun c => rfl
  rw [SceneRecord.legs, SceneRecord.texts, List.map_cons, List.map_append, List.cons_append,
    List.append_assoc]
  refine henter.bind fun _ => ?_
  refine (goes_ofExcept hi).bind fun identifier => ?_
  refine (goes_template r.title _).bind fun title => ?_
  refine (goes_texts (fun text => goes_template text _) r.content).bind fun content => ?_
  refine hactions.bind fun actions => ?_
  refine (goes_mapM fun o _ => Choice.goes_assemble r.name o).bind_nil fun choices => ?_
  exact hleave.bind_pure

/-- **An adventure is gone through leg by leg.** -/
theorem Adventure.goes_compile {r : AdventureRecord} (h : ∀ scene ∈ r.scenes, ∃ i,
      Identifier.ofParts (.string r.name) (.string scene.name) = .ok i) :
    ∃ legs, r.legs = .record :: legs ∧
      Goes r.name (compile r) (Spot.adventure.Holds r.name) legs
        (Context.InAdventure r.name) := by
  have hleave : Goes r.name (modify fun c => { c with identifier := .string "" } : Compile PUnit)
      (Spot.adventure.Holds r.name) [.record] (Context.InAdventure r.name) := by
    refine goes_record ?_ fun c => rfl
    rintro _ ⟨raw, rfl⟩
    rfl
  have hoptional (source : Option String) :
      Goes r.name (compileOptional r.name source) (Spot.adventure.Holds r.name)
        ((Spot.adventure.optional .template source).map .text) (Spot.adventure.Holds r.name) :=
    goes_optional (fun text => goes_template text _) source
  refine ⟨_, rfl, ?_⟩
  rw [AdventureRecord.texts]
  simp only [List.map_cons, List.map_append, List.cons_append, List.append_assoc]
  refine (goes_template r.title _).bind fun title => ?_
  refine (goes_reference r.startingScene _).bind fun start => ?_
  refine (hoptional r.author).bind fun author => ?_
  refine (goes_actions r.actions _).bind fun actions => ?_
  refine (hoptional r.globalTop).bind fun header => ?_
  refine (hoptional r.globalBottom).bind fun footer => ?_
  refine hleave.bind fun _ => ?_
  refine Goes.bind_pure (goes_mapM fun scene hscene => ?_)
  obtain ⟨i, hi⟩ := h scene hscene
  exact Scene.goes_assemble header footer hi

/-- **An adventure is gone through text by text.** -/
theorem Adventure.walks_compile {r : AdventureRecord} (h : ∀ scene ∈ r.scenes, ∃ i,
      Identifier.ofParts (.string r.name) (.string scene.name) = .ok i) :
    Walks r.name (compile r) (Spot.adventure.Holds r.name) r.snippets
      (Context.InAdventure r.name) := by
  obtain ⟨legs, hlegs, hgoes⟩ := goes_compile h
  have hsnippets : Leg.snippets legs = r.snippets := by
    rw [← AdventureRecord.snippets_legs, hlegs, Leg.snippets_record]
  exact hsnippets ▸ hgoes.walks

/-! ## The innermost record -/

/-- The innermost record in the context of a spot is the record of the spot, if scenes have
names. -/
theorem Spot.innermost_context {spot : Spot} (h : ∀ scene, spot = .scene scene → scene ≠ "") :
    (spot.context name).innermost = spot.record := by
  cases spot with
  | adventure => rfl
  | scene s => simp [Context.innermost, context, record, h s rfl]
  | option s label =>
    have hlabel : (if label = "" then "(unlabelled)" else label) ≠ "" := by
      split
      · decide
      · assumption
    simp [Context.innermost, context, record, hlabel]

/-- The statements of actions at a spot stand at that spot. -/
theorem Spot.eq_of_mem_actions {spot : Spot} {texts : List String} {s : Snippet}
    (h : s ∈ spot.actions texts) : s.spot = spot := by
  obtain ⟨text, -, rfl⟩ := List.mem_map.1 h
  rfl

/-- A text that may be missing stands at the spot where it is looked for. -/
theorem Spot.eq_of_mem_optional {spot : Spot} {kind : SnippetKind} {source : Option String}
    {s : Snippet} (h : s ∈ spot.optional kind source) : s.spot = spot := by
  obtain ⟨text, -, rfl⟩ := List.mem_map.1 h
  rfl

/-- The texts of an option stand at the option. -/
theorem OptionRecord.spot_of_mem {scene : String} {r : OptionRecord} {s : Snippet}
    (h : s ∈ r.snippets scene) : s.spot = .option scene r.label := by
  simp only [snippets, List.mem_cons, List.mem_append] at h
  rcases h with rfl | rfl | h | h
  · rfl
  · rfl
  · exact Spot.eq_of_mem_optional h
  · exact Spot.eq_of_mem_actions h

/-- The texts of a scene stand at the scene or at one of its options. -/
theorem SceneRecord.spot_of_mem {r : SceneRecord} {s : Snippet} (h : s ∈ r.snippets) :
    s.spot = .scene r.name ∨ ∃ o ∈ r.options, s.spot = .option r.name o.label := by
  simp only [snippets, List.mem_cons, List.mem_append, List.mem_map, List.mem_flatMap] at h
  rcases h with rfl | ⟨text, -, rfl⟩ | h | ⟨o, ho, h⟩
  · exact .inl rfl
  · exact .inl rfl
  · exact .inl (Spot.eq_of_mem_actions h)
  · exact .inr ⟨o, ho, OptionRecord.spot_of_mem h⟩

/-- A text stands in the adventure, in one of its scenes or in an option of one. -/
theorem AdventureRecord.spot_of_mem {r : AdventureRecord} {s : Snippet} (h : s ∈ r.snippets) :
    s.spot = .adventure ∨ ∃ scene ∈ r.scenes,
      s.spot = .scene scene.name ∨ ∃ o ∈ scene.options, s.spot = .option scene.name o.label := by
  simp only [snippets, List.mem_cons, List.mem_append, List.mem_flatMap] at h
  rcases h with rfl | rfl | h | h | h | h | ⟨scene, hscene, h⟩
  · exact .inl rfl
  · exact .inl rfl
  · exact .inl (Spot.eq_of_mem_optional h)
  · exact .inl (Spot.eq_of_mem_actions h)
  · exact .inl (Spot.eq_of_mem_optional h)
  · exact .inl (Spot.eq_of_mem_optional h)
  · exact .inr ⟨scene, hscene, SceneRecord.spot_of_mem h⟩

/-- Two words are the parts of an identifier. -/
theorem Identifier.exists_ofParts {own name : String} (hown : isWord own.toList = true)
    (hname : isWord name.toList = true) :
    ∃ i, ofParts (.string own) (.string name) = .ok i := by
  have hsegment {s : String} (hs : isWord s.toList = true) : isSegment s = true :=
    isSegmentChars_iff.2 ⟨⟨s.toList, hs⟩, .inl rfl⟩
  exact ⟨⟨own, name, hsegment hown, hsegment hname⟩, ofParts_eq_ok.2 ⟨rfl, rfl⟩⟩

/-- In a valid record the innermost record of a text is the one that its spot is in. -/
theorem AdventureRecord.IsValid.innermost_context {r : AdventureRecord} (h : r.IsValid)
    {s : Snippet} (hs : s ∈ r.snippets) : (s.spot.context r.name).innermost = s.spot.record := by
  refine Spot.innermost_context fun n hn => ?_
  rintro rfl
  rcases AdventureRecord.spot_of_mem hs with hspot | ⟨scene, hscene, hspot | ⟨o, -, hspot⟩⟩
  · exact absurd (hspot.symm.trans hn) nofun
  · have hname : scene.name = "" := Spot.scene.inj (hspot.symm.trans hn)
    have hword := (h.scenes scene hscene).name
    rw [hname] at hword
    contradiction
  · exact absurd (hspot.symm.trans hn) nofun

/-- **A document that does not compile is refused for the first text that fails.**  The cause
is what is wrong with this text by itself, the context is that of its spot, and the diagnostic
stands at an identifier if the cause is one of identifiers, and at the innermost record if it
is another one.  Where no text fails a build stops at most at a scene with the identifier of
another one. -/
theorem Registry.assembleDocument_blames_first (registry : Registry) (document : Json)
    (r : AdventureRecord) (h : AdventureRecord.validate document = .ok r) :
    ((∃ s ∈ r.snippets, s.failure? r.name ≠ none) →
      ∃ before s after cause raw, r.snippets = before ++ s :: after ∧
        (∀ t ∈ before, t.failure? r.name = none) ∧ s.failure? r.name = some cause ∧
        registry.assembleDocument document =
          .error ⟨if cause.family = .identifier then .identifier else s.spot.record, cause,
            (s.spot.context r.name).visit raw⟩) ∧
    ((∀ s ∈ r.snippets, s.failure? r.name = none) →
      ∀ d, registry.assembleDocument document = .error d → ∃ i, d.cause = .repeatedScene i) := by
  obtain ⟨-, hvalid⟩ := AdventureRecord.of_validate h
  have hassemble : registry.assembleDocument document = registry.assemble r := by
    rw [assembleDocument, h]
    rfl
  have hwalk := Adventure.walks_compile
    (fun scene hscene => Identifier.exists_ofParts hvalid.name (hvalid.scenes scene hscene).name)
    { adventure := r.name } ⟨.string "", rfl⟩
  rw [hassemble, assemble]
  constructor
  · rintro ⟨s, hs, hfails⟩
    cases hfirst : Snippet.first? r.name r.snippets with
    | none => exact absurd (Snippet.first?_eq_none_iff.1 hfirst s hs) hfails
    | some found =>
      obtain ⟨s, cause⟩ := found
      rw [hfirst] at hwalk
      obtain ⟨raw, hrun⟩ := hwalk
      obtain ⟨before, after, hsnippets, hbefore, hcause⟩ := Snippet.exists_of_first? hfirst
      have hs : s ∈ r.snippets := by simp [hsnippets]
      refine ⟨before, s, after, cause, raw, hsnippets, hbefore, hcause, ?_⟩
      rw [← hvalid.innermost_context hs]
      dsimp only
      rw [hrun]
      rfl
  · intro hnone d hd
    rw [Snippet.first?_eq_none_iff.2 hnone] at hwalk
    obtain ⟨⟨a, scenes⟩, c, hrun, -⟩ := hwalk
    dsimp only at hd
    rw [hrun] at hd
    have hafter : (registry.registerAll { adventure := r.name } scenes >>= fun registered =>
        pure (a, registered)) = .error d := hd
    rcases bind_eq_error_iff.1 hafter with hregister | ⟨registered, -, hpure⟩
    · rw [registerAll_eq] at hregister
      split at hregister
      · obtain rfl := Except.error.inj hregister
        exact ⟨_, rfl⟩
      · contradiction
    · contradiction

/-- A document with an option that has no label, and a target with two colons in it. -/
def Json.misdirected : Json :=
  .object
    [("name", .string "a"), ("title", .string "A"), ("version", .int 1),
     ("scenes", .array
       [.object
         [("name", .string "start"), ("title", .string "S"), ("content", .ofTexts ["$\x7bx\x7d"]),
          ("options", .array [.object [("label", .string ""), ("target", .string "b:c:d")]])]])]

/-- The target with two colons is what fails, so the refusal names the scene `start` and an option
without a label. -/
theorem Registry.assembleDocument_blames_first_misdirected :
    ∃ r before s after cause raw, AdventureRecord.validate .misdirected = .ok r ∧
      r.snippets = before ++ s :: after ∧ s.failure? r.name = some cause ∧
      assembleDocument ⟨[]⟩ .misdirected =
        .error ⟨.identifier, cause, (s.spot.context r.name).visit raw⟩ ∧
      (s.spot.context r.name).scene = "start" ∧
      (s.spot.context r.name).option = "(unlabelled)" := by
  have hfails : ((AdventureRecord.validate .misdirected).toOption.any fun r =>
      r.snippets.any fun s => (s.failure? r.name).isSome) = true := by
    decide +kernel
  have hshown : (match assembleDocument ⟨[]⟩ .misdirected with
      | .ok _ => none
      | .error d => some (d.place, d.context.scene, d.context.option)) =
        some (.identifier, "start", "(unlabelled)") := by
    decide +kernel
  obtain ⟨r, hr, hfails⟩ := (Option.any_eq_true ..).1 hfails
  obtain ⟨s, hs, hfails⟩ := List.any_eq_true.1 hfails
  rw [toOption_eq_some] at hr
  obtain ⟨before, s, after, cause, raw, hsnippets, -, hcause, herror⟩ :=
    (assembleDocument_blames_first ⟨[]⟩ .misdirected r hr).1
      ⟨s, hs, Option.isSome_iff_ne_none.1 hfails⟩
  simp only [herror, Option.some.injEq, Prod.mk.injEq] at hshown
  obtain ⟨hplace, hscene, hoption⟩ := hshown
  rw [hplace] at herror
  exact ⟨r, before, s, after, cause, raw, hr, hsnippets, hcause, herror, hscene, hoption⟩

end Gamebook
