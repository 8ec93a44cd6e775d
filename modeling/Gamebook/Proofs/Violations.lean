/-
# The first violation of a document

A check stops at what is wrong first.  A survey goes on: it lists everything that is wrong with
a value, field by field in the order in which they are declared, and depth first
(`Survey.adventure`).  The check finds the head of that list, and the path of each violation
leads to where it is (`Check.Surveyed`).

So a document is accepted if its survey lists nothing, and a diagnostic tells of what is listed
first.  The place and the names in it are those of the entries that the path goes through, and
these entries are in the document (`AdventureRecord.validate_tells_first`).
-/

import Gamebook.Proofs.Validity

namespace Gamebook

/-! ## Ways through a value -/

namespace Json

/-- The part of a value at the end of some steps. -/
def part? : List Step → Json → Option Json
  | [], v => some v
  | .member name :: steps, .object ms => (ms.lookup name).bind (part? steps)
  | .item i :: steps, .array items => items[i]?.bind (part? steps)
  | _, _ => none

/-- Steps lead to a part of a value, or to a member that an object in it does not have. -/
def Leads : List Step → Json → Prop
  | [], _ => True
  | .member name :: steps, .object ms =>
    (∃ v, ms.lookup name = some v ∧ Leads steps v) ∨ ms.lookup name = none ∧ steps = []
  | .item i :: steps, .array items => ∃ v, items[i]? = some v ∧ Leads steps v
  | _, _ => False

/-- Where steps lead through an item of a member, the item is there. -/
theorem Leads.exists_item {document : Json} {name : String} {i : Nat} {steps : List Step}
    (h : Leads (.member name :: .item i :: steps) document) :
    ∃ v, (∀ rest, part? (.member name :: .item i :: rest) document = part? rest v) ∧
      Violation.itemAt document name i = some v ∧ Leads steps v := by
  cases document with
  | object ms =>
    obtain ⟨w, hw, h⟩ | ⟨-, h⟩ := h
    · cases w with
      | array items =>
        obtain ⟨v, hv, h⟩ := h
        have hitem : Violation.itemAt (object ms) name i = some v := by
          simp [Violation.itemAt, get?, hw, items?, hv]
        exact ⟨v, fun rest => by simp [part?, hw, hv], hitem, h⟩
      | null | bool | int | float | string | object => exact h.elim
    · contradiction
  | null | bool | int | float | string | array => exact h.elim

end Json

/-! ## Surveys -/

/-- A list of everything that is wrong with a value. -/
abbrev Survey := Json → List Violation

namespace Survey

/-- Violations of a part, seen from the value that it is a part of. -/
def inside (step : Step) (vs : List Violation) : List Violation :=
  vs.map fun v => { v with path := step :: v.path }

/-- What a check finds wrong with a value that is not looked into. -/
def leaf {α : Type} (check : Check α) : Survey := fun v =>
  match check v with
  | .ok _ => []
  | .error violation => [violation]

/-- The violations of items, the first one having an index. -/
def itemsFrom (survey : Survey) : Nat → List Json → List Violation
  | _, [] => []
  | i, v :: rest => inside (.item i) (survey v) ++ itemsFrom survey (i + 1) rest

/-- The violations of a list. -/
def listOf (survey : Survey) : Survey
  | .array items => itemsFrom survey 0 items
  | _ => [{ problem := .notList }]

/-- The violations of a field that has to be present. -/
def required (ms : List (String × Json)) (name : String) (survey : Survey) : List Violation :=
  inside (.member name) <|
    match ms.lookup name with
    | some v => survey v
    | none => [{ problem := .missing }]

/-- The violations of a field that may be missing. -/
def optional (ms : List (String × Json)) (names : List String) (survey : Survey) :
    List Violation :=
  match Check.find? ms names with
  | some (name, v) => inside (.member name) (survey v)
  | none => []

/-- The violations of the paragraphs of a scene. -/
def content : Survey
  | .array [] => [{ problem := .noItem }]
  | v => listOf (leaf Check.text) v

/-- The violations of an option, field by field. -/
def option : Survey
  | .object ms => List.flatten
      [required ms "label" (leaf Check.text),
       required ms "target" (leaf Check.target),
       optional ms ["condition"] (leaf Check.condition),
       optional ms ["alwaysVisible", "always_visible"] (leaf Check.truth),
       optional ms ["actions"] (leaf Check.statements)]
  | _ => [{ problem := .notOption }]

/-- The violations of a scene, field by field. -/
def scene : Survey
  | .object ms => List.flatten
      [required ms "name" (leaf Check.name),
       required ms "title" (leaf (Check.filledText "title")),
       required ms "content" content,
       optional ms ["actions"] (leaf Check.statements),
       optional ms ["options"] (listOf option)]
  | _ => [{ problem := .notScene }]

/-- The violations of an adventure, field by field. -/
def adventure (ms : List (String × Json)) : List Violation := List.flatten
  [required ms "name" (leaf Check.name),
   required ms "title" (leaf (Check.filledText "title")),
   required ms "version" (leaf Check.version),
   optional ms ["author"] (leaf Check.textOrNull),
   optional ms ["requires"] (leaf Check.names),
   optional ms ["actions"] (leaf Check.statements),
   optional ms ["globalTop", "global_top"] (leaf Check.textOrNull),
   optional ms ["globalBottom", "global_bottom"] (leaf Check.textOrNull),
   optional ms ["startingScene", "starting_scene"] (leaf Check.startingScene),
   required ms "scenes" (listOf scene)]

end Survey

/-! ## What checks find -/

namespace Check

variable {α β : Type} {v : Json} {x : Except Violation α} {vs : List Violation}

/-- Whatever is wrong is wrong with the value itself. -/
def Plain (x : Except Violation α) : Prop := ∀ e, x = .error e → e.path = []

/-- Where nothing is wrong, nothing is wrong inside. -/
theorem plain_ok (a : α) : Plain (.ok a) := nofun

/-- A refusal is of the value itself. -/
theorem plain_refuse (problem : FieldProblem) : Plain (refuse problem : Except Violation α) := by
  intro e h
  obtain rfl := Except.error.inj h
  rfl

/-- Checks one after the other blame the value itself, if each of them does. -/
theorem Plain.bind {f : α → Except Violation β} (h : Plain x) (hf : ∀ a, Plain (f a)) :
    Plain (x >>= f) := by
  cases x with
  | ok a => exact hf a
  | error e =>
    intro e' he
    obtain rfl := Except.error.inj he
    exact h e rfl

/-- What becomes of the result of a check does not change what is wrong. -/
theorem Plain.map {f : α → β} (h : Plain x) : Plain (x.map f) := by
  cases x with
  | ok a => exact plain_ok (f a)
  | error e =>
    intro e' he
    obtain rfl := Except.error.inj he
    exact h e rfl

/-- A check for a text does not look inside. -/
theorem plain_text (v : Json) : Plain (text v) := by
  unfold text
  split
  · exact plain_ok _
  · exact plain_refuse _

/-- A check for a text or null does not look inside. -/
theorem plain_textOrNull (v : Json) : Plain (textOrNull v) := by
  unfold textOrNull
  split
  · exact plain_ok none
  · exact (plain_text _).map

/-- A check for a truth value does not look inside. -/
theorem plain_truth (v : Json) : Plain (truth v) := by
  unfold truth
  split
  · exact plain_ok _
  · exact plain_refuse _

/-- A check for a whole number does not look inside. -/
theorem plain_whole (v : Json) : Plain (whole v) := by
  unfold whole
  split
  · exact plain_ok _
  · exact plain_refuse _

/-- A check of the version does not look inside. -/
theorem plain_version (v : Json) : Plain (version v) := by
  refine (plain_whole v).bind fun n => ?_
  split
  · exact plain_ok n
  · exact plain_refuse _

/-- A check for a text that is not blank does not look inside. -/
theorem plain_filledText (field : String) (v : Json) : Plain (filledText field v) := by
  refine (plain_text v).bind fun s => ?_
  split
  · exact plain_refuse _
  · exact plain_ok s

/-- A check of a target does not look inside. -/
theorem plain_target (v : Json) : Plain (target v) :=
  (plain_filledText "target" v).bind fun s => plain_ok (Text.trim s)

/-- A check of a name does not look inside. -/
theorem plain_name (v : Json) : Plain (name v) := by
  refine (plain_text v).bind fun s => ?_
  dsimp only
  split
  · exact plain_refuse _
  · split
    · exact plain_refuse _
    · split
      · exact plain_ok _
      · exact plain_refuse _

/-- A check of a condition does not look inside. -/
theorem plain_condition (v : Json) : Plain (condition v) := by
  unfold condition
  split
  · exact plain_ok _
  · exact plain_textOrNull _

/-- A check of the starting scene does not look inside. -/
theorem plain_startingScene (v : Json) : Plain (startingScene v) := by
  unfold startingScene
  split
  · exact plain_ok _
  · exact plain_ok _
  · exact plain_text _

/-- A check of actions blames the list and never one of its items, although it reads them one by
one. -/
theorem plain_statements (v : Json) : Plain (statements v) := by
  unfold statements
  split
  · exact plain_ok _
  · exact plain_ok _
  · split
    · exact plain_ok _
    · exact plain_refuse _
  · exact plain_refuse _

/-- A check of the names that are required blames the list and never one of its items. -/
theorem plain_names (v : Json) : Plain (names v) := by
  unfold names
  split
  · exact plain_ok _
  · exact plain_ok _
  · split
    · exact plain_ok _
    · exact plain_refuse _
  · exact plain_refuse _

/-- What a check stopped at. -/
def found? : Except Violation α → Option Violation
  | .ok _ => none
  | .error v => some v

/-- Among the violations of a value a check finds the first one, and all of them are in it. -/
structure Surveyed (v : Json) (x : Except Violation α) (vs : List Violation) : Prop where
  first : found? x = vs.head?
  leads : ∀ violation ∈ vs, v.Leads violation.path

/-- A value that is accepted as it is has no violations. -/
theorem surveyed_pure (v : Json) (a : α) : Surveyed v (pure a) [] :=
  ⟨rfl, fun _ h => absurd h List.not_mem_nil⟩

/-- A refusal is the one violation of a value that is not looked into. -/
theorem surveyed_refuse (v : Json) (problem : FieldProblem) :
    Surveyed v (refuse problem : Except Violation α) [{ problem }] :=
  ⟨rfl, fun _ h => List.mem_singleton.1 h ▸ trivial⟩

/-- A check that does not look inside is surveyed by what it finds itself. -/
theorem surveyed_leaf {check : Check α} (h : ∀ v, Plain (check v)) (v : Json) :
    Surveyed v (check v) (Survey.leaf check v) := by
  unfold Survey.leaf
  cases hv : check v with
  | ok a => exact surveyed_pure v a
  | error violation =>
    refine ⟨rfl, fun violation' hmem => ?_⟩
    rw [List.mem_singleton.1 hmem, h v violation hv]
    trivial

/-- Checks that stand one behind the other find the violations of the first, and then those of
the second. -/
theorem Surveyed.bind [Inhabited α] {f : α → Except Violation β} {ws : List Violation}
    (h : Surveyed v x vs) (hf : ∀ a, Surveyed v (f a) ws) : Surveyed v (x >>= f) (vs ++ ws) := by
  refine ⟨?_, fun violation hmem => ?_⟩
  · rw [List.head?_append, ← h.first, ← (hf default).first]
    cases x with
    | ok a => exact (hf a).first.trans (hf default).first.symm
    | error e => rfl
  · exact (List.mem_append.1 hmem).elim (h.leads _) ((hf default).leads _)

/-- What is found in a part is found inside the value. -/
theorem Surveyed.within {w : Json} {step : Step} (h : Surveyed v x vs)
    (hstep : ∀ violation ∈ vs, v.Leads violation.path → w.Leads (step :: violation.path)) :
    Surveyed w (within step x) (Survey.inside step vs) := by
  constructor
  · have hfirst := congrArg (Option.map fun v => { v with path := step :: v.path }) h.first
    rw [Survey.inside, List.head?_map, ← hfirst]
    cases x <;> rfl
  · intro violation hmem
    obtain ⟨inner, hinner, rfl⟩ := List.mem_map.1 hmem
    exact hstep inner hinner (h.leads inner hinner)

variable {check : Check α} {survey : Survey}

/-- The items of a list are surveyed from any of them on. -/
theorem surveyed_itemsFrom [Inhabited α] (h : ∀ v, Surveyed v (check v) (survey v))
    (front back : List Json) :
    Surveyed (.array (front ++ back)) (itemsFrom check front.length back)
      (Survey.itemsFrom survey front.length back) := by
  -- the items in front are not surveyed, but the indices of the others are counted from them
  induction back generalizing front with
  | nil => exact surveyed_pure _ _
  | cons v back ih =>
    have hhead : Surveyed (.array (front ++ v :: back)) (within (.item front.length) (check v))
        (Survey.inside (.item front.length) (survey v)) :=
      (h v).within fun _ _ hsteps => ⟨v, by simp, hsteps⟩
    have hrest := ih (front ++ [v])
    rw [List.append_assoc, List.singleton_append, List.length_append,
      List.length_singleton] at hrest
    refine hhead.bind fun a => ?_
    rw [← List.append_nil (Survey.itemsFrom survey (front.length + 1) back)]
    exact hrest.bind fun as => surveyed_pure _ _

/-- A list is surveyed item by item, if its items are surveyed. -/
theorem surveyed_listOf [Inhabited α] (h : ∀ v, Surveyed v (check v) (survey v)) (v : Json) :
    Surveyed v (listOf check v) (Survey.listOf survey v) := by
  cases v with
  | array items => exact surveyed_itemsFrom h [] items
  | null | bool | int | float | string | object => exact surveyed_refuse _ _

variable {ms : List (String × Json)} {name : String}

/-- A field that has to be present is surveyed by its check, or by its absence. -/
theorem surveyed_required (h : ∀ v, Surveyed v (check v) (survey v)) :
    Surveyed (.object ms) (required ms name check) (Survey.required ms name survey) := by
  rw [required, Survey.required]
  cases hv : ms.lookup name with
  | none =>
    refine (surveyed_refuse .null FieldProblem.missing).within fun violation hmem _ => .inr ⟨hv, ?_⟩
    rw [List.mem_singleton.1 hmem]
  | some v => exact (h v).within fun _ _ hsteps => .inl ⟨v, hv, hsteps⟩

/-- A field that may be missing is surveyed where one of its names is present. -/
theorem surveyed_optional {names : List String} {default : α}
    (h : ∀ v, Surveyed v (check v) (survey v)) :
    Surveyed (.object ms) (optional ms names default check) (Survey.optional ms names survey) := by
  rw [optional, Survey.optional]
  cases hfind : find? ms names with
  | none => exact surveyed_pure _ _
  | some found =>
    obtain ⟨name, v⟩ := found
    have hv : ms.lookup name = some v := by
      obtain ⟨_, _, hname⟩ := List.exists_of_findSome?_eq_some hfind
      obtain ⟨w, hw, heq⟩ := Option.map_eq_some_iff.1 hname
      obtain ⟨rfl, rfl⟩ := Prod.mk.inj heq
      exact hw
    exact (h v).within fun _ _ hsteps => .inl ⟨v, hv, hsteps⟩

/-- Where there are paragraphs, only they can be wrong. -/
theorem surveyed_content (v : Json) : Surveyed v (content v) (Survey.content v) := by
  have htexts := surveyed_listOf (surveyed_leaf plain_text) v
  unfold Survey.content
  split
  · exact surveyed_refuse _ _
  · rename_i hne
    -- the paragraphs are as many as the items, so there is one
    refine ⟨?_, htexts.leads⟩
    rw [← htexts.first, content]
    cases hv : listOf text v with
    | error e => rfl
    | ok paragraphs =>
      have hnonempty : paragraphs.isEmpty = false := by
        cases v with
        | array items =>
          cases items with
          | nil => exact absurd rfl hne
          | cons item items =>
            obtain ⟨p, -, hv⟩ := Grammar.exists_of_bind_eq_ok hv
            obtain ⟨ps, -, hv⟩ := Grammar.exists_of_bind_eq_ok hv
            obtain rfl := Except.ok.inj hv
            rfl
        | null | bool | int | float | string | object => exact absurd hv (by simp [listOf, refuse])
      show found? (if paragraphs.isEmpty then refuse .noItem else pure paragraphs) = none
      rw [hnonempty]
      rfl

/-- An option is surveyed field by field. -/
theorem surveyed_option (v : Json) : Surveyed v (option v) (Survey.option v) := by
  cases v with
  | object ms =>
    rw [option, Survey.option]
    exact (surveyed_required (surveyed_leaf plain_text)).bind fun label =>
      (surveyed_required (surveyed_leaf plain_target)).bind fun target =>
      (surveyed_optional (surveyed_leaf plain_condition)).bind fun condition =>
      (surveyed_optional (surveyed_leaf plain_truth)).bind fun alwaysVisible =>
      (surveyed_optional (surveyed_leaf plain_statements)).bind fun actions => surveyed_pure _ _
  | null | bool | int | float | string | array => exact surveyed_refuse _ _

/-- A scene is surveyed field by field, its options among them. -/
theorem surveyed_scene (v : Json) : Surveyed v (scene v) (Survey.scene v) := by
  cases v with
  | object ms =>
    rw [scene, Survey.scene]
    exact (surveyed_required (surveyed_leaf plain_name)).bind fun name =>
      (surveyed_required (surveyed_leaf (plain_filledText "title"))).bind fun title =>
      (surveyed_required surveyed_content).bind fun content =>
      (surveyed_optional (surveyed_leaf plain_statements)).bind fun actions =>
      (surveyed_optional (surveyed_listOf surveyed_option)).bind fun options => surveyed_pure _ _
  | null | bool | int | float | string | array => exact surveyed_refuse _ _

/-- **The check of an adventure finds what its survey lists first.** -/
theorem surveyed_adventure (ms : List (String × Json)) :
    Surveyed (.object ms) (adventure ms) (Survey.adventure ms) := by
  rw [adventure, Survey.adventure]
  exact (surveyed_required (surveyed_leaf plain_name)).bind fun name =>
    (surveyed_required (surveyed_leaf (plain_filledText "title"))).bind fun title =>
    (surveyed_required (surveyed_leaf plain_version)).bind fun version =>
    (surveyed_optional (surveyed_leaf plain_textOrNull)).bind fun author =>
    (surveyed_optional (surveyed_leaf plain_names)).bind fun requires =>
    (surveyed_optional (surveyed_leaf plain_statements)).bind fun actions =>
    (surveyed_optional (surveyed_leaf plain_textOrNull)).bind fun globalTop =>
    (surveyed_optional (surveyed_leaf plain_textOrNull)).bind fun globalBottom =>
    (surveyed_optional (surveyed_leaf plain_startingScene)).bind fun startingScene =>
    (surveyed_required (surveyed_listOf surveyed_scene)).bind fun scenes => surveyed_pure _ _

end Check

/-! ## Diagnostics -/

namespace Violation

/-- The way to a scene of a document. -/
def toScene (i : Nat) : List Step := [.member "scenes", .item i]

/-- The way to an option of a scene. -/
def toOption (i j : Nat) : List Step := toScene i ++ [.member "options", .item j]

/-- A violation is in a scene if it is the scene, or lies inside. -/
def InScene (v : Violation) (i : Nat) : Prop := toScene i <+: v.path

/-- A violation is in an option if it is the option, or lies inside. -/
def InOption (v : Violation) (i j : Nat) : Prop := toOption i j <+: v.path

/-- A record goes by a text with characters, if it has that as its name, and by another name
otherwise. -/
def GoesBy (own : Option Json) (otherwise tag : String) : Prop :=
  (∃ s, own = some (.string s) ∧ s ≠ "" ∧ tag = s) ∨
    (∀ s, own = some (.string s) → s = "") ∧ tag = otherwise

/-- A record goes by its own name if it has one with characters, and by the other name if not. -/
theorem goesBy_nameOr (otherwise : String) (own : Option Json) :
    GoesBy own otherwise (nameOr otherwise own) := by
  unfold nameOr
  split
  · rename_i s
    split
    · rename_i hs
      exact .inr ⟨fun t ht => by simpa [hs] using ht.symm, rfl⟩
    · rename_i hs
      exact .inl ⟨s, rfl, hs, rfl⟩
  · rename_i hother
    exact .inr ⟨fun s hs => absurd hs (hother s), rfl⟩

/-- A diagnostic tells of a violation of a document: what is wrong, in which record, and by
which names the records around it go. -/
structure ToldBy (v : Violation) (document : Json) (d : Diagnostic) : Prop where
  cause : d.cause = .field (field v.path) v.problem
  option : d.place = .option ↔ ∃ i j, v.InOption i j
  scene : d.place = .scene ↔ (∃ i, v.InScene i) ∧ ¬∃ i j, v.InOption i j
  adventure : d.place = .adventure ↔ ¬∃ i, v.InScene i
  adventureTag : GoesBy (document.get? "name") "unknown" d.context.adventure
  sceneTag : ∀ i, v.InScene i → ∃ scene, document.part? (toScene i) = some scene ∧
    GoesBy (scene.get? "name") ("#" ++ toString i) d.context.scene
  optionTag : ∀ i j, v.InOption i j → ∃ option, document.part? (toOption i j) = some option ∧
    GoesBy (option.get? "label") ("#" ++ toString j) d.context.option
  noScene : (¬∃ i, v.InScene i) → d.context.scene = ""
  noOption : (¬∃ i j, v.InOption i j) → d.context.option = ""
  noIdentifier : d.context.identifier = .string ""

variable {v : Violation} {document : Json} {i i' j j' : Nat}

/-- A violation is in one scene only. -/
theorem InScene.unique (h : v.InScene i) (h' : v.InScene i') : i = i' := by
  have heq : toScene i = toScene i' :=
    (List.prefix_of_prefix_length_le h h' le_rfl).eq_of_length rfl
  simpa [toScene] using heq

/-- A violation is in one option only. -/
theorem InOption.unique (h : v.InOption i j) (h' : v.InOption i' j') : i = i' ∧ j = j' := by
  have heq : toOption i j = toOption i' j' :=
    (List.prefix_of_prefix_length_le h h' le_rfl).eq_of_length rfl
  simpa [toOption, toScene] using heq

/-- What is in an option is in the scene of the option. -/
theorem InOption.inScene (h : v.InOption i j) : v.InScene i := (List.prefix_append _ _).trans h

/-- A violation that is in no scene is told of the adventure. -/
theorem toldBy_of_not_inScene (h : ¬∃ i, v.InScene i) :
    v.ToldBy document (diagnose document v) := by
  have hoption : ¬∃ i j, v.InOption i j := fun ⟨i, j, hin⟩ => h ⟨i, hin.inScene⟩
  have hlocate : locate document v.path =
      (.adventure, { adventure := nameOr "unknown" (document.get? "name") }) := by
    unfold locate
    split
    · rename_i i inside hpath
      exact absurd ⟨i, inside, hpath.symm⟩ h
    · rfl
  rw [diagnose, hlocate]
  exact {
    cause := rfl
    option := by simp [hoption]
    scene := by simp [h]
    adventure := by simp [h]
    adventureTag := goesBy_nameOr _ _
    sceneTag := fun i hin => absurd ⟨i, hin⟩ h
    optionTag := fun i j hin => absurd ⟨i, j, hin⟩ hoption
    noScene := fun _ => rfl
    noOption := fun _ => rfl
    noIdentifier := rfl }

/-- A violation that is in a scene, but in no option, is told of the scene. -/
theorem toldBy_of_inScene (hin : v.InScene i) (hlead : document.Leads v.path)
    (h : ¬∃ i j, v.InOption i j) : v.ToldBy document (diagnose document v) := by
  obtain ⟨inside, hpath⟩ := id hin
  obtain ⟨scene, hpart, hitem, -⟩ := Json.Leads.exists_item (hpath ▸ hlead)
  have hlocate : locate document v.path =
      (.scene, { adventure := nameOr "unknown" (document.get? "name"),
                 scene := nameOr ("#" ++ toString i) (scene.get? "name") }) := by
    rw [← hpath]
    simp only [toScene, List.cons_append, List.nil_append, locate]
    split
    · rename_i j rest
      exact absurd ⟨i, j, rest, hpath⟩ h
    · rw [hitem]
      rfl
  rw [diagnose, hlocate]
  exact {
    cause := rfl
    option := by simp [h]
    scene := by simp [h, show ∃ i, v.InScene i from ⟨i, hin⟩]
    adventure := by simp [show ∃ i, v.InScene i from ⟨i, hin⟩]
    adventureTag := goesBy_nameOr _ _
    sceneTag := fun i' hin' => by
      obtain rfl := hin.unique hin'
      exact ⟨scene, hpart [], goesBy_nameOr _ _⟩
    optionTag := fun i j hin => absurd ⟨i, j, hin⟩ h
    noScene := fun hnone => absurd ⟨i, hin⟩ hnone
    noOption := fun _ => rfl
    noIdentifier := rfl }

/-- A violation that is in an option is told of the option. -/
theorem toldBy_of_inOption (hin : v.InOption i j) (hlead : document.Leads v.path) :
    v.ToldBy document (diagnose document v) := by
  have hscene : ∃ i, v.InScene i := ⟨i, hin.inScene⟩
  have hoption : ∃ i j, v.InOption i j := ⟨i, j, hin⟩
  obtain ⟨inside, hpath⟩ := id hin
  obtain ⟨scene, hpart, hitem, hlead⟩ := Json.Leads.exists_item (hpath ▸ hlead)
  obtain ⟨option, hpart', hitem', -⟩ := Json.Leads.exists_item hlead
  have hpartOption : document.part? (toOption i j) = some option :=
    (hpart [.member "options", .item j]).trans (hpart' [])
  have hlocate : locate document v.path =
      (.option, { adventure := nameOr "unknown" (document.get? "name"),
                  scene := nameOr ("#" ++ toString i) (scene.get? "name"),
                  option := nameOr ("#" ++ toString j) (option.get? "label") }) := by
    rw [← hpath]
    simp only [toOption, toScene, List.cons_append, List.nil_append, locate, hitem,
      Option.bind_some, hitem']
  rw [diagnose, hlocate]
  exact {
    cause := rfl
    option := by simp [hoption]
    scene := by simp [hoption]
    adventure := by simp [hscene]
    adventureTag := goesBy_nameOr _ _
    sceneTag := fun i' hin' => by
      obtain rfl := hin.inScene.unique hin'
      exact ⟨scene, hpart [], goesBy_nameOr _ _⟩
    optionTag := fun i' j' hin' => by
      obtain ⟨rfl, rfl⟩ := hin.unique hin'
      exact ⟨option, hpartOption, goesBy_nameOr _ _⟩
    noScene := fun hnone => absurd hscene hnone
    noOption := fun hnone => absurd hoption hnone
    noIdentifier := rfl }

/-- A diagnostic tells where a violation is, if it is in the document. -/
theorem toldBy_diagnose (h : document.Leads v.path) : v.ToldBy document (diagnose document v) := by
  by_cases hoption : ∃ i j, v.InOption i j
  · obtain ⟨i, j, hin⟩ := hoption
    exact toldBy_of_inOption hin h
  · by_cases hscene : ∃ i, v.InScene i
    · obtain ⟨i, hin⟩ := hscene
      exact toldBy_of_inScene hin h hoption
    · exact toldBy_of_not_inScene hscene

end Violation

/-- **The first violation is told, where it is.**  An object is validated if nothing is wrong with
it.  Otherwise the diagnostic is about the first violation, in the order in which fields are
declared and depth first.  It stands at the option that this violation is in, else at the scene,
else at the adventure.  The scene and the option are in the document, and have their names in the
diagnostic, or their indices if they have none. -/
theorem AdventureRecord.validate_tells_first (ms : List (String × Json)) :
    ((∃ r, validate (.object ms) = .ok r) ↔ Survey.adventure ms = []) ∧
    ∀ d, validate (.object ms) = .error d →
      ∃ v rest, Survey.adventure ms = v :: rest ∧ v.ToldBy (.object ms) d := by
  obtain ⟨hfirst, hleads⟩ := Check.surveyed_adventure ms
  rw [validate]
  cases hms : Check.adventure ms with
  | ok r =>
    rw [hms] at hfirst
    have hnone : Survey.adventure ms = [] := List.head?_eq_none_iff.1 hfirst.symm
    refine ⟨⟨fun _ => hnone, fun _ => ⟨r, rfl⟩⟩, fun d hd => ?_⟩
    contradiction
  | error v =>
    rw [hms] at hfirst
    obtain ⟨rest, hrest⟩ := List.head?_eq_some_iff.1 hfirst.symm
    have hv : (Json.object ms).Leads v.path := hleads v (hrest ▸ List.mem_cons_self ..)
    refine ⟨⟨fun haccepted => ?_, fun hnone => ?_⟩, fun d hd => ?_⟩
    · obtain ⟨r, hr⟩ := haccepted
      contradiction
    · rw [hrest] at hnone
      contradiction
    · obtain rfl := Except.error.inj hd
      exact ⟨v, rest, hrest, Violation.toldBy_diagnose hv⟩

/-- The label of an option is empty and its target is no text, and there is more that is wrong
behind it.  The option goes by its index, and its scene by its name. -/
theorem AdventureRecord.validate_tells_first_unlabelled :
    let option : Json := .object [("label", .string ""), ("target", .int 3)]
    let scene : Json := .object
      [("name", .string "start"), ("title", .string "S"), ("content", .ofTexts ["s"]),
       ("options", .array [option, .null])]
    let ms : List (String × Json) :=
      [("name", .string "a"), ("title", .string "T"), ("version", .int 1),
       ("scenes", .array [scene, .object []])]
    let d : Diagnostic := ⟨.option, .field "target" .notText, ⟨"a", "start", "#0", .string ""⟩⟩
    validate (.object ms) = .error d ∧
      ∃ v rest, Survey.adventure ms = v :: rest ∧ rest.length = 4 ∧ v.InOption 0 0 ∧
        v.ToldBy (.object ms) d := by
  intro option scene ms d
  have hd : validate (.object ms) = .error d := by rfl
  obtain ⟨v, rest, hfirst, htold⟩ := (validate_tells_first ms).2 d hd
  have hsurvey : (Survey.adventure ms).length = 5 := by rfl
  have hhead : (Survey.adventure ms).head? =
      some ⟨Violation.toOption 0 0 ++ [.member "target"], .notText⟩ := by rfl
  rw [hfirst] at hsurvey hhead
  obtain rfl := Option.some.inj hhead
  exact ⟨hd, _, rest, hfirst, Nat.succ.inj hsurvey, ⟨_, rfl⟩, htold⟩

end Gamebook
