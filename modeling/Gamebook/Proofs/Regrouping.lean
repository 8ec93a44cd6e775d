/-
# Statements that are grouped in another way

Statements can be written in one text, with a separator behind each, or in a text each.  It
makes no difference: a separator parts the statements before it from those behind it, so a
text has the statements of the texts that it is put together from (`Gathers`), and several
texts have the statements of each, one text after the other.

An adventure is compiled from its statements only.  Two documents that differ in how the
statements of a record are given, be it the adventure, a scene or an option
(`SameDocument`), are assembled to the same adventure, or refused for the same reason
(`Action.Script.statements_regroup`).
-/

import Gamebook.Proofs.Reloading

namespace Gamebook

/-! ## Statements of texts -/

namespace Action

/-- A statement has characters of the text. -/
theorem subset_of_mem_splitChars {cs piece : List Char} (h : piece ∈ splitChars cs) :
    piece ⊆ cs := by
  obtain ⟨whole, hwhole, rfl⟩ := List.mem_map.1 (List.mem_of_mem_filter h)
  exact fun c hc => Text.subset_of_mem_splitOnP hwhole (List.mem_of_mem_filter hc)

/-- A separator parts statements. -/
theorem splitChars_append_cons {c : Char} (h : isSeparator c = true) (before after : List Char) :
    splitChars (before ++ c :: after) = splitChars before ++ splitChars after := by
  rw [splitChars, List.splitOnP_append_cons _ _ h, List.map_append, List.filter_append]
  rfl

/-- The statements of some texts come before those of the texts behind them. -/
theorem statements_append (ts us : List String) :
    statements (ts ++ us) = statements ts ++ statements us := List.flatMap_append ..

/-- A text with a separator in it has the statements of the texts on its sides. -/
theorem statements_separated {c : Char} (h : isSeparator c = true) (a b : String) :
    statements [a ++ c.toString ++ b] = statements [a, b] := by
  have hchars : (a ++ c.toString ++ b).toList = a.toList ++ c :: b.toList := by
    simp [String.toList_append, Char.toString]
  simp only [statements, List.flatMap_cons, List.flatMap_nil, List.append_nil, hchars,
    splitChars_append_cons h, List.map_append]

/-- A blank text has no statements. -/
theorem statements_of_isBlankText {t : String} (h : Text.isBlankText t = true) :
    statements [t] = [] := by
  refine List.eq_nil_iff_forall_not_mem.2 fun s hs => ?_
  obtain ⟨u, hu, hpiece⟩ := exists_of_mem_statements hs
  obtain rfl := List.mem_singleton.1 hu
  obtain ⟨hsolid, -, hne⟩ := of_mem_splitChars hpiece
  obtain ⟨c, rest, hcs⟩ := List.exists_cons_of_ne_nil hne
  have hc : c ∈ s.toList := hcs ▸ List.mem_cons_self ..
  have hblank : Text.isBlank c = true := List.all_eq_true.1 h c (subset_of_mem_splitChars hpiece hc)
  exact absurd hblank (by simp [hsolid c hc])

/-- Blank texts can be left out. -/
theorem statements_filter (ts : List String) :
    statements (ts.filter fun t => !Text.isBlankText t) = statements ts := by
  induction ts with
  | nil => rfl
  | cons t ts ih =>
    have hcons : statements (t :: ts) = statements [t] ++ statements ts := statements_append [t] ts
    cases ht : Text.isBlankText t with
    | true => simp [ht, ih, hcons, statements_of_isBlankText ht]
    | false =>
      have hfilter : (t :: ts).filter (fun t => !Text.isBlankText t) =
          [t] ++ ts.filter fun t => !Text.isBlankText t := by simp [ht]
      rw [hfilter, statements_append, ih, hcons]

/-- A text that some texts are written in, in their order and with separators between them.
There may be more separators, and blanks between those. -/
inductive Gathers : List String → String → Prop
  | blank {t : String} (h : Text.isBlankText t = true) : Gathers [] t
  | single (t : String) : Gathers [t] t
  | separated {ts us : List String} {t u : String} {c : Char} (h : isSeparator c = true)
      (ht : Gathers ts t) (hu : Gathers us u) : Gathers (ts ++ us) (t ++ c.toString ++ u)

/-- **A text has the statements of the texts that are written in it.** -/
theorem Gathers.statements_eq {ts : List String} {t : String} (h : Gathers ts t) :
    statements [t] = statements ts := by
  induction h with
  | blank h => exact statements_of_isBlankText h
  | single t => rfl
  | @separated ts us t u c h _ _ iht ihu =>
    calc statements [t ++ c.toString ++ u]
      _ = statements ([t] ++ [u]) := statements_separated h t u
      _ = statements (ts ++ us) := by rw [statements_append, iht, ihu, statements_append]

/-- Texts have the statements of those that are written in them. -/
theorem statements_of_gathers {groups : List (List String)} {ts : List String}
    (h : List.Forall₂ Gathers groups ts) : statements ts = statements groups.flatten := by
  induction h with
  | nil => rfl
  | @cons group t groups ts hgroup _ ih =>
    calc statements ([t] ++ ts)
      _ = statements (group ++ groups.flatten) := by
        rw [statements_append, hgroup.statements_eq, ih, statements_append]

end Action

/-! ## Records -/

/-- The option with each statement in a text of its own. -/
def OptionRecord.apart (r : OptionRecord) : OptionRecord :=
  { r with actions := Action.statements r.actions }

/-- The scene with each statement in a text of its own, and its options alike. -/
def SceneRecord.apart (r : SceneRecord) : SceneRecord :=
  { r with actions := Action.statements r.actions, options := r.options.map OptionRecord.apart }

/-- The adventure with each statement in a text of its own, and its scenes alike. -/
def AdventureRecord.apart (r : AdventureRecord) : AdventureRecord :=
  { r with actions := Action.statements r.actions, scenes := r.scenes.map SceneRecord.apart }

/-- Statements in texts of their own are compiled to the same actions. -/
theorem Action.compileAll_statements (scope : String) (texts : List String) :
    compileAll scope (statements texts) = compileAll scope texts := by
  rw [compileAll, statements_statements, compileAll]

/-- An option with its statements apart is compiled to the same choice. -/
theorem Choice.assemble_apart (scope : String) (r : OptionRecord) :
    assemble scope r.apart = assemble scope r := by
  simp only [assemble, OptionRecord.apart, Action.compileAll_statements]

/-- A scene with its statements apart is compiled to the same scene. -/
theorem Scene.assemble_apart (scope : String) (header footer : Option Template)
    (r : SceneRecord) : assemble scope header footer r.apart = assemble scope header footer r := by
  simp only [assemble, SceneRecord.apart, Action.compileAll_statements, List.mapM_map,
    Function.comp_def, Choice.assemble_apart]

/-- **An adventure is compiled from its statements**, in however many texts they are. -/
theorem Adventure.compile_apart (r : AdventureRecord) : compile r.apart = compile r := by
  simp only [compile, AdventureRecord.apart, Action.compileAll_statements, List.mapM_map,
    Function.comp_def, Scene.assemble_apart]

/-- An adventure with its statements apart is assembled to the same adventure and registered
alike. -/
theorem Registry.assemble_apart (registry : Registry) (r : AdventureRecord) :
    registry.assemble r.apart = registry.assemble r := by
  rw [assemble, Adventure.compile_apart, assemble]
  rfl

/-! ## Documents -/

/-- The statements that a member of an object gives, if it can give some. -/
def Action.Script.ofMember? : Option Json → Option Action.Script
  | none | some .null => some .nothing
  | some (.string s) => some (.text s)
  | some (.array items) => (Check.texts? items).map .texts
  | some _ => none

/-- Members with the same value, or with lists whose items are related one by one. -/
inductive SameMember (item : Json → Json → Prop) : Option Json → Option Json → Prop
  | equal (v : Option Json) : SameMember item v v
  | items {vs ws : List Json} (h : List.Forall₂ item vs ws) :
      SameMember item (some (.array vs)) (some (.array ws))

/-- The same value, or objects whose actions have the same statements, and whose other members
are the same but for the items of lists. -/
inductive SameRecord (item : String → Json → Json → Prop) : Json → Json → Prop
  | equal (v : Json) : SameRecord item v v
  | members {ms ms' : List (String × Json)} {s s' : Action.Script}
      (hs : Action.Script.ofMember? (ms.lookup "actions") = some s)
      (hs' : Action.Script.ofMember? (ms'.lookup "actions") = some s')
      (hsame : s.statements = s'.statements)
      (hothers : ∀ name, name ≠ "actions" →
        SameMember (item name) (ms.lookup name) (ms'.lookup name)) :
      SameRecord item (.object ms) (.object ms')

/-- The same option but for how its statements are given. -/
abbrev SameOption : Json → Json → Prop := SameRecord fun _ _ _ => False

/-- The same scene but for how its statements and those of its options are given. -/
abbrev SameScene : Json → Json → Prop :=
  SameRecord fun name v w => name = "options" ∧ SameOption v w

/-- The same document but for how its statements and those of its scenes are given. -/
abbrev SameDocument : Json → Json → Prop :=
  SameRecord fun name v w => name = "scenes" ∧ SameScene v w

/-- Members whose items cannot be related are related only if they are the same. -/
theorem SameMember.eq {item : Json → Json → Prop} {v w : Option Json} (h : SameMember item v w)
    (hitem : ∀ v w, ¬item v w) : v = w := by
  cases h with
  | equal => rfl
  | items h =>
    cases h with
    | nil => rfl
    | cons h _ => exact absurd h (hitem _ _)

namespace Check

variable {α β : Type} {ms ms' : List (String × Json)}

/-- A field depends on its own member. -/
theorem required_congr {name : String} (h : ms.lookup name = ms'.lookup name) (check : Check α) :
    required ms name check = required ms' name check := by
  rw [required, h, required]

/-- A field depends on the members under its names. -/
theorem optional_congr {names : List String} (h : ∀ name ∈ names, ms.lookup name = ms'.lookup name)
    (default : α) (check : Check α) :
    optional ms names default check = optional ms' names default check := by
  have hfind : find? ms names = find? ms' names := by
    induction names with
    | nil => rfl
    | cons name names ih =>
      obtain ⟨hname, hnames⟩ := List.forall_mem_cons.1 h
      simp only [find?, List.findSome?_cons, hname] at ih ⊢
      rw [ih hnames]
  rw [optional, hfind, optional]

/-- Actions are taken as they are given, but for texts without statements. -/
theorem exists_of_ofMember? {s : Action.Script}
    (h : Action.Script.ofMember? (ms.lookup "actions") = some s) :
    ∃ texts, optional ms ["actions"] [] statements = .ok texts ∧
      Action.statements texts = s.statements := by
  rw [Action.Script.statements_eq]
  cases hv : ms.lookup "actions" with
  | none =>
    rw [hv] at h
    obtain rfl := Option.some.inj h
    exact ⟨[], by simp [optional, find?, hv], rfl⟩
  | some v =>
    suffices hv : ∃ texts, statements v = .ok texts ∧
        Action.statements texts = Action.statements s.chunks by
      obtain ⟨texts, htexts, hsame⟩ := hv
      exact ⟨texts, optional_of_lookup ‹_› htexts, hsame⟩
    rw [hv] at h
    cases v with
    | null =>
      obtain rfl := Option.some.inj h
      exact ⟨[], rfl, rfl⟩
    | string t =>
      obtain rfl := Option.some.inj h
      refine ⟨_, rfl, ?_⟩
      split
      · rename_i hblank
        exact (Action.statements_of_isBlankText hblank).symm
      · rfl
    | array items =>
      obtain ⟨ss, hss, rfl⟩ := Option.map_eq_some_iff.1 h
      exact ⟨_, by rw [statements, hss], Action.statements_filter ss⟩
    | bool | int | float | object => contradiction

/-- What becomes of a value inside another one does not change where a violation is. -/
theorem map_within (f : α → β) (step : Step) (x : Except Violation α) :
    f <$> within step x = within step (f <$> x) := by
  cases x <;> rfl

variable {check : Check α} {item : Json → Json → Prop} {f : α → β}

/-- What is left of lists is related if what is left of their items is. -/
theorem map_listOf (hitem : ∀ v w, item v w → f <$> check v = f <$> check w) {vs ws : List Json}
    (h : List.Forall₂ item vs ws) :
    List.map f <$> listOf check (.array vs) = List.map f <$> listOf check (.array ws) := by
  have push (i : Nat) (v : Json) (vs : List Json) :
      List.map f <$> itemsFrom check i (v :: vs) = do
        let y ← within (.item i) (f <$> check v)
        let ys ← List.map f <$> itemsFrom check (i + 1) vs
        return y :: ys := by
    simp only [itemsFrom, map_bind, map_pure, ← map_within, bind_map_left, List.map_cons]
  suffices hfrom : ∀ i, List.map f <$> itemsFrom check i vs = List.map f <$> itemsFrom check i ws by
    exact hfrom 0
  induction h with
  | nil => exact fun i => rfl
  | cons hhead _ ih =>
    intro i
    rw [push, push, hitem _ _ hhead, ih]

/-- A field with lists whose items are checked alike is checked alike, if it has to be present. -/
theorem map_required {name : String} (h : SameMember item (ms.lookup name) (ms'.lookup name))
    (hitem : ∀ v w, item v w → f <$> check v = f <$> check w) :
    List.map f <$> required ms name (listOf check) =
      List.map f <$> required ms' name (listOf check) := by
  rw [required, required, map_within, map_within]
  generalize ms.lookup name = v at h ⊢
  generalize ms'.lookup name = w at h ⊢
  cases h with
  | equal => rfl
  | items h => exact congrArg (within _) (map_listOf hitem h)

/-- A field with lists whose items are checked alike is checked alike, if it may be missing. -/
theorem map_optional {name : String} (h : SameMember item (ms.lookup name) (ms'.lookup name))
    (hitem : ∀ v w, item v w → f <$> check v = f <$> check w) :
    List.map f <$> optional ms [name] [] (listOf check) =
      List.map f <$> optional ms' [name] [] (listOf check) := by
  simp only [optional, find?, List.findSome?_cons, List.findSome?_nil]
  generalize ms.lookup name = v at h ⊢
  generalize ms'.lookup name = w at h ⊢
  cases h with
  | equal => rfl
  | items h =>
    simp only [Option.map_some, map_within]
    exact congrArg (within _) (map_listOf hitem h)

/-- What is made of images is the same if these are. -/
theorem bind_eq_of_map {f : α → β} {x x' : Except Violation α} (h : f <$> x = f <$> x')
    {γ : Type} (k : β → Except Violation γ) :
    (x >>= fun a => k (f a)) = x' >>= fun a => k (f a) := by
  rw [← bind_map_left, h, bind_map_left]

/-- Actions that are given in two ways are checked to texts with the same statements. -/
theorem exists_actions {s s' : Action.Script}
    (hs : Action.Script.ofMember? (ms.lookup "actions") = some s)
    (hs' : Action.Script.ofMember? (ms'.lookup "actions") = some s')
    (hsame : s.statements = s'.statements) :
    ∃ texts texts', optional ms ["actions"] [] statements = .ok texts ∧
      optional ms' ["actions"] [] statements = .ok texts' ∧
      Action.statements texts = Action.statements texts' := by
  obtain ⟨texts, htexts, hstatements⟩ := exists_of_ofMember? hs
  obtain ⟨texts', htexts', hstatements'⟩ := exists_of_ofMember? hs'
  exact ⟨texts, texts', htexts, htexts', hstatements.trans (hsame.trans hstatements'.symm)⟩

/-- The same options are checked alike. -/
theorem map_apart_option {v w : Json} (h : SameOption v w) :
    OptionRecord.apart <$> option v = OptionRecord.apart <$> option w := by
  cases h with
  | equal => rfl
  | @members ms ms' s s' hs hs' hsame hothers =>
    have hfield (name : String) (hname : name ≠ "actions") : ms.lookup name = ms'.lookup name :=
      (hothers name hname).eq fun _ _ => id
    obtain ⟨texts, texts', htexts, htexts', hactions⟩ := exists_actions hs hs' hsame
    have hvisible : ∀ name ∈ ["alwaysVisible", "always_visible"],
        ms.lookup name = ms'.lookup name :=
      fun name hname => hfield name (by rintro rfl; simp at hname)
    rw [option, option, required_congr (hfield "label" (by decide)),
      required_congr (hfield "target" (by decide)),
      optional_congr (List.forall_mem_singleton.2 (hfield "condition" (by decide))),
      optional_congr hvisible, htexts, htexts']
    simp only [map_bind, map_pure]
    refine bind_congr fun label => bind_congr fun target => bind_congr fun condition =>
      bind_congr fun alwaysVisible => ?_
    have hrecord : OptionRecord.apart ⟨label, target, condition, alwaysVisible, texts⟩ =
        OptionRecord.apart ⟨label, target, condition, alwaysVisible, texts'⟩ := by
      simp only [OptionRecord.apart, hactions]
    exact congrArg Except.ok hrecord

/-- The same scenes are checked alike. -/
theorem map_apart_scene {v w : Json} (h : SameScene v w) :
    SceneRecord.apart <$> scene v = SceneRecord.apart <$> scene w := by
  cases h with
  | equal => rfl
  | @members ms ms' s s' hs hs' hsame hothers =>
    have hfield (name : String) (hname : name ≠ "actions") (hlist : name ≠ "options") :
        ms.lookup name = ms'.lookup name :=
      (hothers name hname).eq fun _ _ h => hlist h.1
    obtain ⟨texts, texts', htexts, htexts', hactions⟩ := exists_actions hs hs' hsame
    have hoptions : List.map OptionRecord.apart <$> optional ms ["options"] [] (listOf option) =
        List.map OptionRecord.apart <$> optional ms' ["options"] [] (listOf option) :=
      map_optional (hothers "options" (by decide)) fun _ _ h => map_apart_option h.2
    rw [scene, scene, required_congr (hfield "name" (by decide) (by decide)),
      required_congr (hfield "title" (by decide) (by decide)),
      required_congr (hfield "content" (by decide) (by decide)), htexts, htexts']
    simp only [map_bind, map_pure]
    refine bind_congr fun name => bind_congr fun title => bind_congr fun content => ?_
    let record (actions : List String) (options : List OptionRecord) :
        Except Violation SceneRecord :=
      .ok ⟨name, title, content, actions, options⟩
    let given := optional ms ["options"] [] (listOf option)
    let given' := optional ms' ["options"] [] (listOf option)
    calc given >>= fun options => record (Action.statements texts) (options.map OptionRecord.apart)
      _ = given' >>= fun options =>
            record (Action.statements texts) (options.map OptionRecord.apart) :=
        bind_eq_of_map hoptions _
      _ = given' >>= fun options =>
            record (Action.statements texts') (options.map OptionRecord.apart) := by rw [hactions]

/-- The same documents are checked alike. -/
theorem map_apart_adventure {ms ms' : List (String × Json)}
    (h : SameDocument (.object ms) (.object ms')) :
    AdventureRecord.apart <$> adventure ms = AdventureRecord.apart <$> adventure ms' := by
  cases h with
  | equal => rfl
  | @members ms ms' s s' hs hs' hsame hothers =>
    have hfield (name : String) (hname : name ≠ "actions") (hlist : name ≠ "scenes") :
        ms.lookup name = ms'.lookup name :=
      (hothers name hname).eq fun _ _ h => hlist h.1
    have hfields (names : List String) (hname : "actions" ∉ names) (hlist : "scenes" ∉ names) :
        ∀ name ∈ names, ms.lookup name = ms'.lookup name :=
      fun name h => hfield name (fun e => hname (e ▸ h)) fun e => hlist (e ▸ h)
    obtain ⟨texts, texts', htexts, htexts', hactions⟩ := exists_actions hs hs' hsame
    have hscenes : List.map SceneRecord.apart <$> required ms "scenes" (listOf scene) =
        List.map SceneRecord.apart <$> required ms' "scenes" (listOf scene) :=
      map_required (hothers "scenes" (by decide)) fun _ _ h => map_apart_scene h.2
    rw [adventure, adventure, required_congr (hfield "name" (by decide) (by decide)),
      required_congr (hfield "title" (by decide) (by decide)),
      required_congr (hfield "version" (by decide) (by decide)),
      optional_congr (hfields ["author"] (by decide) (by decide)),
      optional_congr (hfields ["requires"] (by decide) (by decide)),
      optional_congr (hfields ["globalTop", "global_top"] (by decide) (by decide)),
      optional_congr (hfields ["globalBottom", "global_bottom"] (by decide) (by decide)),
      optional_congr (hfields ["startingScene", "starting_scene"] (by decide) (by decide)),
      htexts, htexts']
    simp only [map_bind, map_pure]
    refine bind_congr fun name => bind_congr fun title => bind_congr fun version =>
      bind_congr fun author => bind_congr fun requires => ?_
    let record (actions : List String) (globalTop globalBottom : Option String) (start : String)
        (scenes : List SceneRecord) : Except Violation AdventureRecord :=
      .ok ⟨name, title, version, author, requires, actions, globalTop, globalBottom, start, scenes⟩
    -- behind the actions only the scenes are read from different members
    let rest (ms : List (String × Json)) (actions : List String) :
        Except Violation AdventureRecord := do
      let globalTop ← optional ms' ["globalTop", "global_top"] none textOrNull
      let globalBottom ← optional ms' ["globalBottom", "global_bottom"] none textOrNull
      let start ← optional ms' ["startingScene", "starting_scene"] "start" startingScene
      let scenes ← required ms "scenes" (listOf scene)
      record actions globalTop globalBottom start (scenes.map SceneRecord.apart)
    calc rest ms (Action.statements texts)
      _ = rest ms' (Action.statements texts) :=
        bind_congr fun globalTop => bind_congr fun globalBottom => bind_congr fun start =>
          bind_eq_of_map hscenes (record (Action.statements texts) globalTop globalBottom start)
      _ = rest ms' (Action.statements texts') := by rw [hactions]

end Check

/-! ## Places in documents -/

/-- Records that are the same but for their actions are the same in every other member. -/
theorem SameRecord.get? {item : String → Json → Json → Prop} {v w : Json}
    (h : SameRecord item v w) (name : String) (hname : name ≠ "actions") :
    SameMember (item name) (v.get? name) (w.get? name) := by
  cases h with
  | equal => exact .equal _
  | members _ _ _ hothers => exact hothers name hname

/-- An item of a list is the same, or there is a related one. -/
theorem SameRecord.itemAt {item : String → Json → Json → Prop} {v w : Json}
    (h : SameRecord item v w) (name : String) (hname : name ≠ "actions") (i : Nat) :
    Violation.itemAt v name i = Violation.itemAt w name i ∨
      ∃ x y, Violation.itemAt v name i = some x ∧ Violation.itemAt w name i = some y ∧
        item name x y := by
  have hmember := h.get? name hname
  unfold Violation.itemAt
  generalize v.get? name = a at hmember ⊢
  generalize w.get? name = b at hmember ⊢
  cases hmember with
  | equal => exact .inl rfl
  | @items vs ws hitems =>
    have hlist : vs[i]? = none ∧ ws[i]? = none ∨
        ∃ x y, vs[i]? = some x ∧ ws[i]? = some y ∧ item name x y := by
      obtain ⟨hlength, hget⟩ := List.forall₂_iff_get.1 hitems
      rcases Nat.lt_or_ge i vs.length with hi | hi
      · exact .inr ⟨_, _, List.getElem?_eq_getElem hi, List.getElem?_eq_getElem (hlength ▸ hi),
          hget i hi (hlength ▸ hi)⟩
      · exact .inl ⟨List.getElem?_eq_none hi, List.getElem?_eq_none (hlength ▸ hi)⟩
    exact hlist.imp_left fun ⟨hv, hw⟩ => hv.trans hw.symm

/-- The same documents name their records alike. -/
theorem Violation.locate_congr {d d' : Json} (h : SameDocument d d') (path : List Step) :
    locate d path = locate d' path := by
  have hadventure : d.get? "name" = d'.get? "name" :=
    (h.get? "name" (by decide)).eq fun _ _ h => absurd h.1 (by decide)
  have hscene (i : Nat) : (itemAt d "scenes" i).bind (·.get? "name") =
      (itemAt d' "scenes" i).bind (·.get? "name") := by
    obtain heq | ⟨x, y, hx, hy, -, hsame⟩ := h.itemAt "scenes" (by decide) i
    · rw [heq]
    · rw [hx, hy]
      exact (hsame.get? "name" (by decide)).eq fun _ _ h => absurd h.1 (by decide)
  have hoption (i j : Nat) :
      ((itemAt d "scenes" i).bind fun s => itemAt s "options" j).bind (·.get? "label") =
        ((itemAt d' "scenes" i).bind fun s => itemAt s "options" j).bind (·.get? "label") := by
    obtain heq | ⟨x, y, hx, hy, -, hsame⟩ := h.itemAt "scenes" (by decide) i
    · rw [heq]
    · rw [hx, hy]
      obtain heq | ⟨a, b, ha, hb, -, hlabel⟩ := hsame.itemAt "options" (by decide) j
      · exact congrArg (Option.bind · _) heq
      · simp only [Option.bind_some, ha, hb]
        exact (hlabel.get? "label" (by decide)).eq fun _ _ => id
  unfold locate
  simp only [hadventure, hscene, hoption]

/-- The same documents are validated alike. -/
theorem AdventureRecord.map_apart_validate {d d' : Json} (h : SameDocument d d') :
    apart <$> validate d = apart <$> validate d' := by
  have hdiagnose : Violation.diagnose d = Violation.diagnose d' := by
    funext v
    rw [Violation.diagnose, Violation.locate_congr h, Violation.diagnose]
  have push (x : Except Violation AdventureRecord) :
      apart <$> x.mapError (Violation.diagnose d) =
        (apart <$> x).mapError (Violation.diagnose d) := by
    cases x <;> rfl
  have hchecked {ms ms' : List (String × Json)} (h : SameDocument (.object ms) (.object ms')) :
      apart <$> (Check.adventure ms).mapError (Violation.diagnose d) =
        apart <$> (Check.adventure ms').mapError (Violation.diagnose d) := by
    rw [push, push, Check.map_apart_adventure h]
  cases h with
  | equal => rfl
  | members hs hs' hsame hothers =>
    rw [validate, validate, ← hdiagnose]
    exact hchecked (.members hs hs' hsame hothers)

/-- **The same documents are assembled alike.** -/
theorem Registry.assembleDocument_congr {d d' : Json} (h : SameDocument d d')
    (registry : Registry) : registry.assembleDocument d = registry.assembleDocument d' := by
  have hnormal (document : Json) : registry.assembleDocument document =
      (AdventureRecord.apart <$> AdventureRecord.validate document) >>= registry.assemble := by
    simp only [assembleDocument, bind_map_left, assemble_apart]
  rw [hnormal, AdventureRecord.map_apart_validate h, ← hnormal]

namespace Action.Script

/-- **Splitting takes separators to concatenation.**  A text with a separator in it has the
statements before it and then those behind it, and texts have the statements of each.  No
statement is empty or has a separator or a blank in it, and statements are split again to
themselves, in a text each or written in one.  So it makes no difference in which texts
statements are given, and documents that differ in nothing else are assembled alike. -/
theorem statements_regroup :
    (∀ (a b : String) (c : Char), isSeparator c = true →
      (text (a ++ c.toString ++ b)).statements = (text a).statements ++ (text b).statements) ∧
    (∀ ts, (texts ts).statements = ts.flatMap fun t => (text t).statements) ∧
    (∀ (s : Script), ∀ t ∈ s.statements, t ≠ "" ∧
      ∀ c ∈ t.toList, isSeparator c = false ∧ Text.isBlank c = false) ∧
    (∀ s : Script, (texts s.statements).statements = s.statements ∧
      ∀ t, Gathers s.statements t → (text t).statements = s.statements) ∧
    (∀ (s : Script) (groups : List (List String)), List.Forall₂ Gathers groups s.chunks →
      s.statements = (texts groups.flatten).statements ∧
      ∀ scope, s.compile scope = compileAll scope groups.flatten) ∧
    ∀ d d', SameDocument d d' → ∀ r : Registry, r.assembleDocument d = r.assembleDocument d' := by
  simp only [statements_eq, compile_eq, chunks]
  refine ⟨fun a b c hc => ?_, fun ts => ?_, fun s t ht => ?_, fun s => ⟨?_, fun t ht => ?_⟩,
    fun s groups hs => ⟨statements_of_gathers hs, fun scope => ?_⟩,
    fun d d' h r => r.assembleDocument_congr h⟩
  · rw [statements_separated hc]
    exact statements_append [a] [b]
  · simp only [Action.statements, List.flatMap_singleton]
  · obtain ⟨u, -, hpiece⟩ := exists_of_mem_statements ht
    obtain ⟨hsolid, hplain, hne⟩ := of_mem_splitChars hpiece
    exact ⟨fun h => hne (by rw [h]; rfl), fun c hc => ⟨hplain c hc, hsolid c hc⟩⟩
  · exact statements_statements s.chunks
  · rw [ht.statements_eq, statements_statements]
  · rw [compileAll, statements_of_gathers hs, compileAll]

/-- It does not matter whether the statements of a document stand in one text, in a text each, or
in texts with blanks, more separators and no statements among them. -/
theorem statements_regroup_scattered :
    let option (actions : Json) : Json :=
      .object [("label", .string "on"), ("target", .string "start"), ("actions", actions)]
    let scene (actions inOption : Json) : Json := .object
      [("name", .string "start"), ("title", .string "S"), ("content", .ofTexts ["s"]),
       ("actions", actions), ("options", .array [option inOption])]
    let document (actions inScene inOption : Json) : Json := .object
      [("name", .string "a"), ("title", .string "T"), ("version", .int 1), ("actions", actions),
       ("scenes", .array [scene inScene inOption])]
    let tidy := document (.string "x=1;y=2,z=3") (.ofTexts ["x+=1"]) .null
    let scattered :=
      document (.ofTexts ["; x = 1", " ", "y=2;,z=3"]) (.string "x += 1;") (.string "")
    (text "x=1;y=2,z=3").statements = (texts ["x=1", "y=2", "z=3"]).statements ∧
      SameDocument tidy scattered ∧
      ∀ r : Registry, r.assembleDocument tidy = r.assembleDocument scattered := by
  intro option scene document tidy scattered
  have hgathers : Gathers ["x=1", "y=2", "z=3"] "x=1;y=2,z=3" := by
    have hlast : Gathers (["y=2"] ++ ["z=3"]) ("y=2" ++ ','.toString ++ "z=3") :=
      .separated (by decide) (.single _) (.single _)
    have hall : Gathers (["x=1"] ++ ["y=2", "z=3"]) ("x=1" ++ ';'.toString ++ "y=2,z=3") :=
      .separated (by decide) (.single _) hlast
    exact hall
  have hoption : SameOption (option .null) (option (.string "")) := by
    refine .members rfl rfl rfl fun name hname => ?_
    have hne : (name == "actions") = false := by simpa using hname
    simp only [List.lookup_cons, hne]
    exact .equal _
  have hscene : SameScene (scene (.ofTexts ["x+=1"]) .null)
      (scene (.string "x += 1;") (.string "")) := by
    refine .members rfl rfl (by decide +kernel) fun name hname => ?_
    have hne : (name == "actions") = false := by simpa using hname
    by_cases hlist : name = "options"
    · subst hlist
      exact .items (.cons ⟨rfl, hoption⟩ .nil)
    · have hlist : (name == "options") = false := by simpa using hlist
      simp only [List.lookup_cons, hne, hlist]
      exact .equal _
  have hsame : SameDocument tidy scattered := by
    refine .members rfl rfl (by decide +kernel) fun name hname => ?_
    have hne : (name == "actions") = false := by simpa using hname
    by_cases hlist : name = "scenes"
    · subst hlist
      exact .items (.cons ⟨rfl, hscene⟩ .nil)
    · have hlist : (name == "scenes") = false := by simpa using hlist
      simp only [List.lookup_cons, hne, hlist]
      exact .equal _
  exact ⟨(statements_regroup.2.2.2.2.1 (text "x=1;y=2,z=3") [_] (.cons hgathers .nil)).1, hsame,
    statements_regroup.2.2.2.2.2 tidy scattered hsame⟩

end Action.Script
end Gamebook
