/-
# Adventures that are read back

The document that an adventure is shown as is a document like any other.  Everything in
it has gone through validation and compilation once: identifiers are written out,
statements stand apart and without blanks, and what was blank or empty is gone.  Each of
these forms is left as it is the second time, so the document is compiled to the
adventure that it shows (`Adventure.CompiledFrom.reload`), with the scenes that it had
when it was built.

Building and linking more keeps an adventure and its scenes but for the state of the
references (`Story.Holds`), which a document does not show.  So an adventure can be read
back at any time (`Story.assembleDocument_toJson_after`).
-/

import Gamebook.Proofs.Compiling
import Gamebook.Proofs.Interleaving

namespace Gamebook

/-! ## Identifiers -/

/-- A segment starts with one of its characters, and none is a colon. -/
theorem exists_of_isSegmentChars {cs : List Char} (h : isSegmentChars cs = true) :
    (∃ c rest, cs = c :: rest ∧ isWordChar c = true) ∧ ∀ d ∈ cs, (d == ':') = false := by
  obtain ⟨word, tail, rfl, hword, htail⟩ : ∃ word tail, cs = word ++ tail ∧ isWord word = true ∧
      ∀ d ∈ tail, d = '\n' := by
    rw [isSegmentChars] at h
    split at h
    · rename_i hlast
      exact ⟨cs.dropLast, ['\n'], (List.dropLast_append_getLast? _ hlast).symm, h, by simp⟩
    · exact ⟨cs, [], (List.append_nil cs).symm, h, by simp⟩
  simp only [isWord, Bool.and_eq_true, Bool.not_eq_true', List.all_eq_true] at hword
  obtain ⟨hne, hall⟩ := hword
  constructor
  · obtain ⟨c, rest, rfl⟩ := List.exists_cons_of_ne_nil (List.isEmpty_eq_false_iff.1 hne)
    exact ⟨c, rest ++ tail, rfl, hall c (List.mem_cons_self ..)⟩
  · intro d hd
    rw [beq_eq_false_iff_ne]
    rintro rfl
    rcases List.mem_append.1 hd with hd | hd
    · exact absurd (hall _ hd) (by decide)
    · exact absurd (htail _ hd) (by decide)

namespace Identifier

variable {scope raw : String} {i : Identifier}

/-- The written form is the scope and the name with a colon between them. -/
theorem toList_canonical (i : Identifier) :
    i.canonical.toList = i.scope.toList ++ ':' :: i.name.toList := by
  simp [canonical, String.toList_append]

/-- **A written identifier names itself**, whatever the scope is. -/
theorem ofText?_canonical (scope : String) (i : Identifier) :
    ofText? scope i.canonical = some i := by
  obtain ⟨-, hscope⟩ := exists_of_isSegmentChars i.scope_isSegment
  obtain ⟨-, hname⟩ := exists_of_isSegmentChars i.name_isSegment
  have hsplit : i.canonical.toList.splitOnP (· == ':') = [i.scope.toList, i.name.toList] := by
    rw [toList_canonical, List.splitOnP_append_cons_of_forall_mem hscope _ (by decide),
      List.splitOnP_eq_singleton hname]
  simp only [ofText?, hsplit, ofSegments?, String.ofList_toList]
  exact dif_pos ⟨i.scope_isSegment, i.name_isSegment⟩

/-- A written identifier starts with a character of a segment. -/
theorem head_canonical (i : Identifier) :
    ∃ c rest, i.canonical.toList = c :: rest ∧ isWordChar c = true := by
  obtain ⟨⟨c, rest, hscope, hc⟩, -⟩ := exists_of_isSegmentChars i.scope_isSegment
  exact ⟨c, rest ++ ':' :: i.name.toList, by rw [toList_canonical, hscope]; rfl, hc⟩

/-- No written form is blank, because it has a colon. -/
theorem isBlankText_canonical (i : Identifier) : Text.isBlankText i.canonical = false := by
  obtain ⟨c, rest, hcs, hc⟩ := i.head_canonical
  simp [Text.isBlankText, hcs, isBlank_of_isWordChar hc]

/-- An identifier that is made of two segments has these segments. -/
theorem of_ofSegments? {s n : String} (h : ofSegments? s n = some i) :
    i.scope = s ∧ i.name = n := by
  rw [ofSegments?] at h
  split at h
  · obtain rfl := Option.some.inj h
    exact ⟨rfl, rfl⟩
  · contradiction

/-- A text ends with the name that it means. -/
theorem name_suffix (h : ofText? scope raw = some i) : i.name.toList <:+ raw.toList := by
  have hlast {front : List Char} {last : List Char}
      (h : front.splitOnP (· == ':') = [last]) : front = last := by
    obtain ⟨hfront, -⟩ | ⟨c, after, -, hnil⟩ := Text.splitOnP_eq_cons h
    · exact hfront
    · exact absurd hnil (List.splitOnP_ne_nil _ _)
  rw [ofText?] at h
  split at h
  · rename_i name hsplit
    have hname : i.name.toList = raw.toList := by
      rw [(of_ofSegments? h).2, String.toList_ofList, hlast hsplit]
    exact ⟨[], hname⟩
  · rename_i own name hsplit
    rw [(of_ofSegments? h).2, String.toList_ofList]
    obtain ⟨-, hnil⟩ | ⟨c, after, hcs, hafter⟩ := Text.splitOnP_eq_cons hsplit
    · contradiction
    · rw [hcs, hlast hafter]
      exact ⟨own ++ [c], by simp⟩
  · contradiction

/-- What a tidy text names is written tidily. -/
theorem isTidy_canonical (h : ofText? scope raw = some i) (hraw : Text.IsTidy raw) :
    Text.IsTidy i.canonical := by
  obtain ⟨c, rest, hcs, hc⟩ := i.head_canonical
  obtain ⟨⟨d, name, hname, -⟩, -⟩ := exists_of_isSegmentChars i.name_isSegment
  obtain ⟨front, hfront⟩ := name_suffix h
  have hlast : i.canonical.toList.getLast? = raw.toList.getLast? := by
    rw [← hfront, toList_canonical, hname]
    simp [List.getLast?_append, List.getLast?_cons]
  refine Text.isTidy_of_ends (by simp [hcs]) (fun e he => ?_) (hlast ▸ hraw.last)
  obtain rfl : c = e := by simpa [hcs] using he
  exact isBlank_of_isWordChar hc

end Identifier

/-! ## Statements -/

namespace Action

variable {texts : List String}

/-- A statement has no blanks and no separators, and is not empty. -/
theorem of_mem_splitChars {cs piece : List Char} (h : piece ∈ splitChars cs) :
    Text.Solid piece ∧ (∀ c ∈ piece, isSeparator c = false) ∧ piece ≠ [] := by
  obtain ⟨hmem, hne⟩ := List.mem_filter.1 h
  obtain ⟨whole, hwhole, rfl⟩ := List.mem_map.1 hmem
  refine ⟨fun c hc => Text.isBlank_of_mem_compactChars hc, fun c hc => ?_, by simpa using hne⟩
  exact Text.not_separator_of_mem_splitOnP hwhole c (List.mem_filter.1 hc).1

/-- A statement that stands alone is not cut. -/
theorem splitChars_eq_singleton {cs piece : List Char} (h : piece ∈ splitChars cs) :
    splitChars piece = [piece] := by
  obtain ⟨hsolid, hplain, hne⟩ := of_mem_splitChars h
  rw [splitChars, List.splitOnP_eq_singleton hplain]
  simp [hsolid.compactChars_eq, hne]

/-- A statement is a piece of one of the texts that statements are read from. -/
theorem exists_of_mem_statements {s : String} (h : s ∈ statements texts) :
    ∃ text ∈ texts, s.toList ∈ splitChars text.toList := by
  obtain ⟨text, htext, hs⟩ := List.mem_flatMap.1 h
  obtain ⟨piece, hpiece, rfl⟩ := List.mem_map.1 hs
  exact ⟨text, htext, by rwa [String.toList_ofList]⟩

/-- **Statements that stand alone are left as they are.** -/
theorem statements_statements (texts : List String) :
    statements (statements texts) = statements texts := by
  have halone : ∀ s ∈ statements texts, (splitChars s.toList).map String.ofList = [s] := by
    intro s hs
    obtain ⟨text, -, htext⟩ := exists_of_mem_statements hs
    rw [splitChars_eq_singleton htext, List.map_singleton, String.ofList_toList]
  rw [statements, List.flatMap_congr halone, List.flatMap_singleton']

/-- A statement has no blanks left to drop. -/
theorem compact_of_mem_statements {s : String} (h : s ∈ statements texts) :
    Text.compact s = s := by
  obtain ⟨text, -, htext⟩ := exists_of_mem_statements h
  rw [Text.compact, (of_mem_splitChars htext).1.compactChars_eq, String.ofList_toList]

/-- No statement is blank. -/
theorem isBlankText_of_mem_statements {s : String} (h : s ∈ statements texts) :
    Text.isBlankText s = false := by
  obtain ⟨text, -, htext⟩ := exists_of_mem_statements h
  obtain ⟨hsolid, -, hne⟩ := of_mem_splitChars htext
  obtain ⟨c, rest, hs⟩ := List.exists_cons_of_ne_nil hne
  have hc := hsolid c (hs ▸ List.mem_cons_self ..)
  simp [Text.isBlankText, hs, hc]

/-- Actions keep the statements that they are compiled from. -/
theorem map_source {scope : String} {as : List Action}
    (h : (compileAll scope texts).Gives (some as)) : as.map (·.source) = statements texts := by
  rw [h.of_yields (Compile.yields_mapM_map (yields_source scope)),
    List.map_congr_left fun s hs => compact_of_mem_statements hs, List.map_id']

/-- **The statements of actions are compiled to the actions.** -/
theorem gives_compileAll_map_source {scope : String} {as : List Action}
    (h : (compileAll scope texts).Gives (some as)) :
    (compileAll scope (as.map (·.source))).Gives (some as) := by
  rw [map_source h, compileAll, statements_statements]
  exact h

/-- The statements of actions are not blank. -/
theorem isBlankText_of_mem_map_source {scope : String} {as : List Action}
    (h : (compileAll scope texts).Gives (some as)) :
    ∀ s ∈ as.map (·.source), Text.isBlankText s = false := by
  rw [map_source h]
  exact fun s hs => isBlankText_of_mem_statements hs

end Action

/-! ## Texts that are kept -/

section

variable {scope text : String} {source : Option String}

/-- A template keeps the text that it is compiled from. -/
theorem Template.source_eq {t : Template} (h : (compileText scope text).Gives (some t)) :
    t.source = text :=
  h.of_yields (yields_source scope text)

/-- Templates keep the texts that they were compiled from, one by one. -/
theorem Template.map_source {texts : List String} {ts : List Template}
    (h : (texts.mapM (compileText scope)).Gives (some ts)) : ts.map (·.source) = texts := by
  rw [h.of_yields (Compile.yields_mapM_map (yields_source scope)), List.map_id']

/-- The text that a template keeps is compiled to it again. -/
theorem Template.gives_source {t : Template} (h : (compileText scope text).Gives (some t)) :
    (compileText scope t.source).Gives (some t) := by
  rwa [source_eq h]

/-- The texts that templates keep are compiled to them again. -/
theorem Template.gives_map_source {texts : List String} {ts : List Template}
    (h : (texts.mapM (compileText scope)).Gives (some ts)) :
    ((ts.map (·.source)).mapM (compileText scope)).Gives (some ts) := by
  rwa [map_source h]

/-- A condition that is kept is not blank if it was not before. -/
theorem isBlankText_of_mem_map_source_guard {condition : Option Condition}
    (h : (Compile.ofFilled (Condition.compileText scope) source).Gives (some condition))
    (hsource : ∀ s ∈ source, Text.isBlankText s = false) :
    ∀ s ∈ condition.map (·.source), Text.isBlankText s = false := by
  rw [h.of_yields (Compile.yields_map_ofFilled (Condition.yields_source scope) source)]
  exact fun s hs => hsource s (Option.filter_eq_some_iff.1 hs).1

end

/-! ## Records of what is compiled -/

/-- The option that shows a choice. -/
def Choice.toRecord (ch : Choice) : OptionRecord where
  label := ch.label.source
  target := ch.target.identifier.canonical
  condition := ch.condition.map (·.source)
  alwaysVisible := ch.alwaysVisible
  actions := ch.actions.map (·.source)

/-- The scene of a document that shows a scene. -/
def Scene.toRecord (scene : Scene) : SceneRecord where
  name := scene.identifier.name
  title := scene.title.source
  content := scene.content.map (·.source)
  actions := scene.actions.map (·.source)
  options := scene.choices.map Choice.toRecord

/-- The record that shows an adventure with scenes. -/
def Adventure.toRecord (a : Adventure) (scenes : List Scene) : AdventureRecord where
  name := a.name
  title := a.title.source
  version := a.version
  author := a.author.map (·.source)
  requires := a.requires
  actions := a.actions.map (·.source)
  globalTop := a.header.map (·.source)
  globalBottom := a.footer.map (·.source)
  startingScene := a.start.identifier.canonical
  scenes := scenes.map Scene.toRecord

/-- An adventure is shown as its record with the scenes that are registered. -/
theorem Adventure.shownBy_toRecord (a : Adventure) (r : Registry) :
    ∃ ms, a.toJson r = .object ms ∧ (a.toRecord (a.scenes.filterMap r.find?)).ShownBy ms := by
  have hchoice (ch : Choice) : ∃ ms, ch.toJson = .object ms ∧ ch.toRecord.ShownBy ms :=
    ⟨_, rfl, rfl, rfl, rfl, rfl, rfl⟩
  have hscene (scene : Scene) : ∃ ms, scene.toJson = .object ms ∧ scene.toRecord.ShownBy ms := by
    refine ⟨_, rfl, rfl, rfl, rfl, rfl, _, rfl, ?_⟩
    rw [Scene.toRecord, List.forall₂_map_left_iff, List.forall₂_map_right_iff]
    exact List.forall₂_same.2 fun ch _ => hchoice ch
  refine ⟨_, rfl, rfl, rfl, rfl, rfl, rfl, rfl, rfl, rfl, rfl, _, rfl, ?_⟩
  rw [toRecord, List.forall₂_map_left_iff, List.forall₂_map_right_iff]
  exact List.forall₂_same.2 fun scene _ => hscene scene

/-- **The option that shows a choice is valid, and compiled to the choice.** -/
theorem Choice.Assembles.toRecord {scope : String} {r : OptionRecord} {ch : Choice}
    (h : ch.Assembles scope r) (hr : r.IsValid) :
    ch.toRecord.IsValid ∧ ch.Assembles scope ch.toRecord := by
  obtain ⟨i, hi, htarget⟩ := h.target
  have hshown : ch.toRecord.target = i.canonical := by rw [Choice.toRecord, htarget]; rfl
  constructor
  · refine ⟨?_, isBlankText_of_mem_map_source_guard h.condition hr.condition,
      Action.isBlankText_of_mem_map_source h.actions⟩
    exact hshown ▸ Identifier.isTidy_canonical hi hr.target
  · refine ⟨Template.gives_source h.label, ⟨i, ?_, htarget⟩,
      Compile.gives_ofFilled_map (Condition.yields_source scope) h.condition, rfl,
      Action.gives_compileAll_map_source h.actions⟩
    exact hshown ▸ Identifier.ofText?_canonical scope i

/-- **The scene of a document that shows a scene is valid, and compiled to the scene.** -/
theorem Scene.Assembles.toRecord {scope : String} {header footer : Option Template}
    {r : SceneRecord} {scene : Scene} (h : scene.Assembles scope header footer r)
    (hr : r.IsValid) :
    scene.toRecord.IsValid ∧ scene.Assembles scope header footer scene.toRecord := by
  have hname : scene.identifier.name = r.name := (Identifier.of_ofParts h.identifier).2
  have hchoices : ∀ ch ∈ scene.choices, ch.toRecord.IsValid ∧ ch.Assembles scope ch.toRecord := by
    intro ch hch
    obtain ⟨o, ho, hassembles⟩ := exists_mem_of_forall₂ h.choices hch
    exact hassembles.toRecord (hr.options o ho)
  constructor
  · refine ⟨?_, ?_, ?_, Action.isBlankText_of_mem_map_source h.actions, ?_⟩
    · rw [Scene.toRecord, hname]
      exact hr.name
    · rw [Scene.toRecord, Template.source_eq h.title]
      exact hr.title
    · rw [Scene.toRecord, Template.map_source h.content]
      exact hr.content
    · exact List.forall_mem_map.2 fun ch hch => (hchoices ch hch).1
  · refine ⟨?_, Template.gives_source h.title, Template.gives_map_source h.content,
      Action.gives_compileAll_map_source h.actions, ?_, h.header, h.footer⟩
    · rw [Scene.toRecord, hname]
      exact h.identifier
    · rw [Scene.toRecord, List.forall₂_map_left_iff]
      exact List.forall₂_same.2 fun ch hch => (hchoices ch hch).2

namespace Adventure

variable {record : AdventureRecord} {a : Adventure} {scenes : List Scene}

/-- **The record that shows an adventure is valid, and compiled to the adventure.** -/
theorem Compiles.toRecord (h : a.Compiles record scenes) (hr : record.IsValid) :
    (a.toRecord scenes).IsValid ∧ a.Compiles (a.toRecord scenes) scenes := by
  obtain ⟨i, hi, hstart⟩ := h.start
  have hshown : (a.toRecord scenes).startingScene = i.canonical := by
    rw [Adventure.toRecord, hstart]
    rfl
  have hname : (a.toRecord scenes).name = record.name := h.name
  have hrequires : a.requires.filter (· != Control.scope) = a.requires := by
    rw [h.requires, List.filter_filter]
    simp
  have hscenes : ∀ scene ∈ scenes, scene.toRecord.IsValid ∧
      scene.Assembles record.name a.header a.footer scene.toRecord := by
    intro scene hscene
    obtain ⟨s, hs, hassembles⟩ := exists_mem_of_forall₂ h.scenes hscene
    exact hassembles.toRecord (hr.scenes s hs)
  constructor
  · refine ⟨hname ▸ hr.name, ?_, h.version.trans hr.version, ?_,
      Action.isBlankText_of_mem_map_source h.actions, hshown ▸ i.isBlankText_canonical, ?_⟩
    · rw [Adventure.toRecord, Template.source_eq h.title]
      exact hr.title
    · intro n hn
      rw [Adventure.toRecord, h.requires] at hn
      exact hr.requires n (List.mem_filter.1 hn).1
    · exact List.forall_mem_map.2 fun scene hscene => (hscenes scene hscene).1
  · refine ⟨rfl, ?_, rfl, ⟨i, ?_, hstart⟩, ?_, hrequires.symm, ?_, ?_, ?_, h.identifiers, ?_⟩
    · exact hname ▸ Template.gives_source h.title
    · exact hshown ▸ Identifier.ofText?_canonical _ i
    · exact hname ▸ Compile.gives_ofFilled_map (Template.yields_source _) h.author
    · exact hname ▸ Action.gives_compileAll_map_source h.actions
    · exact hname ▸ Compile.gives_ofFilled_map (Template.yields_source _) h.header
    · exact hname ▸ Compile.gives_ofFilled_map (Template.yields_source _) h.footer
    · rw [hname, Adventure.toRecord, List.forall₂_map_left_iff]
      exact List.forall₂_same.2 fun scene hscene => (hscenes scene hscene).2

/-- **The document that an adventure is shown as is compiled to the adventure.** -/
theorem CompiledFrom.reload {document : Json} {r : Registry} (h : a.CompiledFrom document scenes)
    (hscenes : a.scenes.filterMap r.find? = scenes) : a.CompiledFrom (a.toJson r) scenes := by
  obtain ⟨record, hvalid, hcompiles⟩ := h.exists_compiles
  obtain ⟨hshown, hagain⟩ := hcompiles.toRecord (AdventureRecord.of_validate hvalid).2
  obtain ⟨ms, hjson, hms⟩ := a.shownBy_toRecord r
  rw [hscenes] at hms
  obtain ⟨c', hcompile'⟩ := compiledFromRecord_iff.2 hagain
  exact ⟨a.toRecord scenes, c', hjson ▸ hshown.validate_eq hms, hcompile'⟩

/-- Where an adventure has the same scenes, it is shown as the same document. -/
theorem toJson_congr {r r' : Registry}
    (h : a.scenes.filterMap r.find? = a.scenes.filterMap r'.find?) : a.toJson r = a.toJson r' := by
  rw [toJson, toJson, h]

end Adventure

/-! ## Later stories -/

namespace Registry

variable {r : Registry} {scenes : List Scene}

/-- What has been registered is found. -/
theorem find?_append_of_fresh (h : r.Fresh scenes) {scene : Scene} (hscene : scene ∈ scenes) :
    (r.append scenes).find? scene.identifier = some scene := by
  have hnone : r.find? scene.identifier = none := by
    rw [← Option.not_isSome_iff_eq_none, isSome_find?, contains_iff]
    exact h.not_mem scene hscene
  have hnew : (⟨scenes⟩ : Registry).find? scene.identifier = some scene := by
    have hmem : scene.identifier ∈ (⟨scenes⟩ : Registry).identifiers := List.mem_map_of_mem hscene
    obtain ⟨found, hfound⟩ := Option.isSome_iff_exists.1
      ((isSome_find? _ _).trans ((contains_iff _ _).2 hmem))
    rw [hfound, eq_of_find? h.nodup hfound hscene rfl]
  rw [find?, append, List.find?_append, ← find?, hnone]
  exact hnew

/-- Scenes that were appended are found under their identifiers, in their order. -/
theorem filterMap_find?_append (h : r.Fresh scenes) :
    (scenes.map (·.identifier)).filterMap (r.append scenes).find? = scenes := by
  rw [List.filterMap_map]
  have hfound : ∀ scene ∈ scenes,
      ((r.append scenes).find? ∘ fun scene => scene.identifier) scene = some scene :=
    fun scene hscene => find?_append_of_fresh h hscene
  rw [List.filterMap_congr hfound, List.filterMap_some]

end Registry

namespace Story

variable {s : Story} {k : Nat} {a : Adventure} {scenes : List Scene}

/-- Whether an adventure stands at a position of a story, with scenes that are registered
under identifiers of their own, as both are without their links. -/
structure Holds (s : Story) (k : Nat) (a : Adventure) (scenes : List Scene) : Prop where
  nodup : s.registry.identifiers.Nodup
  adventure : s.unlinked.adventures[k]? = some a
  registered : ∀ i ∈ a.scenes, i ∈ s.registry.identifiers
  scenes : a.scenes.filterMap s.unlinked.registry.find? = scenes

/-- An adventure that was just built stands behind the others. -/
theorem holds_add {record : AdventureRecord} (hnodup : s.registry.identifiers.Nodup)
    (hcompiled : a.CompiledFromRecord record scenes) (hfresh : s.registry.Fresh scenes) :
    (s.add a scenes).Holds s.adventures.length a scenes := by
  obtain ⟨ha, hscenes⟩ := hcompiled.unlinked_eq
  have hunlinked : (s.add a scenes).unlinked = s.unlinked.add a scenes := by
    rw [unlinked_add, ha, hscenes]
  refine ⟨hfresh.nodup_append hnodup, ?_, fun i hi => ?_, ?_⟩
  · rw [hunlinked]
    simp [add, unlinked, mapRefs]
  · rw [add, Registry.identifiers_append]
    exact List.mem_append_right _ (hcompiled.scenes_eq ▸ hi)
  · rw [hunlinked, hcompiled.scenes_eq]
    exact Registry.filterMap_find?_append (Registry.fresh_mapRefs.2 hfresh)

/-- **Neither building nor linking changes an adventure that was built.** -/
theorem Holds.next (h : s.Holds k a scenes) (e : Event) : (s.next e).Holds k a scenes := by
  have hhappens := s.happens e
  generalize s.next e = t at hhappens
  cases hhappens with
  | refused => exact h
  | @linked ks =>
    have hidentifiers : (s.linkAt ks).result.registry.identifiers = s.registry.identifiers :=
      identifiers_linkAt
    have hbecomes : s.Becomes s.registry.contains (s.linkAt ks).result := becomes_linkAt h.nodup
    have hunlinked := hbecomes.unlinked_eq
    refine ⟨hidentifiers ▸ h.nodup, ?_, hidentifiers ▸ h.registered, ?_⟩
    · rw [hunlinked]
      exact h.adventure
    · rw [hunlinked]
      exact h.scenes
  | @built record b new compiled fresh =>
    obtain ⟨hlt, -⟩ := List.getElem?_eq_some_iff.1 h.adventure
    refine ⟨fresh.nodup_append h.nodup, ?_, fun i hi => ?_, ?_⟩
    · rw [unlinked_add, add, List.getElem?_append_left hlt]
      exact h.adventure
    · rw [add, Registry.identifiers_append]
      exact List.mem_append_left _ (h.registered i hi)
    · rw [unlinked_add, ← h.scenes]
      refine List.filterMap_congr fun i hi => Registry.find?_append_of_mem ?_
      exact s.registry.identifiers_mapRefs.symm ▸ h.registered i hi

/-- What was built stays, whatever is built and linked later. -/
theorem Holds.after (h : s.Holds k a scenes) (events : List Event) :
    (s.after events).Holds k a scenes :=
  after_induction (P := fun s => s.Holds k a scenes) h fun _ e h => h.next e

/-- The adventure at the position is the one that is held, but for its links. -/
theorem Holds.exists_getElem? (h : s.Holds k a scenes) :
    ∃ b, s.adventures[k]? = some b ∧ b.mapRef .unlinked = a ∧
      (b.scenes.filterMap s.registry.find?).map (·.mapRefs .unlinked) = scenes ∧
      b.toJson s.registry = a.toJson s.unlinked.registry := by
  have hadventure := h.adventure
  rw [unlinked, mapRefs, List.getElem?_map] at hadventure
  obtain ⟨b, hb, rfl⟩ := Option.map_eq_some_iff.1 hadventure
  have hscenes : b.scenes.filterMap s.unlinked.registry.find? = scenes := h.scenes
  refine ⟨b, hb, rfl, ?_, ?_⟩
  · rw [← hscenes, unlinked, mapRefs, Registry.find?_mapRefs, List.map_filterMap]
  · have hf (r : SceneRef) : r.unlinked.identifier = r.identifier := rfl
    exact (Adventure.toJson_mapRefs hf b s.registry).symm

/-- **Adventures can be read back at any time.**  Let a document be built in a story whose
scenes all have identifiers of their own, and let any adventures be built and linked
later.  The adventure and its scenes are then the ones that were built, but for which of
their references are linked.  The document that the adventure is shown as is built again
wherever none of its scenes is registered: to the same adventure with the same scenes,
as they were built at first.  And it is shown as the same document again. -/
theorem assembleDocument_toJson_after {document : Json} {built : Registry}
    (hnodup : s.registry.identifiers.Nodup)
    (hbuild : s.registry.assembleDocument document = .ok (a, built)) (more : List Event) :
    let scenes := a.scenes.filterMap built.find?
    let t := Story.after ⟨s.adventures ++ [a], built⟩ more
    ∃ b, t.adventures[s.adventures.length]? = some b ∧ b.mapRef .unlinked = a ∧
      (b.scenes.filterMap t.registry.find?).map (·.mapRefs .unlinked) = scenes ∧
      ∀ q : Registry, (∀ i ∈ b.scenes, i ∉ q.identifiers) →
        q.assembleDocument (b.toJson t.registry) = .ok (a, q.append scenes) ∧
        a.scenes.filterMap (q.append scenes).find? = scenes ∧
        a.toJson (q.append scenes) = b.toJson t.registry := by
  obtain ⟨scenes, hcompiled, hfresh, rfl⟩ := Registry.assembleDocument_eq_ok.1 hbuild
  have hscenes := hcompiled.scenes_eq
  have hbuilt : a.scenes.filterMap (s.registry.append scenes).find? = scenes :=
    hscenes ▸ Registry.filterMap_find?_append hfresh
  obtain ⟨record, -, hcompiles⟩ := hcompiled.exists_compiles
  have hrecord := Adventure.compiledFromRecord_iff.2 hcompiles
  have hholds := (holds_add hnodup hrecord hfresh).after more
  obtain ⟨b, hb, hba, hbscenes, hshown⟩ := hholds.exists_getElem?
  dsimp only
  rw [hbuilt]
  refine ⟨b, hb, hba, hbscenes, fun q hq => ?_⟩
  have hfreshq : q.Fresh scenes := by
    refine ⟨hfresh.nodup, fun scene hscene => hq _ ?_⟩
    have hsame : b.scenes = a.scenes := hba ▸ rfl
    rw [hsame, hscenes]
    exact List.mem_map_of_mem hscene
  have hfound : a.scenes.filterMap (q.append scenes).find? = scenes :=
    hscenes ▸ Registry.filterMap_find?_append hfreshq
  show q.assembleDocument (b.toJson ((s.add a scenes).after more).registry) = _ ∧ _ ∧
    _ = b.toJson ((s.add a scenes).after more).registry
  rw [hshown]
  refine ⟨?_, hfound, Adventure.toJson_congr (hfound.trans hholds.scenes.symm)⟩
  exact Registry.assembleDocument_eq_ok.2 ⟨scenes, hcompiled.reload hholds.scenes, hfreshq, rfl⟩

/-- A document with blanks, a bare identifier, two statements in one text and a
requirement of the control scenes, which is linked before it is read back. -/
theorem assembleDocument_toJson_after_untidy :
    let document : Json := .object
      [("name", .string " a "), ("title", .string " T"), ("version", .int 1),
       ("author", .string ""), ("requires", .string " inkspire; b ,"),
       ("actions", .ofTexts [" x = 1 ; y += x ,", " "]), ("starting_scene", .string "hall"),
       ("scenes", .array
         [.object
           [("name", .string " hall"), ("title", .string "H"), ("content", .ofTexts ["", " c"]),
            ("options", .array
              [.object
                [("label", .string ""), ("target", .string " hall "), ("condition", .string " ")],
               .object
                [("label", .string "on"), ("target", .string "inkspire:exit"),
                 ("condition", .string " x = ..3 "), ("always_visible", .bool true)]])]])]
    let record : AdventureRecord :=
      { name := "a", title := " T", version := 1, requires := ["b"],
        actions := ["x=1", "y+=x"], startingScene := "a:hall", scenes :=
        [{ name := "hall", title := "H", content := ["", " c"], options :=
          [{ label := "", target := "a:hall" },
           { label := "on", target := "inkspire:exit", condition := some " x = ..3 ",
             alwaysVisible := true }] }] }
    ∃ a built b, opening.registry.assembleDocument document = .ok (a, built) ∧
      let t := Story.after ⟨opening.adventures ++ [a], built⟩ [.link [0, 1]]
      t.adventures[opening.adventures.length]? = some b ∧ b.start.isResolved = true ∧
      (AdventureRecord.validate (b.toJson t.registry)).toOption = some record ∧
      ∃ again, opening.registry.assembleDocument (b.toJson t.registry) = .ok (a, again) ∧
        a.toJson again = b.toJson t.registry := by
  intro document record
  have hruns : (opening.registry.assembleDocument document).toOption.map (fun built =>
      let t := Story.after ⟨opening.adventures ++ [built.1], built.2⟩ [.link [0, 1]]
      t.adventures[opening.adventures.length]?.map fun b =>
        (b.start.isResolved, (AdventureRecord.validate (b.toJson t.registry)).toOption,
          decide (∀ i ∈ b.scenes, i ∉ opening.registry.identifiers))) =
      some (some (true, some record, true)) := by
    decide +kernel
  generalize document = document at hruns ⊢
  generalize record = record at hruns ⊢
  have hnodup : opening.registry.identifiers.Nodup := opening_eq ▸ (coherent_after _).nodup
  cases hbuild : opening.registry.assembleDocument document with
  | error d =>
    rw [hbuild] at hruns
    contradiction
  | ok done =>
    obtain ⟨a, built⟩ := done
    obtain ⟨b, hb, -, -, hreload⟩ :=
      assembleDocument_toJson_after hnodup hbuild [.link [0, 1]]
    rw [hbuild] at hruns
    simp only [Except.toOption, Option.map_some, hb, Option.some.injEq, Prod.mk.injEq,
      decide_eq_true_eq] at hruns
    obtain ⟨hresolved, hvalid, hlacks⟩ := hruns
    obtain ⟨hagain, -, hshown⟩ := hreload opening.registry hlacks
    exact ⟨a, built, b, rfl, hb, hresolved, hvalid, _, hagain, hshown⟩

end Story

end Gamebook
