/-
# What is valid stays valid

Validation tidies a document up: names, targets and what is required lose the blanks
around them, blank conditions and statements are dropped, and what may be missing gets
its default.  A record that is left (`AdventureRecord.IsValid`) needs no tidying, so that
an object with its fields, whatever their order is and whichever name is taken for a field
that has two (`AdventureRecord.WrittenIn`), is validated again, and to the same record
(`AdventureRecord.IsValid.validate_of_writtenIn`).
-/

import Gamebook.Document.Validation
import Gamebook.Proofs.Acceptance
import Mathlib.Data.List.DropRight
import Mathlib.Data.List.Forall2

namespace Gamebook

/-! ## Texts -/

namespace Text

/-- What is trimmed in front and behind. -/
theorem trimChars_eq (cs : List Char) :
    trimChars cs = (cs.dropWhile isBlank).rdropWhile isBlank := rfl

/-- Trimming twice trims no more. -/
@[simp] theorem trim_trim (s : String) : trim (trim s) = trim s := by
  have hfront (cs : List Char) : ((cs.dropWhile isBlank).rdropWhile isBlank).dropWhile isBlank =
      (cs.dropWhile isBlank).rdropWhile isBlank := by
    -- What is left begins as the text does once the blanks in front of it are gone.
    rw [List.dropWhile_eq_self_iff]
    intro hpos
    have hleft := List.rdropWhile_prefix isBlank (cs.dropWhile isBlank)
    have hlen := hleft.length_le
    rw [hleft.getElem hpos]
    exact List.dropWhile_get_zero_not isBlank cs (Nat.lt_of_lt_of_le hpos hlen)
  simp only [trim, String.toList_ofList, trimChars_eq, hfront, List.rdropWhile_idempotent]

/-- Nothing is trimmed where no blank stands at either end. -/
theorem trimChars_eq_self_iff {cs : List Char} :
    trimChars cs = cs ↔
      (∀ c ∈ cs.head?, isBlank c = false) ∧ ∀ c ∈ cs.getLast?, isBlank c = false := by
  have hfront : cs.dropWhile isBlank = cs ↔ ∀ c ∈ cs.head?, isBlank c = false := by
    rw [List.dropWhile_eq_self_iff]
    cases cs <;> simp
  have hback : cs.rdropWhile isBlank = cs ↔ ∀ c ∈ cs.getLast?, isBlank c = false := by
    rw [List.rdropWhile_eq_self_iff]
    cases cs <;> simp [List.getLast?_eq_some_getLast]
  rw [← hfront, ← hback, trimChars_eq]
  constructor
  · intro h
    have hdrop : cs.dropWhile isBlank = cs := by
      refine (List.dropWhile_suffix isBlank).eq_of_length_le ?_
      have hlen := congrArg List.length h
      have hle := (List.rdropWhile_prefix isBlank (cs.dropWhile isBlank)).length_le
      omega
    rw [hdrop] at h
    exact ⟨hdrop, h⟩
  · rintro ⟨hdrop, hrdrop⟩
    rw [hdrop, hrdrop]

/-- A text that is not blank, with no blanks around it. -/
structure IsTidy (s : String) : Prop where
  trim_eq : trim s = s
  filled : isBlankText s = false

/-- What is left of a text that is not blank is not blank. -/
theorem isTidy_trim {s : String} (h : isBlankText s = false) : IsTidy (trim s) := by
  refine ⟨trim_trim s, ?_⟩
  obtain ⟨c, hc, hblank⟩ : ∃ c ∈ s.toList, isBlank c = false := by
    simpa [isBlankText] using h
  have kept {cs : List Char} (hc : c ∈ cs) : c ∈ cs.dropWhile isBlank := by
    rw [← List.takeWhile_append_dropWhile (p := isBlank) (l := cs)] at hc
    rcases List.mem_append.1 hc with hc | hc
    · exact absurd (List.mem_takeWhile_imp hc) (by simp [hblank])
    · exact hc
  have hleft : c ∈ trimChars s.toList :=
    List.mem_reverse.2 (kept (List.mem_reverse.2 (kept hc)))
  rw [isBlankText, trim, String.toList_ofList, List.all_eq_false]
  exact ⟨c, hleft, by simp [hblank]⟩

/-- A text with a character that is not blank at either end is tidy. -/
theorem isTidy_of_ends {s : String} (hne : s.toList ≠ [])
    (hhead : ∀ c ∈ s.toList.head?, isBlank c = false)
    (hlast : ∀ c ∈ s.toList.getLast?, isBlank c = false) : IsTidy s := by
  constructor
  · rw [trim, trimChars_eq_self_iff.2 ⟨hhead, hlast⟩, String.ofList_toList]
  · obtain ⟨c, cs, hcs⟩ := List.exists_cons_of_ne_nil hne
    have hc := hhead c (by simp [hcs])
    simp [isBlankText, hcs, hc]

/-- At the end of a tidy text stands no blank. -/
theorem IsTidy.last {s : String} (h : IsTidy s) : ∀ c ∈ s.toList.getLast?, isBlank c = false := by
  refine (trimChars_eq_self_iff.1 ?_).2
  rw [← String.toList_ofList (l := trimChars s.toList), ← trim, h.trim_eq]

end Text

/-- A character of a segment is not blank. -/
theorem isBlank_of_isWordChar {c : Char} (h : isWordChar c = true) : Text.isBlank c = false := by
  refine Lexeme.isBlank_of_continuesWord ?_
  have hdef : Lexeme.continuesWord c = (c.isAlpha || c.isDigit || c == '_' || c == ':') := rfl
  simp only [isWordChar, Char.isAlphanum, Bool.or_eq_true] at h
  rw [hdef, Bool.or_eq_true, Bool.or_eq_true, Bool.or_eq_true]
  exact .inl h

/-! ## Fields -/

namespace Check

variable {α β : Type} {check : Check α} {ms : List (String × Json)} {v : Json} {x : α}

/-- What a step to a part leads to. -/
theorem within_eq_ok {α : Type} {step : Step} {result : Except Violation α} {x : α} :
    within step result = .ok x ↔ result = .ok x := by
  cases result <;> simp [within, Except.mapError]

/-- A field that has to be present is checked where it is found. -/
theorem exists_of_required {name : String} (h : required ms name check = .ok x) :
    ∃ v, ms.lookup name = some v ∧ check v = .ok x := by
  rw [required, within_eq_ok] at h
  cases hv : ms.lookup name with
  | none => exact absurd h (by simp [hv, refuse])
  | some v => exact ⟨v, rfl, by simpa [hv] using h⟩

/-- A field that is present has the value that its check accepts. -/
theorem required_of_lookup {name : String} (hv : ms.lookup name = some v) (h : check v = .ok x) :
    required ms name check = .ok x := by
  rw [required, within_eq_ok, hv]
  exact h

/-- A field that may be missing is checked where it is found. -/
theorem optional_eq_ok {names : List String} {default : α}
    (h : optional ms names default check = .ok x) : x = default ∨ ∃ v, check v = .ok x := by
  unfold optional at h
  split at h
  · exact .inr ⟨_, within_eq_ok.1 h⟩
  · exact .inl (Except.ok.inj h).symm

/-- Members hold a value under the first of a field's names that they have. -/
def Holds (ms : List (String × Json)) (names : List String) (v : Json) : Prop :=
  ∃ name, find? ms names = some (name, v)

/-- The first name of a field comes before all its other names. -/
theorem holds_of_lookup {name : String} {names : List String} (hv : ms.lookup name = some v) :
    Holds ms (name :: names) v :=
  ⟨name, by simp [find?, hv]⟩

/-- A field that is present under one of its names has the value that its check accepts. -/
theorem optional_of_holds {names : List String} {default : α} (hv : Holds ms names v)
    (h : check v = .ok x) : optional ms names default check = .ok x := by
  obtain ⟨name, hfind⟩ := hv
  rw [optional, hfind]
  exact within_eq_ok.2 h

/-- A field that is present under its first name has the value that its check accepts. -/
theorem optional_of_lookup {name : String} {names : List String} {default : α}
    (hv : ms.lookup name = some v) (h : check v = .ok x) :
    optional ms (name :: names) default check = .ok x :=
  optional_of_holds (holds_of_lookup hv) h

/-- What is left of a list was left of its items. -/
theorem exists_of_mem_listOf {xs : List α} (h : listOf check v = .ok xs) (hx : x ∈ xs) :
    ∃ item, check item = .ok x := by
  have items {i : Nat} {vs : List Json} {xs : List α} (h : itemsFrom check i vs = .ok xs)
      (hx : x ∈ xs) : ∃ item, check item = .ok x := by
    induction vs generalizing i xs with
    | nil =>
      obtain rfl := Except.ok.inj h
      contradiction
    | cons v vs ih =>
      obtain ⟨y, hy, h⟩ := Grammar.exists_of_bind_eq_ok h
      obtain ⟨ys, hys, h⟩ := Grammar.exists_of_bind_eq_ok h
      obtain rfl := Except.ok.inj h
      rcases List.mem_cons.1 hx with rfl | hx
      · exact ⟨v, within_eq_ok.1 hy⟩
      · exact ih hys hx
  cases v with
  | array vs => exact items h hx
  | null | bool _ | int _ | float _ | string _ | object _ => exact absurd h (by simp [listOf, refuse])

/-- A list is checked item by item. -/
theorem listOf_eq_ok {vs : List Json} {xs : List α}
    (h : List.Forall₂ (fun x v => check v = .ok x) xs vs) : listOf check (.array vs) = .ok xs := by
  have items (i : Nat) : itemsFrom check i vs = .ok xs := by
    induction h generalizing i with
    | nil => rfl
    | @cons x v xs vs hx _ ih =>
      have hwithin : within (.item i) (check v) = .ok x := within_eq_ok.2 hx
      rw [itemsFrom, hwithin]
      show (itemsFrom check (i + 1) vs >>= fun xs => _) = _
      rw [ih]
      rfl
  exact items 0

/-- A list of texts is left as it is. -/
theorem listOf_text (ss : List String) : listOf text (Json.ofTexts ss) = .ok ss := by
  refine listOf_eq_ok ?_
  rw [List.forall₂_map_right_iff]
  exact List.forall₂_same.2 fun s _ => rfl

/-- A text that may be missing is read back as it was written, null standing for none. -/
theorem textOrNull_ofText? (s : Option String) : textOrNull (.ofText? s) = .ok s := by
  cases s <;> rfl

/-- A text that has to be filled is. -/
theorem of_filledText {field : String} {s : String} (h : filledText field v = .ok s) :
    v = .string s ∧ Text.isBlankText s = false := by
  obtain ⟨raw, hraw, h⟩ := Grammar.exists_of_bind_eq_ok h
  split at h
  · exact absurd h (by simp [refuse])
  · rename_i hblank
    obtain rfl := Except.ok.inj h
    cases v with
    | string s =>
      obtain rfl := Except.ok.inj hraw
      exact ⟨rfl, by simpa using hblank⟩
    | null | bool _ | int _ | float _ | array _ | object _ =>
      exact absurd hraw (by simp [text, refuse])

/-- A text that is not blank is accepted as it is. -/
theorem filledText_eq_ok (field : String) {s : String} (h : Text.isBlankText s = false) :
    filledText field (.string s) = .ok s := by
  simp [filledText, text, h, bind, Except.bind, pure, Except.pure]

/-- A name is a text without the blanks around it, and a run of the characters of a
segment. -/
theorem exists_of_name {n : String} (h : name v = .ok n) :
    ∃ raw, v = .string raw ∧ n = Text.trim raw ∧ isWord n.toList = true := by
  cases v with
  | string raw =>
    obtain ⟨raw', hraw, h⟩ := Grammar.exists_of_bind_eq_ok h
    obtain rfl : raw = raw' := Except.ok.inj hraw
    dsimp only at h
    split at h
    · exact absurd h (by simp [refuse])
    · rename_i hne
      split at h
      · exact absurd h (by simp [refuse])
      · split at h
        · rename_i hall
          have hnonempty : (Text.trim raw).toList.isEmpty = false := by
            simpa [List.isEmpty_iff] using hne
          have hword : isWord (Text.trim raw).toList = true := by
            rw [isWord, hnonempty, Bool.not_false, Bool.true_and]
            exact hall
          obtain rfl : Text.trim raw = n := Except.ok.inj h
          exact ⟨raw, rfl, rfl, hword⟩
        · exact absurd h (by simp [refuse])
  | null | bool _ | int _ | float _ | array _ | object _ =>
    exact absurd h (by simp [name, text, refuse, bind, Except.bind])

/-- A name of letters, digits and underscores is accepted as it is. -/
theorem name_eq_ok {n : String} (h : isWord n.toList = true) : name (.string n) = .ok n := by
  simp only [isWord, Bool.and_eq_true, Bool.not_eq_true', List.all_eq_true] at h
  obtain ⟨hne, hall⟩ := h
  have htrim : Text.trim n = n := by
    have hends : Text.trimChars n.toList = n.toList := Text.trimChars_eq_self_iff.2
      ⟨fun c hc => isBlank_of_isWordChar (hall c (List.mem_of_head? hc)),
        fun c hc => isBlank_of_isWordChar (hall c (List.mem_of_getLast? hc))⟩
    rw [Text.trim, hends, String.ofList_toList]
  have hempty : n ≠ "" := by
    rintro rfl
    contradiction
  have hcolon : ':' ∉ n.toList := fun hc => absurd (hall _ hc) (by decide)
  have hword : n.toList.all (fun c => c.isAlphanum || c == '_') = true := List.all_eq_true.2 hall
  simp only [name, text, bind, Except.bind, htrim, if_neg hempty, if_neg hcolon, if_pos hword]
  rfl

/-- Statements are not blank. -/
theorem isBlankText_of_mem_statements {ss : List String} (h : statements v = .ok ss) {s : String}
    (hs : s ∈ ss) : Text.isBlankText s = false := by
  cases v with
  | null =>
    obtain rfl := Except.ok.inj h
    contradiction
  | string raw =>
    obtain rfl := Except.ok.inj h
    split at hs
    · contradiction
    · rename_i hblank
      obtain rfl := List.mem_singleton.1 hs
      simpa using hblank
  | array items =>
    cases hts : texts? items with
    | none => exact absurd h (by simp [statements, hts, refuse])
    | some texts =>
      obtain rfl : texts.filter (fun s => !Text.isBlankText s) = ss := by
        simpa [statements, hts] using h
      simpa using (List.mem_filter.1 hs).2
  | bool _ | int _ | float _ | object _ => exact absurd h (by simp [statements, refuse])

/-- Statements that are not blank are all kept, in their order. -/
theorem statements_eq_ok {ss : List String} (h : ∀ s ∈ ss, Text.isBlankText s = false) :
    statements (.ofTexts ss) = .ok ss := by
  have hkept : ss.filter (fun s => !Text.isBlankText s) = ss :=
    List.filter_eq_self.2 fun s hs => by simp [h s hs]
  simp [statements, Json.ofTexts, hkept]

/-- Names are tidy. -/
theorem isTidy_of_mem_names {ns : List String} (h : names v = .ok ns) {n : String}
    (hn : n ∈ ns) : Text.IsTidy n := by
  have tidied {ss : List String} (hn : n ∈ tidy ss) : Text.IsTidy n := by
    obtain ⟨s, hs, rfl⟩ := List.mem_map.1 hn
    exact Text.isTidy_trim (by simpa using (List.mem_filter.1 hs).2)
  cases v with
  | null =>
    obtain rfl := Except.ok.inj h
    contradiction
  | string s =>
    obtain rfl := Except.ok.inj h
    exact tidied hn
  | array items =>
    cases hts : texts? items with
    | none => exact absurd h (by simp [names, hts, refuse])
    | some ss =>
      obtain rfl : tidy ss = ns := by simpa [names, hts] using h
      exact tidied hn
  | bool _ | int _ | float _ | object _ => exact absurd h (by simp [names, refuse])

/-- Names without blanks around them are all kept, in their order. -/
theorem names_eq_ok {ns : List String} (h : ∀ n ∈ ns, Text.IsTidy n) :
    names (.ofTexts ns) = .ok ns := by
  have hkept : ns.filter (fun n => !Text.isBlankText n) = ns :=
    List.filter_eq_self.2 fun n hn => by simp [(h n hn).filled]
  have hmap : ns.map Text.trim = ns := by
    rw [List.map_congr_left fun n hn => (h n hn).trim_eq, List.map_id']
  simp [names, Json.ofTexts, tidy, hkept, hmap]

end Check

/-! ## Records -/

/-- An option that needs no tidying. -/
structure OptionRecord.IsValid (r : OptionRecord) : Prop where
  target : Text.IsTidy r.target
  condition : ∀ s ∈ r.condition, Text.isBlankText s = false
  actions : ∀ s ∈ r.actions, Text.isBlankText s = false

/-- A scene that needs no tidying. -/
structure SceneRecord.IsValid (r : SceneRecord) : Prop where
  name : isWord r.name.toList = true
  title : Text.isBlankText r.title = false
  content : r.content ≠ []
  actions : ∀ s ∈ r.actions, Text.isBlankText s = false
  options : ∀ o ∈ r.options, o.IsValid

/-- An adventure that needs no tidying. -/
structure AdventureRecord.IsValid (r : AdventureRecord) : Prop where
  name : isWord r.name.toList = true
  title : Text.isBlankText r.title = false
  version : r.version = Check.formatVersion
  requires : ∀ n ∈ r.requires, Text.IsTidy n
  actions : ∀ s ∈ r.actions, Text.isBlankText s = false
  startingScene : Text.isBlankText r.startingScene = false
  scenes : ∀ s ∈ r.scenes, s.IsValid

namespace Check

variable {ms : List (String × Json)} {v : Json}

/-- What statements are left where they may be missing. -/
theorem isBlankText_of_actions {ss : List String}
    (h : optional ms ["actions"] [] statements = .ok ss) :
    ∀ s ∈ ss, Text.isBlankText s = false := by
  obtain rfl | ⟨v, hv⟩ := optional_eq_ok h
  · exact List.forall_mem_nil _
  · exact fun s hs => isBlankText_of_mem_statements hv hs

/-- A target that is accepted needs no more tidying. -/
theorem isTidy_of_target {s : String} (h : target v = .ok s) : Text.IsTidy s := by
  obtain ⟨raw, hraw, h⟩ := Grammar.exists_of_bind_eq_ok h
  obtain rfl := Except.ok.inj h
  exact Text.isTidy_trim (of_filledText hraw).2

/-- A condition that is left is not blank: blank ones are dropped. -/
theorem isBlankText_of_condition {c : Option String} (h : condition v = .ok c) :
    ∀ s ∈ c, Text.isBlankText s = false := by
  intro s hs
  cases v with
  | string raw =>
    obtain rfl := Except.ok.inj h
    split at hs
    · contradiction
    · rename_i hblank
      obtain rfl := Option.some.inj hs
      simpa using hblank
  | null =>
    obtain rfl := Except.ok.inj h
    contradiction
  | bool _ | int _ | float _ | array _ | object _ =>
    exact absurd h (by simp [condition, textOrNull, text, refuse, Except.map])

/-- A starting scene that is accepted is not blank. -/
theorem isBlankText_of_startingScene {s : String} (h : startingScene v = .ok s) :
    Text.isBlankText s = false := by
  cases v with
  | null =>
    obtain rfl := Except.ok.inj h
    decide
  | string raw =>
    obtain rfl := Except.ok.inj h
    split
    · decide
    · rename_i hblank
      simpa using hblank
  | bool _ | int _ | float _ | array _ | object _ =>
    exact absurd h (by simp [startingScene, text, refuse])

/-- A scene that is accepted has a paragraph. -/
theorem ne_nil_of_content {ps : List String} (h : content v = .ok ps) : ps ≠ [] := by
  obtain ⟨paragraphs, -, h⟩ := Grammar.exists_of_bind_eq_ok h
  split at h
  · exact absurd h (by simp [refuse])
  · rename_i hne
    obtain rfl := Except.ok.inj h
    simpa using hne

/-- There is one version only that is accepted. -/
theorem version_eq {n : Int} (h : version v = .ok n) : n = formatVersion := by
  obtain ⟨m, -, h⟩ := Grammar.exists_of_bind_eq_ok h
  split at h
  · rename_i hm
    exact Except.ok.inj h ▸ hm
  · exact absurd h (by simp [refuse])

/-- What is left of an option is valid. -/
theorem isValid_of_option {r : OptionRecord} (h : option v = .ok r) : r.IsValid := by
  cases v with
  | object ms =>
    obtain ⟨label, -, h⟩ := Grammar.exists_of_bind_eq_ok h
    obtain ⟨target, htarget, h⟩ := Grammar.exists_of_bind_eq_ok h
    obtain ⟨condition, hcondition, h⟩ := Grammar.exists_of_bind_eq_ok h
    obtain ⟨visible, -, h⟩ := Grammar.exists_of_bind_eq_ok h
    obtain ⟨actions, hactions, h⟩ := Grammar.exists_of_bind_eq_ok h
    obtain rfl := Except.ok.inj h
    obtain ⟨v, -, hv⟩ := exists_of_required htarget
    refine ⟨isTidy_of_target hv, ?_, isBlankText_of_actions hactions⟩
    obtain rfl | ⟨v, hv⟩ := optional_eq_ok hcondition
    · exact nofun
    · exact isBlankText_of_condition hv
  | null | bool _ | int _ | float _ | string _ | array _ =>
    exact absurd h (by simp [option, refuse])

/-- What is left of a scene is valid. -/
theorem isValid_of_scene {r : SceneRecord} (h : scene v = .ok r) : r.IsValid := by
  cases v with
  | object ms =>
    obtain ⟨name, hname, h⟩ := Grammar.exists_of_bind_eq_ok h
    obtain ⟨title, htitle, h⟩ := Grammar.exists_of_bind_eq_ok h
    obtain ⟨content, hcontent, h⟩ := Grammar.exists_of_bind_eq_ok h
    obtain ⟨actions, hactions, h⟩ := Grammar.exists_of_bind_eq_ok h
    obtain ⟨options, hoptions, h⟩ := Grammar.exists_of_bind_eq_ok h
    obtain rfl := Except.ok.inj h
    obtain ⟨n, -, hn⟩ := exists_of_required hname
    obtain ⟨t, -, ht⟩ := exists_of_required htitle
    obtain ⟨c, -, hc⟩ := exists_of_required hcontent
    obtain ⟨-, -, -, hword⟩ := exists_of_name hn
    refine ⟨hword, (of_filledText ht).2, ne_nil_of_content hc, isBlankText_of_actions hactions, ?_⟩
    obtain rfl | ⟨os, hos⟩ := optional_eq_ok hoptions
    · exact List.forall_mem_nil _
    · intro o ho
      obtain ⟨item, hitem⟩ := exists_of_mem_listOf hos ho
      exact isValid_of_option hitem
  | null | bool _ | int _ | float _ | string _ | array _ =>
    exact absurd h (by simp [scene, refuse])

end Check

namespace AdventureRecord

variable {document : Json} {r : AdventureRecord}

/-- What is left of an object's members is valid, with the name that they declare. -/
theorem of_adventure {ms : List (String × Json)} (h : Check.adventure ms = .ok r) :
    (∃ raw, ms.lookup "name" = some (.string raw) ∧ r.name = Text.trim raw) ∧ r.IsValid := by
  obtain ⟨name, hname, h⟩ := Grammar.exists_of_bind_eq_ok h
  obtain ⟨title, htitle, h⟩ := Grammar.exists_of_bind_eq_ok h
  obtain ⟨version, hversion, h⟩ := Grammar.exists_of_bind_eq_ok h
  obtain ⟨author, -, h⟩ := Grammar.exists_of_bind_eq_ok h
  obtain ⟨requires, hrequires, h⟩ := Grammar.exists_of_bind_eq_ok h
  obtain ⟨actions, hactions, h⟩ := Grammar.exists_of_bind_eq_ok h
  obtain ⟨top, -, h⟩ := Grammar.exists_of_bind_eq_ok h
  obtain ⟨bottom, -, h⟩ := Grammar.exists_of_bind_eq_ok h
  obtain ⟨start, hstart, h⟩ := Grammar.exists_of_bind_eq_ok h
  obtain ⟨scenes, hscenes, h⟩ := Grammar.exists_of_bind_eq_ok h
  obtain rfl := Except.ok.inj h
  obtain ⟨n, hlookup, hn⟩ := Check.exists_of_required hname
  obtain ⟨t, -, ht⟩ := Check.exists_of_required htitle
  obtain ⟨v, -, hv⟩ := Check.exists_of_required hversion
  obtain ⟨s, -, hs⟩ := Check.exists_of_required hscenes
  obtain ⟨raw, rfl, hraw, hword⟩ := Check.exists_of_name hn
  constructor
  · exact ⟨raw, hlookup, hraw⟩
  · refine ⟨hword, (Check.of_filledText ht).2, Check.version_eq hv, ?_,
      Check.isBlankText_of_actions hactions, ?_, fun scene hscene => ?_⟩
    · obtain rfl | ⟨ns, hns⟩ := Check.optional_eq_ok hrequires
      · exact List.forall_mem_nil _
      · exact fun n hn => Check.isTidy_of_mem_names hns hn
    · obtain rfl | ⟨raw, hraw⟩ := Check.optional_eq_ok hstart
      · exact (by decide : Text.isBlankText "start" = false)
      · exact Check.isBlankText_of_startingScene hraw
    · obtain ⟨item, hitem⟩ := Check.exists_of_mem_listOf hs hscene
      exact Check.isValid_of_scene hitem

/-- **What is left of a document is valid**, with the name that it declares. -/
theorem of_validate (h : validate document = .ok r) :
    (∃ raw, document.get? "name" = some (.string raw) ∧ r.name = Text.trim raw) ∧ r.IsValid := by
  cases document with
  | object ms =>
    refine @of_adventure r ms ?_
    unfold validate at h
    cases hms : Check.adventure ms with
    | error v => exact absurd h (by simp [hms, Except.mapError])
    | ok r' => simpa [hms, Except.mapError] using h
  | null | bool _ | int _ | float _ | string _ | array _ => exact absurd h (by simp [validate])

end AdventureRecord

/-! ## Records shown by members -/

/-- Members that show an option, in any order. -/
structure OptionRecord.ShownBy (r : OptionRecord) (ms : List (String × Json)) : Prop where
  label : ms.lookup "label" = some (.string r.label)
  target : ms.lookup "target" = some (.string r.target)
  condition : ms.lookup "condition" = some (.ofText? r.condition)
  alwaysVisible : ms.lookup "alwaysVisible" = some (.bool r.alwaysVisible)
  actions : ms.lookup "actions" = some (.ofTexts r.actions)

/-- Members that show a scene, in any order. -/
structure SceneRecord.ShownBy (r : SceneRecord) (ms : List (String × Json)) : Prop where
  name : ms.lookup "name" = some (.string r.name)
  title : ms.lookup "title" = some (.string r.title)
  content : ms.lookup "content" = some (.ofTexts r.content)
  actions : ms.lookup "actions" = some (.ofTexts r.actions)
  options : ∃ items, ms.lookup "options" = some (.array items) ∧
    List.Forall₂ (fun o item => ∃ ms, item = .object ms ∧ o.ShownBy ms) r.options items

/-- Members that show an adventure, in any order. -/
structure AdventureRecord.ShownBy (r : AdventureRecord) (ms : List (String × Json)) : Prop where
  name : ms.lookup "name" = some (.string r.name)
  title : ms.lookup "title" = some (.string r.title)
  version : ms.lookup "version" = some (.int r.version)
  author : ms.lookup "author" = some (.ofText? r.author)
  requires : ms.lookup "requires" = some (.ofTexts r.requires)
  actions : ms.lookup "actions" = some (.ofTexts r.actions)
  globalTop : ms.lookup "globalTop" = some (.ofText? r.globalTop)
  globalBottom : ms.lookup "globalBottom" = some (.ofText? r.globalBottom)
  startingScene : ms.lookup "startingScene" = some (.string r.startingScene)
  scenes : ∃ items, ms.lookup "scenes" = some (.array items) ∧
    List.Forall₂ (fun s item => ∃ ms, item = .object ms ∧ s.ShownBy ms) r.scenes items

/-- Members that an option is written in, under either name of a field that has two. -/
structure OptionRecord.WrittenIn (r : OptionRecord) (ms : List (String × Json)) : Prop where
  label : ms.lookup "label" = some (.string r.label)
  target : ms.lookup "target" = some (.string r.target)
  condition : ms.lookup "condition" = some (.ofText? r.condition)
  alwaysVisible : Check.Holds ms ["alwaysVisible", "always_visible"] (.bool r.alwaysVisible)
  actions : ms.lookup "actions" = some (.ofTexts r.actions)

/-- Members that a scene is written in, with its options under either name. -/
structure SceneRecord.WrittenIn (r : SceneRecord) (ms : List (String × Json)) : Prop where
  name : ms.lookup "name" = some (.string r.name)
  title : ms.lookup "title" = some (.string r.title)
  content : ms.lookup "content" = some (.ofTexts r.content)
  actions : ms.lookup "actions" = some (.ofTexts r.actions)
  options : ∃ items, ms.lookup "options" = some (.array items) ∧
    List.Forall₂ (fun o item => ∃ ms, item = .object ms ∧ o.WrittenIn ms) r.options items

/-- Members that an adventure is written in, under either name of a field that has two. -/
structure AdventureRecord.WrittenIn (r : AdventureRecord) (ms : List (String × Json)) : Prop where
  name : ms.lookup "name" = some (.string r.name)
  title : ms.lookup "title" = some (.string r.title)
  version : ms.lookup "version" = some (.int r.version)
  author : ms.lookup "author" = some (.ofText? r.author)
  requires : ms.lookup "requires" = some (.ofTexts r.requires)
  actions : ms.lookup "actions" = some (.ofTexts r.actions)
  globalTop : Check.Holds ms ["globalTop", "global_top"] (.ofText? r.globalTop)
  globalBottom : Check.Holds ms ["globalBottom", "global_bottom"] (.ofText? r.globalBottom)
  startingScene : Check.Holds ms ["startingScene", "starting_scene"] (.string r.startingScene)
  scenes : ∃ items, ms.lookup "scenes" = some (.array items) ∧
    List.Forall₂ (fun s item => ∃ ms, item = .object ms ∧ s.WrittenIn ms) r.scenes items

/-- Members that show an option are members that it is written in. -/
theorem OptionRecord.ShownBy.writtenIn {r : OptionRecord} {ms : List (String × Json)}
    (h : r.ShownBy ms) : r.WrittenIn ms :=
  ⟨h.label, h.target, h.condition, Check.holds_of_lookup h.alwaysVisible, h.actions⟩

/-- Members that show a scene are members that it is written in, and so are those of its options. -/
theorem SceneRecord.ShownBy.writtenIn {r : SceneRecord} {ms : List (String × Json)}
    (h : r.ShownBy ms) : r.WrittenIn ms := by
  obtain ⟨items, hitems, hshown⟩ := h.options
  refine ⟨h.name, h.title, h.content, h.actions, items, hitems, hshown.imp ?_⟩
  rintro o _ ⟨ms, rfl, ho⟩
  exact ⟨ms, rfl, ho.writtenIn⟩

/-- Members that show an adventure are members that it is written in, and so are those of its
scenes. -/
theorem AdventureRecord.ShownBy.writtenIn {r : AdventureRecord} {ms : List (String × Json)}
    (h : r.ShownBy ms) : r.WrittenIn ms := by
  obtain ⟨items, hitems, hshown⟩ := h.scenes
  refine ⟨h.name, h.title, h.version, h.author, h.requires, h.actions,
    Check.holds_of_lookup h.globalTop, Check.holds_of_lookup h.globalBottom,
    Check.holds_of_lookup h.startingScene, items, hitems, hshown.imp ?_⟩
  rintro s _ ⟨ms, rfl, hs⟩
  exact ⟨ms, rfl, hs.writtenIn⟩

namespace Check

/-- A tidy target is accepted as it is. -/
theorem target_eq_ok {s : String} (h : Text.IsTidy s) : target (.string s) = .ok s := by
  simp only [target, filledText_eq_ok "target" h.filled, bind, Except.bind, h.trim_eq]
  rfl

/-- A condition that is not blank, or none at all, is accepted as it is. -/
theorem condition_eq_ok {c : Option String} (h : ∀ s ∈ c, Text.isBlankText s = false) :
    condition (.ofText? c) = .ok c := by
  cases c with
  | none => rfl
  | some s => simp [Json.ofText?, condition, h s rfl]

/-- A starting scene that is not blank is accepted as it is. -/
theorem startingScene_eq_ok {s : String} (h : Text.isBlankText s = false) :
    startingScene (.string s) = .ok s := by
  simp [startingScene, h]

/-- Paragraphs are accepted as they are, if there is one. -/
theorem content_eq_ok {ps : List String} (h : ps ≠ []) : content (.ofTexts ps) = .ok ps := by
  simp only [content, listOf_text, bind, Except.bind, List.isEmpty_eq_false_iff.2 h]
  rfl

/-- An option that needs no tidying is left as it is. -/
theorem option_eq_ok {r : OptionRecord} (h : r.IsValid) {ms : List (String × Json)}
    (hms : r.WrittenIn ms) : option (.object ms) = .ok r := by
  have hlabel : text (.string r.label) = .ok r.label := rfl
  have hvisible : truth (.bool r.alwaysVisible) = .ok r.alwaysVisible := rfl
  rw [option, required_of_lookup hms.label hlabel,
    required_of_lookup hms.target (target_eq_ok h.target),
    optional_of_lookup hms.condition (condition_eq_ok h.condition),
    optional_of_holds hms.alwaysVisible hvisible,
    optional_of_lookup hms.actions (statements_eq_ok h.actions)]
  rfl

/-- A scene that needs no tidying is left as it is. -/
theorem scene_eq_ok {r : SceneRecord} (h : r.IsValid) {ms : List (String × Json)}
    (hms : r.WrittenIn ms) : scene (.object ms) = .ok r := by
  obtain ⟨items, hitems, hwritten⟩ := hms.options
  have hoptions : listOf option (.array items) = .ok r.options := by
    refine listOf_eq_ok (((List.forall₂_and_left _ _).2 ⟨h.options, hwritten⟩).imp ?_)
    rintro o _ ⟨ho, ms, rfl, hms⟩
    exact option_eq_ok ho hms
  rw [scene, required_of_lookup hms.name (name_eq_ok h.name),
    required_of_lookup hms.title (filledText_eq_ok "title" h.title),
    required_of_lookup hms.content (content_eq_ok h.content),
    optional_of_lookup hms.actions (statements_eq_ok h.actions),
    optional_of_lookup hitems hoptions]
  rfl

end Check

namespace AdventureRecord

variable {r : AdventureRecord} {ms : List (String × Json)}

/-- **What needs no tidying is left as it is**, however it is written. -/
theorem IsValid.validate_of_writtenIn (h : r.IsValid) (hms : r.WrittenIn ms) :
    validate (.object ms) = .ok r := by
  obtain ⟨items, hitems, hwritten⟩ := hms.scenes
  have hscenes : Check.listOf Check.scene (.array items) = .ok r.scenes := by
    refine Check.listOf_eq_ok (((List.forall₂_and_left _ _).2 ⟨h.scenes, hwritten⟩).imp ?_)
    rintro s _ ⟨hs, ms, rfl, hms⟩
    exact Check.scene_eq_ok hs hms
  have hversion : Check.version (.int r.version) = .ok r.version := by
    rw [h.version]
    rfl
  have hmembers : Check.adventure ms = .ok r := by
    rw [Check.adventure, Check.required_of_lookup hms.name (Check.name_eq_ok h.name),
      Check.required_of_lookup hms.title (Check.filledText_eq_ok "title" h.title),
      Check.required_of_lookup hms.version hversion,
      Check.optional_of_lookup hms.author (Check.textOrNull_ofText? _),
      Check.optional_of_lookup hms.requires (Check.names_eq_ok h.requires),
      Check.optional_of_lookup hms.actions (Check.statements_eq_ok h.actions),
      Check.optional_of_holds hms.globalTop (Check.textOrNull_ofText? _),
      Check.optional_of_holds hms.globalBottom (Check.textOrNull_ofText? _),
      Check.optional_of_holds hms.startingScene (Check.startingScene_eq_ok h.startingScene),
      Check.required_of_lookup hitems hscenes]
    rfl
  rw [validate, hmembers]
  rfl

/-- Members that show a valid record are validated to it. -/
theorem IsValid.validate_eq (h : r.IsValid) (hms : r.ShownBy ms) : validate (.object ms) = .ok r :=
  h.validate_of_writtenIn hms.writtenIn

end AdventureRecord

end Gamebook
