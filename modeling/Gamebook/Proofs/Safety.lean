/-
# Plays that go through

What a play meets is registered and sound: where all references are linked, every choice
of a registered scene leads to a registered scene, and so does the start
(`Stage.IsSound`).  A move goes from such a scene to such a scene, so a play stops for no
other reason than an impasse, an error of a script, or a player who answers no more
(`Fault.isOrdinary`).

Sessions whose loads succeed have stories of this kind, whatever is linked, written and
played in between (`Session.result_ordinary`).
-/

import Gamebook.Proofs.Initialising
import Gamebook.Proofs.Interleaving
import Gamebook.Proofs.Moves
import Gamebook.Proofs.Scripts

namespace Gamebook

/-! ## Errors of scripts in a play -/

/-- The faults that a play can end with once it has begun. -/
def Fault.isOrdinary : Fault → Bool
  | .impasse _ | .endOfInput => true
  | .evaluation e => e.isScripted
  | .document _ | .disk _ | .history _ | .longNumber _ | .loneSurrogate | .tooDeep | .noHome
  | .notObject _ | .endlessRow => false

/-- A sound action assigns its number or stops with a scripted error. -/
theorem Action.scripted_evaluate {a : Action} (h : a.IsSound) (s : Store) :
    Scripted (a.evaluate s) := by
  rw [evaluate]
  exact (h s).bind fun x => .ok _

/-- Whether a play ends, or has an ordinary fault. -/
def Ordinary (result : Except Fault Outcome) : Prop :=
  ∀ f, result = .error f → f.isOrdinary = true

/-- An ordinary fault is an ordinary result. -/
theorem ordinary_error {f : Fault} (h : f.isOrdinary = true) : Ordinary (.error f) := by
  intro f' hf'
  obtain rfl := Except.error.inj hf'
  exact h

/-- An outcome is an ordinary result. -/
theorem ordinary_ok (o : Outcome) : Ordinary (.ok o) := by
  intro f hf
  contradiction

/-- An ordinary result is an outcome, an error of scripts, an impasse or the end of the lines. -/
theorem Ordinary.cases {result : Except Fault Outcome} (h : Ordinary result) :
    (∃ o, result = .ok o) ∨ (∃ e, result = .error (.evaluation e) ∧ e.isScripted = true) ∨
      (∃ i, result = .error (.impasse i)) ∨ result = .error .endOfInput := by
  cases result with
  | ok o => exact .inl ⟨o, rfl⟩
  | error f =>
    have hf := h f rfl
    cases f with
    | evaluation e => exact .inr (.inl ⟨e, rfl, hf⟩)
    | impasse i => exact .inr (.inr (.inl ⟨i, rfl⟩))
    | endOfInput => exact .inr (.inr (.inr rfl))
    | document | disk | history | longNumber | loneSurrogate | tooDeep | noHome | notObject
    | endlessRow => contradiction

/-- Actions are stopped by scripted errors only. -/
theorem Action.isScripted_runAll {actions : List Action} (h : ∀ a ∈ actions, a.IsSound)
    {s : Store} {e : EvalError} (he : (runAll actions s).1 = some e) : e.isScripted = true := by
  induction actions generalizing s with
  | nil => contradiction
  | cons a actions ih =>
    obtain ⟨ha, hactions⟩ := List.forall_mem_cons.1 h
    cases hvalue : a.evaluate s with
    | ok result =>
      rw [runAll_cons_of_ok hvalue] at he
      exact ih hactions he
    | error e' =>
      rw [runAll_cons_of_error hvalue] at he
      obtain rfl : e' = e := Option.some.inj he
      exact (scripted_evaluate ha s).of_error hvalue

namespace Choice

variable {s : Store} {choices available unavailable : List Choice}

/-- Whether a sound choice is open is told, or an error of its condition. -/
theorem scripted_isOpen {c : Choice} (h : c.IsSound) (s : Store) : Scripted (c.isOpen s) := by
  rw [isOpen]
  split
  · exact .ok true
  · rename_i condition hcondition
    exact h.condition condition hcondition s

/-- Sound choices are parted, or the first condition with an error stops it. -/
theorem scripted_partition (h : ∀ c ∈ choices, c.IsSound) (s : Store) :
    Scripted (partition s choices) := by
  induction choices with
  | nil => exact .ok _
  | cons c choices ih =>
    obtain ⟨hc, hchoices⟩ := List.forall_mem_cons.1 h
    rw [partition]
    exact (scripted_isOpen hc s).bind fun isOpen => (ih hchoices).bind fun apart => .ok _

/-- What is set apart are choices. -/
theorem mem_of_partition (h : partition s choices = .ok (available, unavailable)) {c : Choice}
    (hc : c ∈ available ++ unavailable) : c ∈ choices := by
  induction choices generalizing available unavailable with
  | nil =>
    obtain ⟨rfl, rfl⟩ : [] = available ∧ [] = unavailable := by simpa [partition] using h
    contradiction
  | cons first choices ih =>
    rw [partition] at h
    obtain ⟨isOpen, -, h⟩ := Grammar.exists_of_bind_eq_ok h
    obtain ⟨⟨opened, closed⟩, hrest, h⟩ := Grammar.exists_of_bind_eq_ok h
    have hperm : c = first ∨ c ∈ opened ++ closed := by
      cases isOpen with
      | true =>
        obtain ⟨rfl, rfl⟩ : first :: opened = available ∧ closed = unavailable :=
          Prod.mk.inj (Except.ok.inj h)
        simpa [or_assoc] using hc
      | false =>
        obtain ⟨rfl, rfl⟩ : opened = available ∧ first :: closed = unavailable :=
          Prod.mk.inj (Except.ok.inj h)
        simpa [or_left_comm] using hc
    exact hperm.elim (· ▸ List.mem_cons_self ..) fun hc => List.mem_cons_of_mem _ (ih hrest hc)

end Choice

/-- A menu that cannot be shown has a scripted error. -/
theorem Menu.isScripted_entries {placeholder : Option String} {s : Store}
    {marked : List (String × Choice)} (h : ∀ m ∈ marked, m.2.IsSound) {lines : List String}
    {e : EvalError} (he : entries placeholder s marked = (lines, some e)) :
    e.isScripted = true := by
  induction marked generalizing lines with
  | nil => simp [entries] at he
  | cons m marked ih =>
    obtain ⟨hm, hmarked⟩ := List.forall_mem_cons.1 h
    obtain ⟨mark, c⟩ := m
    rw [entries] at he
    split at he
    · rename_i e' hlabel
      obtain rfl : e' = e := Option.some.inj (Prod.mk.inj he).2
      exact (hm.label placeholder s).of_error hlabel
    · obtain ⟨-, hrest⟩ := Prod.mk.inj he
      exact ih hmarked (Prod.ext rfl hrest)

/-- What a menu shows are its choices. -/
theorem Menu.mem_of_mem_shown {m : Menu} {mark : String} {c : Choice} (h : (mark, c) ∈ m.shown) :
    c ∈ m.available ++ m.unavailable := by
  rw [shown, List.mem_append] at h
  obtain h | h := h
  · obtain ⟨⟨c', i⟩, hc, h⟩ := List.mem_map.1 h
    obtain ⟨-, rfl⟩ := Prod.mk.inj h
    exact List.mem_append_left _ (List.fst_mem_of_mem_zipIdx hc)
  · obtain ⟨c', hc, h⟩ := List.mem_map.1 h
    obtain ⟨-, rfl⟩ := Prod.mk.inj h
    exact List.mem_append_right _ (List.mem_of_mem_filter hc)

/-- A sound scene is narrated, or it stops with a scripted error. -/
theorem Scene.scripted_narration {scene : Scene} (h : scene.IsSound) (placeholder : Option String)
    (s : Store) : Scripted (scene.narration placeholder s) := by
  have hoptional {t : Option Template} (ht : ∀ u ∈ t, u.IsSound) :
      Scripted (t.toList.mapM (Template.render placeholder s)) :=
    Scripted.mapM fun u hu => ht u (by simpa using hu) placeholder s
  rw [narration]
  refine (h.title placeholder s).bind fun title => (hoptional h.header).bind fun above => ?_
  refine Scripted.bind ?_ fun paragraphs => (hoptional h.footer).bind fun below => .ok _
  exact (Scripted.mapM fun t ht => h.content t ht placeholder s).bind fun texts => .ok _

namespace Stage

variable {g : Stage} {history : History Identifier} {s : Store} {scene : Scene} {f : Fault}

/-- Offering the choices of a sound scene fails for an ordinary reason only. -/
theorem isOrdinary_offer (h : scene.IsSound)
    (hf : (g.offer history s scene).progress = .failed f) : f.isOrdinary = true := by
  unfold offer at hf
  dsimp only at hf
  split at hf
  · obtain rfl := Progress.failed.inj hf
    rfl
  · rename_i c hchoices
    split at hf
    · rename_i e hlabel
      obtain rfl := Progress.failed.inj hf
      have hc := h.choices c (hchoices ▸ List.mem_singleton_self c)
      exact (hc.label g.placeholder s).of_error hlabel
    · contradiction
  · split at hf
    · rename_i e hpartition
      obtain rfl := Progress.failed.inj hf
      exact (Choice.scripted_partition h.choices s).of_error hpartition
    · obtain rfl := Progress.failed.inj hf
      rfl
    · rename_i available unavailable _ hpartition
      split at hf
      · rename_i lines e hentries
        obtain rfl := Progress.failed.inj hf
        refine Menu.isScripted_entries (fun m hm => ?_) hentries
        exact h.choices _ (Choice.mem_of_partition hpartition (Menu.mem_of_mem_shown hm))
      · contradiction

/-- **A sound scene is entered with ordinary faults only.** -/
theorem isOrdinary_enter (h : scene.IsSound)
    (hf : (g.enter history s scene).progress = .failed f) : f.isOrdinary = true := by
  unfold enter at hf
  split at hf
  · rename_i e after hactions
    obtain rfl := Progress.failed.inj hf
    exact Action.isScripted_runAll h.actions (congrArg Prod.fst hactions)
  · dsimp only at hf
    split at hf
    · rename_i e hlines
      obtain rfl := Progress.failed.inj hf
      exact (Scene.scripted_narration h g.placeholder _).of_error hlines
    · exact isOrdinary_offer h hf

/-! ## Sound stages -/

/-- Whether a scene with an identifier is registered. -/
def Knows (g : Stage) (i : Identifier) : Prop := ∃ scene, g.registry.find? i = some scene

/-- Whether all scenes are sound, and all that they lead to is registered. -/
structure IsSound (g : Stage) : Prop where
  start : g.Knows g.adventure.start.identifier
  scenes : ∀ scene ∈ g.registry.scenes, scene.IsSound
  targets : ∀ scene ∈ g.registry.scenes, ∀ c ∈ scene.choices,
    ∃ i, c.target.target = .ok i ∧ g.Knows i

/-- Whether a play stands where it can go on, or is over for an ordinary reason. -/
def Safe (g : Stage) (c : Course) : Prop :=
  match c.standing with
  | .before target _ => g.Knows target
  | .waiting p => ∃ scene, g.registry.find? p.scene = some scene ∧ Offers c.store scene p.prompt
  | .ended result => Ordinary result

variable {c d : Course} {moments : List Moment}

/-- A play that is over for an ordinary reason is safe. -/
theorem safe_of_ended {result : Except Fault Outcome} {answers : List String}
    (h : Ordinary result) : g.Safe ⟨.ended result, s, answers⟩ := h

/-- **A move goes from scenes that are registered to such scenes.** -/
theorem safe_of_makes (hg : g.IsSound) (h : g.Makes c moments d) (hc : g.Safe c)
    (hknown : c.standing.Remembers g.Knows) : g.Safe d := by
  cases h with
  | returns back latest => exact hknown _ (latest ▸ List.mem_cons_self ..)
  | restarts back latest start => exact hg.start
  | strands | quits => exact safe_of_ended (ordinary_error rfl)
  | @finishes target history s answers control isControl forth =>
    cases control with
    | switch | back => exact safe_of_ended (ordinary_error rfl)
    | fail | pass | exit => exact safe_of_ended (ordinary_ok _)
  | misses noControl unknown =>
    obtain ⟨scene, hscene⟩ : g.Knows _ := hc
    rw [Registry.resolve, hscene] at unknown
    contradiction
  | @enters target history s answers scene noControl found =>
    have hsound := hg.scenes scene (Registry.mem_of_find? found).1
    have hoffers := @offersScene_enter g history s scene _ found
    rw [Safe]
    dsimp only
    cases hprogress : (g.enter history s scene).progress with
    | ended o => exact ordinary_ok o
    | failed f => exact ordinary_error (isOrdinary_enter hsound hprogress)
    | waiting p => exact hoffers p hprogress
  | repeats nothing => exact hc
  | @leaves p s line answers ch taken =>
    obtain ⟨scene, hscene, hoffers⟩ := hc
    obtain ⟨hmem, -⟩ := Registry.mem_of_find? hscene
    have hch := (hoffers.of_takes taken).1
    obtain ⟨i, hi, hnext⟩ := hg.targets scene hmem ch hch
    obtain ⟨e, he, hleave⟩ | ⟨d, hd, hleave⟩ | ⟨target, htarget, hleave⟩ := leave_cases p s ch
    · rw [hleave]
      refine ordinary_error (Action.isScripted_runAll ?_ he)
      exact ((hg.scenes scene hmem).choices ch hch).actions
    · rw [hi] at hd
      contradiction
    · obtain rfl := Except.ok.inj (hi.symm.trans htarget)
      rw [hleave]
      exact hnext

/-- **A play on a sound stage is over for an ordinary reason.** -/
theorem safe_moves (hg : g.IsSound) {n : Nat} (hclear : c.IsClear) (hn : c.bound ≤ n)
    (hc : g.Safe c) (hknown : c.standing.Remembers g.Knows) : g.Safe (g.moves n c).2 := by
  refine moves_induction
    (P := fun c _ e => g.Safe c → c.standing.Remembers g.Knows → g.Safe e) ?_ ?_ hclear hn hc hknown
  · exact fun _ _ _ hc _ => hc
  · intro c d e moments log _ hmakes ih hc hknown
    refine ih (safe_of_makes hg hmakes hc hknown) (remembers_of_makes hmakes ?_ hknown)
    exact fun i hi => (of_enters_mem hmakes hi).2

/-- **What is entered is registered.** -/
theorem knows_of_mem_moves {n : Nat} (hclear : c.IsClear) (hn : c.bound ≤ n) {i : Identifier}
    (hi : .enters i ∈ (g.moves n c).1) : g.Knows i := by
  refine moves_induction (P := fun _ log _ => .enters i ∈ log → g.Knows i) ?_ ?_ hclear hn hi
  · exact fun _ _ _ hi => absurd hi List.not_mem_nil
  · intro c d e moments log _ hmakes ih hi
    exact (List.mem_append.1 hi).elim (fun hi => (of_enters_mem hmakes hi).2) ih

/-- What is taken from the history was remembered. -/
theorem of_goesBack_mem {P : Identifier → Prop} {i : Identifier} (h : g.Makes c moments d)
    (hi : .goesBack (some i) ∈ moments) (hc : c.standing.Remembers P) : P i := by
  cases h with
  | @returns target last history before s answers back latest =>
    obtain rfl : i = last := by simpa using hi
    exact hc _ (latest ▸ List.mem_cons_self ..)
  | _ => simp at hi

/-- **A play goes back only to where it was.**  What is taken from the history was
entered before. -/
theorem entered_of_goesBack {n : Nat} (hclear : c.IsClear) (hn : c.bound ≤ n)
    (past : List Moment) (hpast : c.standing.Remembers fun i => .enters i ∈ past)
    {before behind : List Moment} {i : Identifier}
    (hlog : (g.moves n c).1 = before ++ .goesBack (some i) :: behind) :
    .enters i ∈ past ++ before := by
  refine moves_induction (P := fun c log _ => ∀ past before,
    (c.standing.Remembers fun i => .enters i ∈ past) →
    log = before ++ .goesBack (some i) :: behind → .enters i ∈ past ++ before)
    ?_ ?_ hclear hn past before hpast hlog
  · exact fun _ _ _ _ before _ hlog => by simp at hlog
  · intro c d e moments log _ hmakes ih past before hpast hlog
    -- what a move enters belongs to the past of the moves behind it
    have hbehind : ∀ rest, log = rest ++ .goesBack (some i) :: behind →
        .enters i ∈ past ++ (moments ++ rest) := by
      intro rest hrest
      have hd := remembers_of_makes (P := fun i => .enters i ∈ past ++ moments) hmakes
        (fun j hj => List.mem_append_right _ hj)
        (hpast.mono fun j hj => List.mem_append_left _ hj)
      exact List.append_assoc past moments rest ▸ ih (past ++ moments) rest hd hrest
    obtain ⟨rest, rfl, hrest⟩ | ⟨rest, hmoments, hrest⟩ := List.append_eq_append_iff.1 hlog
    · exact hbehind rest hrest
    · cases rest with
      | nil =>
        rw [List.append_nil] at hmoments
        exact hmoments ▸ List.append_nil moments ▸ hbehind [] hrest.symm
      | cons m rest =>
        obtain ⟨rfl, -⟩ := List.cons.inj hrest
        have hmem : .goesBack (some i) ∈ moments := by simp [hmoments]
        exact List.mem_append_left _ (of_goesBack_mem hmakes hmem hpast)

end Stage
/-! ## Stories -/

variable {known : Identifier → Bool}

/-- Linking keeps a choice sound. -/
theorem Choice.Becomes.isSound {ch ch' : Choice} (h : ch.Becomes known ch') (hch : ch.IsSound) :
    ch'.IsSound := by
  obtain ⟨r, -, rfl⟩ := h
  exact ⟨hch.label, hch.condition, hch.actions⟩

/-- Linking keeps a scene sound. -/
theorem Scene.Becomes.isSound {scene scene' : Scene} (h : scene.Becomes known scene')
    (hscene : scene.IsSound) : scene'.IsSound := by
  obtain ⟨choices, hchoices, rfl⟩ := h
  refine ⟨hscene.title, hscene.content, hscene.actions, fun ch' hch' => ?_, hscene.header,
    hscene.footer⟩
  obtain ⟨ch, hch, hbecomes⟩ := exists_mem_of_forall₂ hchoices hch'
  exact hbecomes.isSound (hscene.choices ch hch)

namespace Story

variable {s : Story}

/-- Every event keeps the scenes sound. -/
theorem isSound_next (h : s.Coherent) (hs : ∀ scene ∈ s.registry.scenes, scene.IsSound)
    (e : Event) :
    ∀ scene ∈ (s.next e).registry.scenes, scene.IsSound := by
  have hhappens := s.happens e
  generalize s.next e = t at hhappens
  cases hhappens with
  | refused => exact hs
  | built compiled fresh =>
    exact List.forall_mem_append.2 ⟨hs, (Adventure.compiledFromRecord_iff.1 compiled).isSound⟩
  | @linked ks =>
    intro scene' hscene'
    obtain ⟨scene, hscene, hbecomes⟩ :=
      exists_mem_of_forall₂ (becomes_linkAt h.nodup).registry hscene'
    exact hbecomes.isSound (hs scene hscene)

/-- **The scenes of a story are sound.** -/
theorem isSound_after (events : List Event) :
    ∀ scene ∈ (after {} events).registry.scenes, scene.IsSound :=
  (after_induction (P := fun s => s.Coherent ∧ ∀ scene ∈ s.registry.scenes, scene.IsSound)
    ⟨coherent_empty, List.forall_mem_nil _⟩
    fun _ e h => ⟨coherent_next h.1 e, isSound_next h.1 h.2 e⟩).2

/-- A resolved reference of a story leads to a registered scene. -/
theorem Coherent.exists_target (h : s.Coherent) {rs : List SceneRef} (hrs : rs ∈ s.references)
    {r : SceneRef} (hr : r ∈ rs) (hresolved : r.isResolved = true) :
    ∃ i, r.target = .ok i ∧ r.identifier = i ∧ ∃ scene, s.registry.find? i = some scene := by
  have hregistered := h.registered rs hrs r hr hresolved
  cases r with
  | unresolved i => contradiction
  | resolved i =>
    refine ⟨i, rfl, rfl, Option.isSome_iff_exists.1 ?_⟩
    rw [Registry.isSome_find?, Registry.contains_iff]
    exact hregistered

/-- Every registered scene belongs to an adventure. -/
theorem Exact.exists_adventure (h : s.Exact) {i : Identifier} (hi : i ∈ s.registry.identifiers) :
    ∃ b ∈ s.adventures, i ∈ b.scenes := by
  obtain ⟨e, he, hie⟩ := List.mem_flatMap.1 (h ▸ hi)
  obtain ⟨b, hb, rfl⟩ := List.mem_map.1 he
  exact ⟨b, hb, hie⟩

end Story

/-! ## Sessions -/

namespace Session

variable {s : Session} {name : String} {a : Adventure}

/-- No deed changes the settings. -/
theorem settings_next (s : Session) (d : Deed) : (s.next d).settings = s.settings := by
  cases d with
  | write store => rfl
  | call c =>
    cases c with
    | run name answers =>
      show (s.run name answers).2.settings = s.settings
      rw [run]
      cases s.story.find? name <;> rfl
    | link =>
      show (Request.link.answer s).2.settings = s.settings
      have hlinks := Request.links s
      generalize Request.link.answer s = answered at hlinks
      cases hlinks <;> rfl
    | load l =>
      show ((discard l.request).answer s).2.settings = s.settings
      rw [Request.answer_discard]
      have hanswers := l.answers s
      generalize l.request.answer s = answered at hanswers
      cases hanswers with
      | loaded | notFound => rfl
      | found _ loads => cases loads <;> rfl

/-- No deeds change the settings of a session. -/
theorem settings_later (s : Session) (deeds : List Deed) :
    (s.later deeds).settings = s.settings :=
  later_induction (P := fun t => t.settings = s.settings) rfl
    fun d t h => (settings_next t d).trans h

/-- **Deeds whose loads succeed build and link in turns.** -/
theorem exists_story_later (deeds : List Deed) (s : Session)
    (hload : ∀ before l behind, deeds = before ++ .call (.load l) :: behind →
      ∃ a, (l.request.answer (s.later before)).1 = .ok a) :
    ∃ events, (s.later deeds).story = s.story.after events := by
  induction deeds generalizing s with
  | nil => exact ⟨[], rfl⟩
  | cons d deeds ih =>
    obtain ⟨events, hevents⟩ : ∃ events, (s.next d).story = s.story.after events := by
      cases d with
      | write store => exact ⟨[], rfl⟩
      | call c => exact exists_story_answer c s fun l hl => hload [] l deeds (hl ▸ rfl)
    obtain ⟨more, hmore⟩ := ih (s.next d) fun before l behind hdeeds =>
      hload (d :: before) l behind (hdeeds ▸ rfl)
    refine ⟨events ++ more, ?_⟩
    rw [Story.after_append, ← hevents]
    exact hmore

/-- Such a session has a story that was built and linked from nothing. -/
theorem exists_story_later_start (settings : Settings) (library : Option Library) (disk : Disk)
    (deeds : List Deed)
    (hload : ∀ before l behind, deeds = before ++ .call (.load l) :: behind →
      ∃ a, (l.request.answer ((start settings library disk).later before)).1 = .ok a) :
    ∃ events, ((start settings library disk).later deeds).story = Story.after {} events := by
  obtain ⟨events, hevents⟩ := exists_story_later deeds (start settings library disk) hload
  refine ⟨[.build Control.adventure] ++ events, ?_⟩
  rw [hevents, Story.after_append, ← Story.opening_eq]
  rfl

/-- **Where all references are linked, the stage is sound.** -/
theorem isSound_stage {events : List Story.Event} (hstory : s.story = Story.after {} events)
    (hlinked : s.isLinked = true) (ha : s.story.find? name = some a) : (s.stage a).IsSound := by
  have hcoherent : s.story.Coherent := hstory ▸ Story.coherent_after events
  have hmem : a ∈ s.story.adventures := List.mem_of_find?_eq_some ha
  refine ⟨?_, ?_, fun scene hscene c hc => ?_⟩
  · have hrs := List.mem_map_of_mem (f := fun a => a.references s.story.registry) hmem
    have hr : a.start ∈ a.references s.story.registry := List.mem_cons_self ..
    obtain ⟨i, -, hi, hscene⟩ :=
      hcoherent.exists_target hrs hr (Story.isLinked_iff.1 hlinked _ hrs _ hr)
    exact hi ▸ hscene
  · show ∀ scene ∈ s.story.registry.scenes, scene.IsSound
    exact hstory ▸ Story.isSound_after events
  · obtain ⟨rs, hrs, hr⟩ := hcoherent.exists_mem_references hscene hc
    obtain ⟨i, hi, -, hscene⟩ :=
      hcoherent.exists_target hrs hr (Story.isLinked_iff.1 hlinked _ hrs _ hr)
    exact ⟨i, hi, hscene⟩

/-- A play that can begin begins where it can go on. -/
theorem safe_outset (hstage : (s.stage a).IsSound) (hstart : a.start.isResolved = true)
    (hpos : 1 ≤ s.settings.historyCapacity)
    (hlt : s.settings.historyCapacity.toNat < History.capacityLimit) (answers : List String) :
    (s.stage a).Safe (s.outset a answers) := by
  have hstandsBefore : ∃ i, a.start.target = .ok i ∧ a.start.identifier = i := by
    cases hr : a.start with
    | unresolved i =>
      rw [hr] at hstart
      contradiction
    | resolved i => exact ⟨i, rfl, rfl⟩
  obtain ⟨i, htarget, rfl⟩ := hstandsBefore
  unfold outset
  cases s.isLinked with
  | false => exact Stage.safe_of_ended (ordinary_error rfl)
  | true =>
    simp only [Bool.not_true, Bool.false_eq_true, if_false, History.ofCapacity_eq_ok hpos hlt,
      htarget]
    exact hstage.start

/-- **Plays do not go wrong.**  Let a session make any calls, and be written to in between,
and let those of its calls that load succeed; those that link may fail.  Whatever is then
played with whatever lines, the play ends, or it comes to an impasse, or a script has an
unset variable or divides by zero, or the player answers no more.  No document is refused
any more.  All scenes that it enters belong to loaded adventures, and when it takes a scene
from its history, it has entered it before. -/
theorem result_ordinary (settings : Settings) (library : Option Library) (disk : Disk)
    (deeds : List Deed) (name : String) (answers : List String)
    (hpos : 1 ≤ settings.historyCapacity)
    (hlt : settings.historyCapacity.toNat < History.capacityLimit)
    (hload : ∀ before l behind, deeds = before ++ .call (.load l) :: behind →
      ∃ a, (l.request.answer ((start settings library disk).later before)).1 = .ok a) :
    let t := (start settings library disk).later deeds
    (∀ f, (t.run name answers).1.result = .error f → f.isOrdinary = true) ∧
    ∀ a, t.story.find? name = some a →
      (t.stage a).Completes (3 * answers.length + 3) (t.outset a answers)
        (t.run name answers).1 ∧
      (∀ i, .enters i ∈ t.moments a answers → ∃ b ∈ t.story.adventures, i ∈ b.scenes) ∧
      ∀ before i behind, t.moments a answers = before ++ .goesBack (some i) :: behind →
        .enters i ∈ before := by
  intro t
  obtain ⟨events, hstory⟩ := exists_story_later_start settings library disk deeds hload
  have hcoherent : t.story.Coherent := hstory ▸ Story.coherent_after events
  have hsettings : t.settings = settings := settings_later _ deeds
  have hclear (a : Adventure) : (t.outset a answers).IsClear := t.remembers_outset a _ answers
  have hbound (a : Adventure) := t.bound_outset_le a answers
  refine ⟨?_, fun a ha => ⟨completes_run ha answers, fun i hi => ?_, ?_⟩⟩
  · cases ha : t.story.find? name with
    | none => simp [run, ha]
    | some a =>
      have hended := (completes_run ha answers).ended
      cases hlinked : t.isLinked with
      | false =>
        have houtset : (t.outset a answers).standing = .ended (.error (.impasse .notLinked)) := by
          simp [outset, hlinked]
        rw [Stage.moves_of_ended houtset, houtset] at hended
        rw [← Standing.ended.inj hended]
        exact ordinary_error rfl
      | true =>
        have hstage := isSound_stage hstory hlinked ha
        have hmem : a ∈ t.story.adventures := List.mem_of_find?_eq_some ha
        have hstart : a.start.isResolved = true :=
          Story.isLinked_iff.1 hlinked _ (List.mem_map_of_mem hmem) _ (List.mem_cons_self ..)
        have hsafe := Stage.safe_moves hstage (hclear a) (hbound a)
          (safe_outset hstage hstart (hsettings.symm ▸ hpos) (hsettings.symm ▸ hlt) answers)
          (t.remembers_outset a _ answers)
        rw [Stage.Safe, hended] at hsafe
        exact hsafe
  · obtain ⟨scene, hscene⟩ := Stage.knows_of_mem_moves (hclear a) (hbound a) hi
    obtain ⟨hmem, rfl⟩ := Registry.mem_of_find? hscene
    exact hcoherent.exact.exists_adventure (List.mem_map_of_mem hmem)
  · intro before i behind hlog
    exact Stage.entered_of_goesBack (hclear a) (hbound a) [] (t.remembers_outset a _ answers) hlog

/-- A play across two adventures, loaded on both sides of a pass that fails, that goes back
twice and then stops at a variable that is not set. -/
theorem result_ordinary_across :
    let first : Json := AdventureRecord.toJson
      { name := "a", title := "T", version := 1, startingScene := "hall", scenes :=
        [{ name := "hall", title := "S", content := ["c"], options :=
          [{ label := "on", target := "b:yard" }, { label := "look", target := "cellar" }] },
         { name := "cellar", title := "S", content := ["$\x7bgold\x7d"] }] }
    let second : Json := AdventureRecord.toJson
      { name := "b", title := "T", version := 1, startingScene := "yard", scenes :=
        [{ name := "yard", title := "S", content := ["c"], options :=
          [{ label := "back", target := "inkspire:back" }] }] }
    let settings : Settings := { sceneSpacing := 0 }
    let deeds : List Deed :=
      [.call (.load (.given first none)), .call .link, .write {},
        .call (.load (.given second none)), .call .link, .call (.run "b" [""])]
    let answers := ["1", "", "1", "", "2"]
    let t := (start settings none {}).later deeds
    (∃ f, (t.run "a" answers).1.result = .error f ∧ f.isOrdinary = true) ∧
      ∃ a, t.story.find? "a" = some a ∧
        (t.moments a answers).countP Moment.isEntry = 6 ∧
        ∀ i, .enters i ∈ t.moments a answers → ∃ b ∈ t.story.adventures, i ∈ b.scenes := by
  intro first second settings deeds answers
  let s := start settings none {}
  let between : List Deed := [.call (.load (.given first none)), .call .link, .write {}]
  have hok {r : Except Fault Adventure} (h : r.toOption.isSome = true) : ∃ a, r = .ok a := by
    obtain ⟨a, ha⟩ := Option.isSome_iff_exists.1 h
    exact ⟨a, toOption_eq_some.1 ha⟩
  obtain ⟨hfirst, hsecond, hresult, hcount⟩ :
      ((LoadCall.given first none).request.answer s).1.toOption.isSome = true ∧
      ((LoadCall.given second none).request.answer (s.later between)).1.toOption.isSome = true ∧
      (((start settings none {}).later deeds).run "a" answers).1.result.toOption.isNone = true ∧
      (((start settings none {}).later deeds).story.find? "a").map (fun a =>
        (((start settings none {}).later deeds).moments a answers).countP Moment.isEntry) =
          some 6 := by
    decide +kernel
  have hload : ∀ before l behind, deeds = before ++ .call (.load l) :: behind →
      ∃ a, (l.request.answer (s.later before)).1 = .ok a := by
    rintro (_ | ⟨_, _ | ⟨_, _ | ⟨_, _ | ⟨_, _ | ⟨_, _ | ⟨_, before⟩⟩⟩⟩⟩⟩) l behind hdeeds <;>
      simp [deeds] at hdeeds
    · obtain ⟨rfl, -⟩ := hdeeds
      exact hok hfirst
    · obtain ⟨rfl, rfl, rfl, rfl, -⟩ := hdeeds
      exact hok hsecond
  have hsafe := result_ordinary settings none {} deeds "a" answers (by decide) (by decide) hload
  -- the session that was played is not looked into any more
  generalize (start settings none {}).later deeds = u at hsafe hresult hcount ⊢
  intro t
  obtain ⟨a, ha, hcount⟩ := Option.map_eq_some_iff.1 hcount
  refine ⟨?_, a, ha, hcount, (hsafe.2 a ha).2.1⟩
  cases hf : (u.run "a" answers).1.result with
  | ok o =>
    rw [hf] at hresult
    contradiction
  | error f => exact ⟨f, rfl, hsafe.1 f hf⟩

end Session
end Gamebook
