/-
# How the program ends

The program settles its settings, loads and links, and then it prints what is loaded or
plays an adventure.  How far it comes decides how it ends (`Console.Command.Ends`): with
the exit code 2 when no play could begin, with 1 when a play could not go on, and with 0
when a play went through, when the player answered no more, or when nothing was to be
played.

This covers all faults but five, which have no exit code: the adventure directory of the
environment starts at a home that is not known; a required adventure, or the file itself, has
a NUL character in its path; a document is too deep for the stack of the program; a file has
a whole number with too many digits; or the history is to be larger than a machine word can
count (`Console.Command.code_iff`).

Two things are taken from the machine and not computed.  Which documents are too deep for its
stack is given with the disk, and what is loaded is then within the stack when it is linked,
printed and played.  And no document has half of a surrogate pair (`Disk.Paired`): a text
that holds one is refused where records are read, or it fails where it is written, and no
text of ours can hold one.
-/

import Gamebook.Console.Command
import Gamebook.Proofs.Homes
import Gamebook.Proofs.Safety
import Gamebook.Proofs.Stumbling

namespace Gamebook

/-! ## Load-time actions -/

namespace Story

variable {s : Story}

/-- Whether all load-time actions are sound. -/
def SoundRoster (s : Story) : Prop := ∀ entry ∈ s.roster, ∀ x ∈ entry.2, x.IsSound

/-- Every event keeps the load-time actions sound. -/
theorem soundRoster_next (h : s.Coherent) (hs : s.SoundRoster) (e : Event) :
    (s.next e).SoundRoster := by
  have hhappens := s.happens e
  generalize s.next e = t at hhappens
  cases hhappens with
  | refused => exact hs
  | @built record a scenes compiled fresh =>
    have hactions := (Adventure.compiledFromRecord_iff.1 compiled).actions.of_yields
      (Action.yields_isSound_all record.name record.actions)
    rw [SoundRoster, add, roster, List.map_append]
    exact List.forall_mem_append.2 ⟨hs, List.forall_mem_singleton.2 hactions⟩
  | linked =>
    rw [SoundRoster, (becomes_linkAt h.nodup).roster_eq]
    exact hs

/-- **The load-time actions of a story are sound.** -/
theorem soundRoster_after (events : List Event) : (after {} events).SoundRoster :=
  (after_induction (P := fun s => s.Coherent ∧ s.SoundRoster) ⟨coherent_empty, nofun⟩
    fun _ e h => ⟨coherent_next h.1 e, soundRoster_next h.1 h.2 e⟩).2

end Story

namespace Request

variable {s t : Session} {f : Fault}

/-- Load-time actions that are sound fail with an error of scripts only. -/
theorem isScripted_initialise {a : Adventure} (ha : ∀ x ∈ a.actions, x.IsSound)
    (h : (initialise a).answer s = (.error f, t)) :
    ∃ e, f = .evaluation e ∧ e.isScripted = true := by
  rw [initialise, answer_bind_of_ok (answer_get s)] at h
  cases hready : s.isReady a.name with
  | true => simp [hready] at h
  | false =>
    simp only [hready, Bool.not_false, if_true, answer_bind, answer_set] at h
    cases hrun : (Action.runAll a.actions s.store).1 with
    | none => simp [hrun] at h
    | some e =>
      rw [hrun] at h
      obtain rfl := Except.error.inj (Prod.mk.inj h).1
      exact ⟨e, rfl, Action.isScripted_runAll ha hrun⟩

/-- The load-time actions of adventures, one after the other, fail with an error of scripts only. -/
theorem isScripted_forM_initialise {as : List Adventure}
    (has : ∀ a ∈ as, ∀ x ∈ a.actions, x.IsSound)
    (h : (as.forM initialise).answer s = (.error f, t)) :
    ∃ e, f = .evaluation e ∧ e.isScripted = true := by
  induction as generalizing s with
  | nil => simp at h
  | cons a as ih =>
    obtain ⟨ha, has⟩ := List.forall_mem_cons.1 has
    replace h : (initialise a >>= fun _ => as.forM initialise).answer s = (.error f, t) := h
    rcases hanswer : (initialise a).answer s with ⟨f' | u, t'⟩
    · rw [answer_bind_of_error hanswer] at h
      obtain ⟨rfl, rfl⟩ : f' = f ∧ t' = t := by simpa using h
      exact isScripted_initialise ha hanswer
    · rw [answer_bind_of_ok hanswer] at h
      exact ih has h

/-- **Linking a story that was built and linked fails at a reference, or at an error of
a script.** -/
theorem isScripted_link {events : List Story.Event} (hstory : s.story = .after {} events)
    {e : EvalError} (h : (link.answer s).1 = .error (.evaluation e)) : e.isScripted = true := by
  rw [link, answer_bind_of_ok (answer_get s), answer_bind_of_ok (answer_modify _ s)] at h
  have hroster : s.story.link.result.SoundRoster := by
    rw [hstory]
    exact Story.soundRoster_next (Story.coherent_after events) (Story.soundRoster_after events)
      (.link _)
  cases hfailure : s.story.link.failure with
  | some d =>
    rw [hfailure] at h
    exact absurd (Except.error.inj h) (by simp)
  | none =>
    rw [hfailure] at h
    obtain ⟨e', he, hscripted⟩ := isScripted_forM_initialise
      (fun a ha => hroster _ (Story.mem_roster ha)) (Prod.ext h rfl)
    exact Fault.evaluation.inj he ▸ hscripted

end Request

/-! ## Outcomes of plays -/

/-- A passage that a fault stops has failed. -/
@[simp] theorem Passage.progress_fault (s : Store) (f : Fault) :
    (fault s f).progress = .failed f := rfl

/-- Lines in front of a passage do not change how it ends. -/
@[simp] theorem Passage.progress_after (lines : List String) (p : Passage) :
    (p.after lines).progress = p.progress := rfl

/-- Only a play that has ended has an outcome. -/
theorem Progress.eq_ended_of_result {p : Progress} {o : Outcome} (h : p.result = .ok o) :
    p = .ended o := by
  cases p with
  | ended o' => rw [Except.ok.inj h]
  | waiting | failed => contradiction

namespace Stage

variable {g : Stage} {history : History Identifier} {s : Store} {o : Outcome}

/-- No play ends where choices are offered: it waits for a line, or it has failed. -/
theorem offer_ne_ended (scene : Scene) : (g.offer history s scene).progress ≠ .ended o := by
  unfold offer
  dsimp only
  split
  · simp
  · split <;> simp
  · split
    · simp
    · simp
    · split <;> simp

/-- A play does not end where it enters a scene. -/
theorem enter_ne_ended (scene : Scene) : (g.enter history s scene).progress ≠ .ended o := by
  unfold enter
  split
  · simp
  · dsimp only
    split
    · simp
    · exact offer_ne_ended scene

/-- Arriving at a scene does not end a play as if there were no adventure. -/
theorem arrive_ne_notFound (target : Identifier) :
    (g.arrive history s target).progress ≠ .ended .notFound := by
  unfold arrive
  dsimp only
  split
  · simp
  · split
    · rename_i control _
      cases control <;> simp [finish]
    · split
      · simp
      · exact enter_ne_ended _

/-- Taking a choice does not end a play as if there were no adventure. -/
theorem take_ne_notFound (w : Play) (c : Choice) :
    (g.take w s c).progress ≠ .ended .notFound := by
  unfold take
  split
  · simp
  · split
    · simp
    · exact arrive_ne_notFound _

/-- No line ends a play as if there were no adventure. -/
theorem answer_ne_notFound (w : Play) (line : String) :
    (g.answer w s line).progress ≠ .ended .notFound := by
  unfold answer
  split
  · exact take_ne_notFound w _
  · split
    · exact take_ne_notFound w _
    · simp

end Stage

namespace Session

variable {s : Session} {a : Adventure}

/-- A play of an adventure that is there does not begin by ending as if there were none. -/
theorem begin_ne_notFound : (s.begin a).progress ≠ .ended .notFound := by
  unfold begin
  split
  · simp
  · split
    · simp
    · split
      · simp
      · exact Stage.arrive_ne_notFound _

/-- **No play of a loaded adventure ends as if there were none.** -/
theorem run_ne_notFound {name : String} (ha : s.story.find? name = some a)
    (answers : List String) : (s.run name answers).1.result ≠ .ok .notFound := by
  rw [run_eq ha, Stage.play_eq]
  intro hresult
  -- the passage that a play ends with is one of those that its lines lead through
  have hreach := (s.stage a).reach_mem_passages answers (s.begin a)
  refine Stage.passages_induction (P := fun q => q.progress ≠ .ended .notFound) begin_ne_notFound
    (fun q w line _ _ => Stage.answer_ne_notFound w line) _ hreach ?_
  exact Progress.eq_ended_of_result hresult

end Session

/-! ## Endings -/

namespace Console

namespace Arguments

/-- The call that loads the adventure in the file of the arguments, or else a bundled
one. -/
def loading (a : Arguments) : LoadCall :=
  match a.file with
  | some path => .file path
  | none => .given Bundled.demo (some .bundled)

/-- The name of the adventure to play: the one that is loaded, unless the arguments
name another one. -/
def chosen (a : Arguments) (loaded : Adventure) : String :=
  if a.adventure = "" then loaded.name else a.adventure

end Arguments

/-- How far the program comes. -/
inductive Ending where
  | unsettled (e : SettingsError)
  /-- Loading fails and leaves a session behind. -/
  | unloaded (f : Fault) (s : Session)
  | unlinked (d : Diagnostic)
  /-- A load-time action is stopped. -/
  | uninitialised (e : EvalError)
  | dumped
  /-- The adventure that is to be played is not loaded. -/
  | unknown (name : String)
  | played (result : Except Fault Outcome)

/-- The exit code that an ending has, or the fault that it leaves uncaught. -/
def Ending.code : Ending → Except Fault Nat
  | unsettled (.home .unknown) => .error .noHome
  | unsettled _ | unlinked _ | uninitialised _ | unknown _ => .ok 2
  | unloaded f _ => if f.isReported then .ok 2 else .error f
  | played (.error (.evaluation _)) | played (.error (.impasse _)) => .ok 1
  | dumped | played (.ok _) | played (.error .endOfInput) => .ok 0
  | played (.error f) => .error f

namespace Command

section

variable (a : Arguments) (environment : List (String × String)) (disk : Disk)
  (answers : List String)

/-- A session in which an adventure is loaded with what it requires. -/
structure Loaded (settings : Settings) (adventure : Adventure) (s : Session) : Prop where
  settled : settingsOf a environment disk = .ok settings
  loaded : a.loading.request.answer (.start settings none disk) = (.ok adventure, s)

/-- A session in which it is linked, too. -/
def Linked (settings : Settings) (adventure : Adventure) (t : Session) : Prop :=
  ∃ s, Loaded a environment disk settings adventure s ∧ Request.link.answer s = (.ok (), t)

/-- How the program ends: by the first of its steps that does not succeed, and else when
all that is loaded is printed, or when the adventure is played. -/
inductive Ends : Ending → Prop
  | unsettled {e : SettingsError} (invalid : settingsOf a environment disk = .error e) :
      Ends (.unsettled e)
  | unloaded {settings : Settings} {f : Fault} {s : Session}
      (settled : settingsOf a environment disk = .ok settings)
      (failed : a.loading.request.answer (.start settings none disk) = (.error f, s)) :
      Ends (.unloaded f s)
  | unlinked {settings : Settings} {adventure : Adventure} {s : Session} {d : Diagnostic}
      (loaded : Loaded a environment disk settings adventure s)
      (failed : (Request.link.answer s).1 = .error (.document d)) : Ends (.unlinked d)
  | uninitialised {settings : Settings} {adventure : Adventure} {s : Session} {e : EvalError}
      (loaded : Loaded a environment disk settings adventure s)
      (failed : (Request.link.answer s).1 = .error (.evaluation e)) : Ends (.uninitialised e)
  | dumped {settings : Settings} {adventure : Adventure} {t : Session}
      (linked : Linked a environment disk settings adventure t) (dump : a.dump = true) :
      Ends .dumped
  | unknown {settings : Settings} {adventure : Adventure} {t : Session}
      (linked : Linked a environment disk settings adventure t) (play : a.dump = false)
      (absent : t.story.find? (a.chosen adventure) = none) : Ends (.unknown (a.chosen adventure))
  | played {settings : Settings} {adventure b : Adventure} {t : Session}
      (linked : Linked a environment disk settings adventure t) (play : a.dump = false)
      (found : t.story.find? (a.chosen adventure) = some b) :
      Ends (.played (t.run (a.chosen adventure) answers).1.result)

end

/-- The exit code of the program, or the fault that it leaves uncaught. -/
def code (argv : List String) (environment : List (String × String)) (disk : Disk)
    (answers : List String) : Except Fault Nat :=
  (run argv environment disk answers).map (·.code)

variable {argv : List String} {a : Arguments} {environment : List (String × String)} {disk : Disk}
  {answers : List String} {settings : Settings} {adventure : Adventure} {s t : Session} {f : Fault}
  {e : Ending}

/-! ### Starting -/

/-- The program loads its adventure, and then links what is loaded. -/
theorem answer_prepare (a : Arguments) (s : Session) :
    (prepare a).answer s = (a.loading.request >>= fun adventure => Request.link >>= fun _ =>
      (pure adventure : Request Adventure)).answer s := by
  rw [prepare, Arguments.loading]
  cases a.file with
  | some path => rfl
  | none =>
    have hbundled : (Request.loadBundled "demo").answer s =
        (Request.load Bundled.demo (some .bundled)).answer s := by
      rw [Request.loadBundled, Request.answer_bind_of_ok (Request.answer_get s)]
      exact Request.answer_bind_of_ok rfl
    rw [Request.answer_bind, Request.answer_bind, hbundled]
    rfl

/-- A load that fails is refused. -/
theorem start_of_error (hargv : Reading.ofTexts argv = .arguments a)
    (hsettled : settingsOf a environment disk = .ok settings)
    (h : (prepare a).answer (.start settings none disk) = (.error f, t)) :
    start argv environment disk = refuse a f := by
  rw [Request.answer] at h
  rw [start, hargv]
  simp only [hsettled, h]

/-- Linking that fails is refused as a load is. -/
theorem start_of_unlinked (hargv : Reading.ofTexts argv = .arguments a)
    (h : Loaded a environment disk settings adventure s)
    (hlink : (Request.link.answer s).1 = .error f) :
    start argv environment disk = refuse a f := by
  refine start_of_error (t := (Request.link.answer s).2) hargv h.settled ?_
  rw [answer_prepare, Request.answer_bind_of_ok h.loaded]
  exact Request.answer_bind_of_error (Prod.ext hlink rfl)

/-- What is linked is printed, or the adventure that is chosen is played if it is there. -/
theorem start_of_linked (hargv : Reading.ofTexts argv = .arguments a)
    (h : Linked a environment disk settings adventure t) :
    start argv environment disk =
      if a.dump then .exit ⟨[(dump t).indented 0], 0⟩
      else
        match t.story.find? (a.chosen adventure) with
        | none => .exit ⟨[Session.notLoaded (a.chosen adventure)], 2⟩
        | some b => .play (t.stage b) (t.begin b) := by
  obtain ⟨s, ⟨hsettled, hloaded⟩, hlink⟩ := h
  have hprepare : (prepare a).answer (.start settings none disk) = (.ok adventure, t) := by
    rw [answer_prepare, Request.answer_bind_of_ok hloaded, Request.answer_bind_of_ok hlink]
    rfl
  rw [Request.answer] at hprepare
  rw [start, hargv]
  simp only [hsettled, hprepare]
  rfl

/-! ### Exit codes -/

/-- A program that ends before the play has the exit code that it ends with. -/
theorem code_of_exit {exit : Exit} (h : start argv environment disk = .exit exit) :
    code argv environment disk answers = .ok exit.code := by
  rw [code, run, h]
  rfl

/-- A refusal has the exit code 2 if the fault is one that is reported, and else the fault is left
uncaught. -/
theorem code_of_refuse (h : start argv environment disk = refuse a f) :
    code argv environment disk answers = if f.isReported then .ok 2 else .error f := by
  have hrefuse : refuse a f = .uncaught f ∧ f.isReported = false ∨
      ∃ line, refuse a f = .exit ⟨[line], 2⟩ ∧ f.isReported = true := by
    cases f with
    | document d => exact .inr ⟨_, rfl, rfl⟩
    | evaluation e => exact .inr ⟨_, rfl, rfl⟩
    | disk e =>
      cases e with
      | nulCharacter => exact .inl ⟨rfl, rfl⟩
      | notFound | notDirectory | isDirectory | nameTooLong => exact .inr ⟨_, rfl, rfl⟩
    | impasse | history | longNumber | loneSurrogate | tooDeep | noHome | notObject | endOfInput
    | endlessRow => exact .inl ⟨rfl, rfl⟩
  obtain ⟨hrefuse, hf⟩ | ⟨line, hrefuse, hf⟩ := hrefuse
  · rw [code, run, h, hrefuse, hf]
    rfl
  · rw [code_of_exit (h.trans hrefuse), hf]
    rfl

/-- A program that comes to a play has the exit code of the play. -/
theorem code_of_play {b : Adventure} {name : String} (hb : t.story.find? name = some b)
    (h : start argv environment disk = .play (t.stage b) (t.begin b)) :
    code argv environment disk answers = (Ending.played (t.run name answers).1.result).code := by
  have hcode : code argv environment disk answers =
      (conclude ((t.stage b).play answers (t.begin b)).result).map (·.code) := by
    rw [code, run, h]
    dsimp only
    cases conclude ((t.stage b).play answers (t.begin b)).result <;> rfl
  have hne := Session.run_ne_notFound hb answers
  rw [Session.run_eq hb] at hne ⊢
  rw [hcode]
  generalize ((t.stage b).play answers (t.begin b)).result = result at hne
  cases result with
  | ok o =>
    cases o with
    | notFound => exact absurd rfl hne
    | passed | failed | exited => rfl
  | error f => cases f <;> rfl

/-- Settings that are not in order end the program, with an exit code or without one. -/
theorem code_of_unsettled {e : SettingsError}
    (h : start argv environment disk = Command.unsettled e) :
    code argv environment disk answers = (Ending.unsettled e).code := by
  have hunsettled : Command.unsettled e = .uncaught .noHome ∧
        (Ending.unsettled e).code = .error .noHome ∨
      ∃ line, Command.unsettled e = .exit ⟨[line], 2⟩ ∧ (Ending.unsettled e).code = .ok 2 := by
    cases e with
    | home e =>
      cases e with
      | unknown => exact .inl ⟨rfl, rfl⟩
      | nulCharacter => exact .inr ⟨_, rfl, rfl⟩
    | capacity | spacing | notWhole | tooSmall => exact .inr ⟨_, rfl, rfl⟩
  obtain ⟨hunsettled, hcode⟩ | ⟨line, hunsettled, hcode⟩ := hunsettled
  · rw [code, run, h, hunsettled, hcode]
    rfl
  · rw [code_of_exit (h.trans hunsettled), hcode]

/-- Every ending has its exit code. -/
theorem Ends.code_eq (hargv : Reading.ofTexts argv = .arguments a)
    (h : Ends a environment disk answers e) :
    Command.code argv environment disk answers = e.code := by
  cases h with
  | @unsettled e invalid =>
    refine code_of_unsettled ?_
    rw [start, hargv]
    simp only [invalid]
  | @unloaded settings f s settled failed =>
    refine code_of_refuse (start_of_error (t := s) hargv settled ?_)
    rw [answer_prepare]
    exact Request.answer_bind_of_error failed
  | unlinked loaded failed => exact code_of_refuse (start_of_unlinked hargv loaded failed)
  | uninitialised loaded failed => exact code_of_refuse (start_of_unlinked hargv loaded failed)
  | dumped linked dump =>
    have hstart := start_of_linked hargv linked
    rw [if_pos dump] at hstart
    exact code_of_exit hstart
  | unknown linked play absent =>
    have hstart := start_of_linked hargv linked
    rw [if_neg (by simp [play]), absent] at hstart
    exact code_of_exit hstart
  | played linked play found =>
    have hstart := start_of_linked hargv linked
    rw [if_neg (by simp [play]), found] at hstart
    exact code_of_play found hstart

/-- The program ends. -/
theorem exists_ends (a : Arguments) (environment : List (String × String)) (disk : Disk)
    (answers : List String) : ∃ e, Ends a environment disk answers e := by
  cases hsettled : settingsOf a environment disk with
  | error e => exact ⟨_, .unsettled hsettled⟩
  | ok settings =>
    rcases hload : a.loading.request.answer (.start settings none disk) with ⟨f | adventure, s⟩
    · exact ⟨_, .unloaded hsettled hload⟩
    · have hloaded : Loaded a environment disk settings adventure s := ⟨hsettled, hload⟩
      have hlinks := Request.links s
      rcases hlink : Request.link.answer s with ⟨f | u, t⟩
      · have hfailed : (Request.link.answer s).1 = .error f := by rw [hlink]
        rw [hlink] at hlinks
        cases hlinks with
        | unknown failure => exact ⟨_, .unlinked hloaded hfailed⟩
        | tried failure ends =>
          cases ends with
          | stopped => exact ⟨_, .uninitialised hloaded hfailed⟩
      · have hlinked : Linked a environment disk settings adventure t := ⟨s, hloaded, hlink⟩
        cases hdump : a.dump with
        | true => exact ⟨_, .dumped hlinked hdump⟩
        | false =>
          cases hfind : t.story.find? (a.chosen adventure) with
          | none => exact ⟨_, .unknown hlinked hdump hfind⟩
          | some b => exact ⟨_, .played hlinked hdump hfind⟩

/-! ### Faults -/

/-- The settings that a program runs with are in range. -/
theorem one_le_historyCapacity (h : settingsOf a environment disk = .ok settings) :
    1 ≤ settings.historyCapacity := by
  obtain ⟨s, -, h⟩ := Grammar.exists_of_bind_eq_ok h
  rw [Settings.check] at h
  split at h
  · contradiction
  · rename_i hpos
    split at h
    · contradiction
    · obtain rfl := Except.ok.inj h
      exact Int.not_lt.1 hpos

/-- What the program loads comes from files or is bundled. -/
theorem library?_loading_ne (a : Arguments) (settings : Settings) (disk : Disk)
    (ds : List (String × Json)) :
    a.loading.library? (.start settings none disk) ≠ some (.documents ds) := by
  rw [Arguments.loading]
  cases a.file with
  | none => simp [LoadCall.library?]
  | some path =>
    cases hdirectory : settings.adventureDirectory <;>
      simp [LoadCall.library?, Session.start, hdirectory]

/-- The program loads what it reports of, or it stumbles over a file. -/
theorem Ends.isReported_or_stumbles (hpaired : disk.Paired)
    (h : Ends a environment disk answers (.unloaded f s)) :
    f.isReported = true ∨ ∃ path, a.loading.Asks s path ∧ Library.Stumbles disk path f := by
  cases h with
  | @unloaded settings f s settled failed =>
    exact LoadCall.stumbles hpaired (library?_loading_ne a settings disk) failed

/-- A load is the first deed of a session. -/
theorem Loaded.later_eq (h : Loaded a environment disk settings adventure s) :
    (Session.start settings none disk).later [.call (.load a.loading)] = s := by
  show ((discard a.loading.request).answer _).2 = s
  rw [Request.answer_discard, h.loaded]

/-- The program loads once, and does not go on if that fails. -/
theorem Loaded.exists_ok (h : Loaded a environment disk settings adventure s) (more : List Deed)
    (hmore : ∀ l, .call (.load l) ∉ more) (before : List Deed) (l : LoadCall) (behind : List Deed)
    (hdeeds : .call (.load a.loading) :: more = before ++ .call (.load l) :: behind) :
    ∃ b, (l.request.answer ((Session.start settings none disk).later before)).1 = .ok b := by
  cases before with
  | nil =>
    obtain rfl : a.loading = l := by simpa using (List.cons.inj hdeeds).1
    exact ⟨adventure, congrArg Prod.fst h.loaded⟩
  | cons d before =>
    have hmem : .call (.load l) ∈ more := by simp [(List.cons.inj hdeeds).2]
    exact absurd hmem (hmore l)

/-- A load-time action is stopped by an error of scripts. -/
theorem Ends.isScripted {error : EvalError}
    (h : Ends a environment disk answers (.uninitialised error)) : error.isScripted = true := by
  cases h with
  | uninitialised loaded failed =>
    obtain ⟨events, hstory⟩ := Session.exists_story_later_start _ none disk _
      (loaded.exists_ok [] fun _ => List.not_mem_nil)
    exact Request.isScripted_link (loaded.later_eq ▸ hstory) failed

/-- Linking is the second one. -/
theorem Linked.later_eq (h : Linked a environment disk settings adventure t) :
    (Session.start settings none disk).later [.call (.load a.loading), .call .link] = t := by
  obtain ⟨s, hloaded, hlink⟩ := h
  refine (Session.later_append _ [_] [_]).trans ?_
  rw [hloaded.later_eq]
  show (Request.link.answer s).2 = t
  rw [hlink]

/-- What is linked can be played. -/
theorem Linked.isLinked (h : Linked a environment disk settings adventure t) :
    t.isLinked = true := by
  obtain ⟨s, hloaded, hlink⟩ := h
  have hsound : s.story.Sound := hloaded.later_eq ▸ Session.sound_later Story.sound_opening
  have hlinks := Request.links s
  rw [hlink] at hlinks
  cases hlinks with
  | tried failure ends => exact Story.isLinked_link hsound.identifiers_nodup failure

/-- **A play ends, or it stops for an ordinary reason, or its history is to be larger than
a machine word can count.** -/
theorem Linked.result_cases (h : Linked a environment disk settings adventure t) {name : String}
    {b : Adventure} (hb : t.story.find? name = some b) (answers : List String) :
    settings.historyCapacity.toNat < History.capacityLimit ∧
        Ordinary (t.run name answers).1.result ∨
      History.capacityLimit ≤ settings.historyCapacity.toNat ∧
        (t.run name answers).1.result = .error (.history .tooLarge) := by
  obtain ⟨s, hloaded, -⟩ := id h
  have hpos := one_le_historyCapacity hloaded.settled
  rcases Nat.lt_or_ge settings.historyCapacity.toNat History.capacityLimit with hlt | hge
  · obtain ⟨hordinary, -⟩ := Session.result_ordinary settings none disk
      [.call (.load a.loading), .call .link] name answers hpos hlt
      (hloaded.exists_ok [.call .link] (by simp))
    rw [h.later_eq] at hordinary
    exact .inl ⟨hlt, hordinary⟩
  · refine .inr ⟨hge, ?_⟩
    have hsettings : t.settings = settings := h.later_eq ▸ Session.settings_later _ _
    have hcapacity : (History.ofCapacity settings.historyCapacity : Except _ (History Identifier)) =
        .error .tooLarge := by
      rw [History.ofCapacity, if_neg (by omega), if_neg (Nat.not_lt.2 hge)]
    have hbegin : t.begin b = .fault t.store (.history .tooLarge) := by
      rw [Session.begin, h.isLinked, hsettings, hcapacity]
      rfl
    rw [Session.run_eq hb, hbegin, Stage.play_fault]

/-! ### All endings -/

/-- Settings that are refused have an exit code. -/
theorem Ending.code_unsettled {e : SettingsError} (h : e ≠ .home .unknown) :
    (Ending.unsettled e).code = .ok 2 := by
  cases e with
  | home e =>
    cases e with
    | unknown => exact absurd rfl h
    | nulCharacter => rfl
  | capacity | spacing | notWhole | tooSmall => rfl

/-- The wording of the fault that is left uncaught, if there is one. -/
def uncaught? {α : Type} : Except Fault α → Option String
  | .ok _ => none
  | .error f => some f.message

/-- What is worded is a fault that is left uncaught. -/
theorem exists_of_uncaught? {α : Type} {result : Except Fault α} {message : String}
    (h : uncaught? result = some message) : ∃ f, result = .error f ∧ f.message = message := by
  cases result with
  | ok _ => contradiction
  | error f => exact ⟨f, rfl, Option.some.inj h⟩

/-- A play that the program reaches ends, or it has an ordinary fault, unless the history
is too large. -/
theorem Ends.result_cases {result : Except Fault Outcome}
    (h : Ends a environment disk answers (.played result)) :
    ∃ settings, settingsOf a environment disk = .ok settings ∧
      (Ordinary result ∧ result ≠ .ok .notFound ∧
          settings.historyCapacity.toNat < History.capacityLimit ∨
        result = .error (.history .tooLarge) ∧
          History.capacityLimit ≤ settings.historyCapacity.toNat) := by
  cases h with
  | @played settings adventure b t linked play found =>
    obtain ⟨s, hloaded, -⟩ := id linked
    refine ⟨settings, hloaded.settled, (linked.result_cases found answers).imp ?_ And.symm⟩
    rintro ⟨hlt, hordinary⟩
    exact ⟨hordinary, Session.run_ne_notFound found answers, hlt⟩

/-- No play begins with a history that is too large. -/
theorem Ends.result_of_capacity {result : Except Fault Outcome}
    (h : Ends a environment disk answers (.played result))
    (hsettled : settingsOf a environment disk = .ok settings)
    (hle : History.capacityLimit ≤ settings.historyCapacity.toNat) :
    result = .error (.history .tooLarge) := by
  obtain ⟨settings', hsettled', ⟨-, -, hlt⟩ | ⟨hresult, -⟩⟩ := h.result_cases
  · obtain rfl := Except.ok.inj (hsettled.symm.trans hsettled')
    exact absurd hlt (Nat.not_lt.2 hle)
  · exact hresult

/-- Where the reasons for all codes are sorted, every code has the reasons for it. -/
theorem iff_of_sorted {code : Except Fault Nat} {two one zero : Prop} {uncaught : Fault → Prop}
    (htwo : two → code = .ok 2) (hone : one → code = .ok 1) (hzero : zero → code = .ok 0)
    (huncaught : ∀ f, uncaught f → code = .error f)
    (hall : two ∨ one ∨ zero ∨ ∃ f, uncaught f) :
    (∀ n, code = .ok n → n ≤ 2) ∧ (code = .ok 2 ↔ two) ∧ (code = .ok 1 ↔ one) ∧
      (code = .ok 0 ↔ zero) ∧ ∀ f, code = .error f ↔ uncaught f := by
  grind

/-- **The program ends with the exit code that its ending has, and leaves no faults
uncaught but five.**  Whatever arguments are accepted, the exit code is 2 just if the
settings are refused, an adventure or what it requires cannot be loaded, a reference cannot
be resolved, a load-time action is stopped, or the adventure that is to be played is not
loaded; it is 1 just if a script or the adventure leaves the play no way on; and it is 0 just
if all that is loaded is printed, the play ends, or the player answers no more.

A fault is uncaught just if the adventure directory of the environment starts at a home that
is not known; if, on loading, a file is asked for whose path has a NUL character, whose
document is too deep for the stack of the program, or whose text has a whole number with too
many digits; or if a play is to begin with a history that is larger than a machine word can
count. -/
theorem code_iff (hargv : Reading.ofTexts argv = .arguments a) (hpaired : disk.Paired)
    (environment : List (String × String)) (answers : List String) :
    let code := code argv environment disk answers
    let ends := Ends a environment disk answers
    (∀ n, code = .ok n → n ≤ 2) ∧
    (code = .ok 2 ↔
      (∃ e, ends (.unsettled e) ∧ e ≠ .home .unknown) ∨
      (∃ f s, ends (.unloaded f s) ∧ f.isReported = true) ∨
      (∃ d, ends (.unlinked d)) ∨ (∃ e, ends (.uninitialised e) ∧ e.isScripted = true) ∨
      ∃ name, ends (.unknown name)) ∧
    (code = .ok 1 ↔
      (∃ e, ends (.played (.error (.evaluation e))) ∧ e.isScripted = true) ∨
      ∃ i, ends (.played (.error (.impasse i)))) ∧
    (code = .ok 0 ↔
      ends .dumped ∨ (∃ o, ends (.played (.ok o)) ∧ o ≠ .notFound) ∨
      ends (.played (.error .endOfInput))) ∧
    ∀ f, code = .error f ↔
      (f = .noHome ∧ ∃ text, environment.lookup Settings.directoryVariable = some text ∧
        (Path.ofText (Text.trim text)).Homeless (disk.homes.withEnvironment environment)) ∨
      (∃ s path, ends (.unloaded f s) ∧ a.loading.Asks s path ∧ Library.Stumbles disk path f) ∨
      (f = .history .tooLarge ∧ (∃ result, ends (.played result)) ∧
        ∃ settings, settingsOf a environment disk = .ok settings ∧
          History.capacityLimit ≤ settings.historyCapacity.toNat) := by
  intro code ends
  have hcode {e : Ending} (h : ends e) : code = e.code := h.code_eq hargv
  refine iff_of_sorted ?_ ?_ ?_ ?_ ?_
  · rintro (⟨e, h, he⟩ | ⟨f, s, h, hf⟩ | ⟨d, h⟩ | ⟨e, h, -⟩ | ⟨name, h⟩)
    · exact (hcode h).trans (Ending.code_unsettled he)
    · exact (hcode h).trans (if_pos hf)
    · exact hcode h
    · exact hcode h
    · exact hcode h
  · rintro (⟨e, h, -⟩ | ⟨i, h⟩) <;> exact hcode h
  · rintro (h | ⟨o, h, -⟩ | h) <;> exact hcode h
  · rintro f (⟨rfl, hhome⟩ | ⟨s, path, h, -, hstumbles⟩ |
      ⟨rfl, ⟨result, h⟩, settings, hsettled, hle⟩)
    · exact hcode (.unsettled (settingsOf_eq_unknown_iff.2 hhome))
    · refine (hcode h).trans (if_neg ?_)
      simp [hstumbles.isReported_eq_false]
    · obtain rfl := h.result_of_capacity hsettled hle
      exact hcode h
  · -- the ending that the program comes to is one of the reasons
    obtain ⟨e, h⟩ := exists_ends a environment disk answers
    cases e with
    | unsettled e =>
      by_cases he : e = .home .unknown
      · obtain ⟨invalid⟩ := he ▸ h
        exact .inr (.inr (.inr ⟨_, .inl ⟨rfl, settingsOf_eq_unknown_iff.1 invalid⟩⟩))
      · exact .inl (.inl ⟨e, h, he⟩)
    | unloaded f s =>
      obtain hf | ⟨path, hasks, hstumbles⟩ := h.isReported_or_stumbles hpaired
      · exact .inl (.inr (.inl ⟨f, s, h, hf⟩))
      · exact .inr (.inr (.inr ⟨f, .inr (.inl ⟨s, path, h, hasks, hstumbles⟩)⟩))
    | unlinked d => exact .inl (.inr (.inr (.inl ⟨d, h⟩)))
    | uninitialised e => exact .inl (.inr (.inr (.inr (.inl ⟨e, h, h.isScripted⟩))))
    | dumped => exact .inr (.inr (.inl (.inl h)))
    | unknown name => exact .inl (.inr (.inr (.inr (.inr ⟨name, h⟩))))
    | played result =>
      obtain ⟨settings, hsettled, ⟨hordinary, hne, -⟩ | ⟨rfl, hle⟩⟩ := h.result_cases
      · obtain ⟨o, rfl⟩ | ⟨e, rfl, he⟩ | ⟨i, rfl⟩ | rfl := hordinary.cases
        · exact .inr (.inr (.inl (.inr (.inl ⟨o, h, fun ho => hne (congrArg _ ho)⟩))))
        · exact .inr (.inl (.inl ⟨e, h, he⟩))
        · exact .inr (.inl (.inr ⟨i, h⟩))
        · exact .inr (.inr (.inl (.inr (.inr h))))
      · exact .inr (.inr (.inr ⟨_, .inr (.inr ⟨rfl, ⟨_, h⟩, settings, hsettled, hle⟩)⟩))

/-- The file that is given is nested more deeply than the program can follow. -/
theorem code_iff_given :
    let file := Path.ofText "a.json"
    let disk : Disk := { files := [(file, "[[[[[[]]]]]]")], deep := [file] }
    let environment := [("HOME", "/home/b"), (Settings.directoryVariable, " ~/games ")]
    let a : Arguments := { file := some file }
    Reading.ofTexts ["a.json"] = .arguments a ∧ disk.Paired ∧
      ∃ f s path, Ends a environment disk [] (.unloaded f s) ∧ a.loading.Asks s path ∧
        Library.Stumbles disk path f := by
  intro file disk environment a
  have hargv : Reading.ofTexts ["a.json"] = .arguments a := by decide +kernel
  have hpaired : disk.Paired := by
    refine List.forall_mem_singleton.2 fun hlone => ?_
    have hread : (Json.read (String.ofList
        (Disk.lineFeeds "[[[[[[]]]]]]".toList))).toOption.isSome = true := by decide +kernel
    rw [hlone] at hread
    contradiction
  obtain ⟨f, hf, hmessage⟩ : ∃ f, code ["a.json"] environment disk [] = .error f ∧
      f.message = "maximum recursion depth exceeded" := exists_of_uncaught? (by decide +kernel)
  obtain ⟨-, -, -, -, hiff⟩ := code_iff hargv hpaired environment []
  obtain ⟨rfl, -⟩ | ⟨s, path, hends, hasks, hstumbles⟩ | ⟨rfl, -⟩ := (hiff f).1 hf
  · exact absurd hmessage (by decide +kernel)
  · exact ⟨hargv, hpaired, f, s, path, hends, hasks, hstumbles⟩
  · exact absurd hmessage (by decide +kernel)

/-- **Not every run has an exit code.**  A document may require an adventure whose name has
a NUL character; what is then said of the file is not caught, though the files that are
missing are. -/
theorem uncaught_requirement :
    let text := "\x7b\"name\":\"a\",\"title\":\"T\",\"version\":1,\"requires\":[\"b\\u0000\"]," ++
      "\"scenes\":[\x7b\"name\":\"start\",\"title\":\"S\",\"content\":[\"c\"]\x7d]\x7d"
    Reading.ofTexts ["a.json"] = .arguments { file := some (Path.ofText "a.json") } ∧
      ∃ f, run ["a.json"] [] (Disk.ofTexts [("a.json", text)]) [] = .error f ∧
        f.message = "embedded null byte" := by
  intro text
  exact ⟨by decide +kernel, exists_of_uncaught? (by decide +kernel)⟩

end Command
end Console
end Gamebook
