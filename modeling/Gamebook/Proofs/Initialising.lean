/-
# Load-time actions

When linking has resolved the references, it runs the load-time actions of the
adventures that have not completed theirs.  Each time is an attempt (`Attempt`): the
actions assign their numbers in order, up to one that has no number.  Then the call
fails, the numbers stay assigned, and the adventure is not ready.

So no attempt follows a complete one of the same adventure, but one that was stopped is
made again from the first action on (`Session.pairwise_log`).  An action assigns its
number once, and once more for each call that failed behind it
(`Session.actions_once_unless_stopped`, `Session.action_twice`).
-/

import Gamebook.Proofs.Deeds

namespace Gamebook

namespace Action

/-- The actions of a list that assign their numbers, up to the first that has none. -/
def completed : List Action → Store → List Action
  | [], _ => []
  | a :: rest, s => (a.evaluate s).toOption.elim [] fun (_, s) => a :: completed rest s

/-- The store with the number of an action assigned, if it has one. -/
def perform (s : Store) (a : Action) : Store := (a.evaluate s).toOption.elim s (·.2)

/-- The actions that assign their numbers stand in front of the others. -/
theorem completed_prefix (as : List Action) (s : Store) : completed as s <+: as := by
  induction as generalizing s with
  | nil => exact List.prefix_rfl
  | cons a as ih =>
    rw [completed]
    cases (a.evaluate s).toOption with
    | none => exact List.nil_prefix
    | some result => exact (List.prefix_cons_inj a).2 (ih result.2)

/-- Nothing stops actions that are all completed, and what they leave is the store with
the numbers of the completed ones assigned. -/
theorem runAll_eq (as : List Action) (s : Store) :
    ((runAll as s).1 = none ↔ (completed as s).length = as.length) ∧
      (runAll as s).2 = (completed as s).foldl perform s := by
  induction as generalizing s with
  | nil => exact ⟨iff_of_true rfl rfl, rfl⟩
  | cons a as ih =>
    cases hvalue : a.evaluate s with
    | error e =>
      rw [runAll_cons_of_error hvalue, completed, hvalue]
      exact ⟨iff_of_false nofun nofun, rfl⟩
    | ok result =>
      obtain ⟨hnone, hstore⟩ := ih result.2
      have hcompleted : completed (a :: as) s = a :: completed as result.2 := by
        rw [completed, hvalue]
        rfl
      have hperform : perform s a = result.2 := by
        rw [perform, hvalue]
        rfl
      rw [runAll_cons_of_ok hvalue, hcompleted, List.foldl_cons, hperform]
      exact ⟨hnone.trans Nat.succ_inj.symm, hstore⟩

end Action

/-! ## Attempts -/

/-- An attempt to run the load-time actions of an adventure, with those of them that
assigned their numbers. -/
structure Attempt where
  name : String
  actions : List Action
  done : List Action
  done_prefix : done <+: actions

namespace Attempt

/-- The attempt that is made for an adventure. -/
def of (a : Adventure) (s : Store) : Attempt :=
  ⟨a.name, a.actions, Action.completed a.actions s, Action.completed_prefix a.actions s⟩

/-- Whether every action has assigned its number. -/
def isComplete (t : Attempt) : Bool := t.done.length == t.actions.length

/-- The store after an attempt. -/
def perform (s : Store) (t : Attempt) : Store := t.done.foldl Action.perform s

/-- The names of the adventures that attempts have made ready. -/
def finished (log : List Attempt) : List String := (log.filter (·.isComplete)).map (·.name)

/-- The attempts that are made for adventures in order, those that are ready apart: the
first that is stopped is the last. -/
def all (ready : List String) : List Adventure → Store → List Attempt
  | [], _ => []
  | a :: rest, s =>
    if ready.contains a.name then all ready rest s
    else if (of a s).isComplete then
      of a s :: all (ready ++ [a.name]) rest ((of a s).perform s)
    else [of a s]

variable {ready : List String} {as : List Adventure} {s : Store} {t : Attempt}
  {log : List Attempt}

/-- An adventure was made ready just if an attempt for it ran all of its actions. -/
theorem mem_finished {name : String} :
    name ∈ finished log ↔ ∃ t ∈ log, t.isComplete = true ∧ t.name = name := by
  simp [finished, and_assoc]

/-- What attempts make ready in a row is made ready in that order. -/
theorem finished_append (log more : List Attempt) :
    finished (log ++ more) = finished log ++ finished more := by
  simp [finished]

/-- An attempt that runs all of its actions makes its adventure ready, before the ones that
follow. -/
theorem finished_cons_of_isComplete (h : t.isComplete = true) :
    finished (t :: log) = t.name :: finished log := by
  rw [finished, List.filter_cons_of_pos h]
  rfl

/-- An attempt that is stopped makes nothing ready. -/
theorem finished_singleton_of_not_isComplete (h : t.isComplete = false) : finished [t] = [] := by
  rw [finished, List.filter_cons_of_neg (by simp [h])]
  rfl

/-- An attempt is made for an adventure that is not ready. -/
theorem of_mem_all (h : t ∈ all ready as s) :
    t.name ∉ ready ∧ ∃ a ∈ as, (t.name, t.actions) = (a.name, a.actions) := by
  induction as generalizing ready s with
  | nil => contradiction
  | cons a as ih =>
    rw [all] at h
    split at h
    · obtain ⟨hnew, other, hother, heq⟩ := ih h
      exact ⟨hnew, other, List.mem_cons_of_mem _ hother, heq⟩
    · rename_i hready
      have hfirst : a.name ∉ ready := fun h => hready (List.contains_iff_mem.2 h)
      split at h
      · rcases List.mem_cons.1 h with rfl | h
        · exact ⟨hfirst, a, List.mem_cons_self .., rfl⟩
        · obtain ⟨hnew, other, hother, heq⟩ := ih h
          exact ⟨fun h => hnew (List.mem_append_left _ h), other,
            List.mem_cons_of_mem _ hother, heq⟩
      · obtain rfl := List.mem_singleton.1 h
        exact ⟨hfirst, a, List.mem_cons_self .., rfl⟩

/-- No two attempts are made for the same adventure. -/
theorem nodup_all (ready : List String) (as : List Adventure) (s : Store) :
    ((all ready as s).map (·.name)).Nodup := by
  induction as generalizing ready s with
  | nil => exact List.nodup_nil
  | cons a as ih =>
    rw [all]
    split
    · exact ih ready s
    · split
      · refine List.nodup_cons.2 ⟨fun h => ?_, ih _ _⟩
        obtain ⟨t, ht, hname⟩ := List.mem_map.1 h
        refine (of_mem_all ht).1 (List.mem_append_right _ ?_)
        exact List.mem_singleton.2 hname
      · exact List.nodup_singleton _

/-- When no attempt is stopped, every adventure is ready. -/
theorem mem_ready_of_all (h : ∀ t ∈ all ready as s, t.isComplete = true) :
    ∀ a ∈ as, a.name ∈ ready ++ finished (all ready as s) := by
  induction as generalizing ready s with
  | nil => exact nofun
  | cons a as ih =>
    rw [all] at h ⊢
    split at h
    · rename_i hready
      rw [if_pos hready]
      exact List.forall_mem_cons.2
        ⟨List.mem_append_left _ (List.contains_iff_mem.1 hready), ih h⟩
    · rename_i hready
      rw [if_neg hready]
      split at h
      · rename_i hcomplete
        rw [if_pos hcomplete, finished_cons_of_isComplete hcomplete, List.append_cons]
        refine List.forall_mem_cons.2 ⟨?_, ih (List.forall_mem_cons.1 h).2⟩
        exact List.mem_append_left _ (List.mem_append_right _ (List.mem_singleton_self _))
      · rename_i hcomplete
        exact absurd (List.forall_mem_singleton.1 h) hcomplete

/-- When an attempt is stopped, its adventure is not ready. -/
theorem not_mem_ready_of_all (ht : t ∈ all ready as s) (h : t.isComplete = false) :
    t.name ∉ ready ++ finished (all ready as s) := by
  intro hmem
  rcases List.mem_append.1 hmem with hmem | hmem
  · exact (of_mem_all ht).1 hmem
  · obtain ⟨u, hu, hcomplete, hname⟩ := mem_finished.1 hmem
    obtain rfl : u = t := List.inj_on_of_nodup_map (nodup_all ready as s) hu ht hname
    rw [h] at hcomplete
    contradiction

/-- How running the load-time actions ends, by the attempts that were made. -/
inductive Ends (log : List Attempt) : Except Fault Unit → Prop
  | through (complete : ∀ t ∈ log, t.isComplete = true) : Ends log (.ok ())
  | stopped {e : EvalError} {t : Attempt} (mem : t ∈ log) (incomplete : t.isComplete = false) :
    Ends log (.error (.evaluation e))

/-- An attempt that runs all of its actions does not change how the others end. -/
theorem Ends.cons {result : Except Fault Unit} (h : Ends log result) (ht : t.isComplete = true) :
    Ends (t :: log) result := by
  cases h with
  | through complete => exact .through (List.forall_mem_cons.2 ⟨ht, complete⟩)
  | stopped mem incomplete => exact .stopped (List.mem_cons_of_mem _ mem) incomplete

end Attempt

/-! ## Linking -/

namespace Session

/-- The session after some attempts. -/
def tried (s : Session) (log : List Attempt) : Session :=
  { s with
    store := log.foldl Attempt.perform s.store
    ready := s.ready ++ Attempt.finished log }

/-- No attempts leave a session as it is. -/
theorem tried_nil (s : Session) : s.tried [] = s := by
  simp [tried, Attempt.finished]

/-- The first attempt is made before the others. -/
theorem tried_cons (s : Session) (t : Attempt) (log : List Attempt) :
    s.tried (t :: log) = (s.tried [t]).tried log := by
  have hfinished : Attempt.finished (t :: log) = Attempt.finished [t] ++ Attempt.finished log :=
    Attempt.finished_append [t] log
  simp [tried, hfinished]

/-- The attempts that linking makes. -/
def attempts (s : Session) : List Attempt :=
  match s.story.link.failure with
  | some _ => []
  | none => Attempt.all s.ready s.story.link.result.adventures s.store

/-- The session with its references resolved, as far as they can be. -/
def linked (s : Session) : Session := { s with story := s.story.link.result }

/-- What linking answers: it is stopped at a reference, or it makes its attempts. -/
inductive Links (s : Session) : Except Fault Unit × Session → Prop
  | unknown {d : Diagnostic} (failure : s.story.link.failure = some d) :
    Links s (.error (.document d), s.linked)
  | tried {result : Except Fault Unit} (failure : s.story.link.failure = none)
      (ends : Attempt.Ends s.attempts result) : Links s (result, s.linked.tried s.attempts)

end Session

namespace Request

variable {s : Session} {a : Adventure}

/-- The load-time actions of an adventure that is ready are not run again. -/
theorem answer_initialise_of_ready (h : s.ready.contains a.name = true) :
    (initialise a).answer s = (.ok (), s) := by
  rw [initialise, answer_bind_of_ok (answer_get s), Session.isReady, h]
  rfl

/-- The load-time actions of an adventure that is not ready are run in one attempt. -/
theorem answer_initialise (h : s.ready.contains a.name = false) :
    ∃ result, Attempt.Ends [.of a s.store] result ∧
      (initialise a).answer s = (result, s.tried [.of a s.store]) := by
  have hstore : (Action.runAll a.actions s.store).2 = (Attempt.of a s.store).perform s.store :=
    (Action.runAll_eq a.actions s.store).2
  have hnone : (Action.runAll a.actions s.store).1 = none ↔
      (Attempt.of a s.store).isComplete = true :=
    (Action.runAll_eq a.actions s.store).1.trans beq_iff_eq.symm
  rw [initialise, answer_bind_of_ok (answer_get s), Session.isReady, h]
  simp only [Bool.not_false, if_true, answer_bind, answer_set, hstore]
  cases hrun : (Action.runAll a.actions s.store).1 with
  | none =>
    have hcomplete := hnone.1 hrun
    refine ⟨.ok (), .through (List.forall_mem_singleton.2 hcomplete), ?_⟩
    rw [Session.tried, Attempt.finished_cons_of_isComplete hcomplete]
    rfl
  | some e =>
    have hcomplete : (Attempt.of a s.store).isComplete = false := by
      rw [← Bool.not_eq_true, ← hnone, hrun]
      simp
    refine ⟨.error (.evaluation e), .stopped (List.mem_singleton_self _) hcomplete, ?_⟩
    rw [Session.tried, Attempt.finished_singleton_of_not_isComplete hcomplete, List.append_nil]
    rfl

/-- Running the load-time actions makes the attempts, one after the other. -/
theorem answer_forM_initialise (as : List Adventure) (s : Session) :
    ∃ result, Attempt.Ends (Attempt.all s.ready as s.store) result ∧
      (as.forM initialise).answer s = (result, s.tried (Attempt.all s.ready as s.store)) := by
  induction as generalizing s with
  | nil =>
    rw [Attempt.all, Session.tried_nil]
    exact ⟨.ok (), .through nofun, rfl⟩
  | cons a as ih =>
    have hcons : ((a :: as).forM initialise).answer s =
        (initialise a >>= fun _ => as.forM initialise).answer s := rfl
    rw [hcons, Attempt.all]
    cases hready : s.ready.contains a.name with
    | true =>
      rw [answer_bind_of_ok (answer_initialise_of_ready hready)]
      exact ih s
    | false =>
      rw [if_neg Bool.false_ne_true]
      obtain ⟨result, hends, hanswer⟩ := answer_initialise hready
      cases hends with
      | through complete =>
        have hcomplete := List.forall_mem_singleton.1 complete
        have hreadyNext : (s.tried [.of a s.store]).ready = s.ready ++ [a.name] := by
          rw [Session.tried, Attempt.finished_cons_of_isComplete hcomplete]
          rfl
        obtain ⟨result, hends, hrest⟩ := ih (s.tried [.of a s.store])
        rw [hreadyNext] at hends hrest
        rw [answer_bind_of_ok hanswer, if_pos hcomplete, hrest]
        exact ⟨result, hends.cons hcomplete, congrArg _ (s.tried_cons _ _).symm⟩
      | stopped mem incomplete =>
        obtain rfl := List.mem_singleton.1 mem
        rw [answer_bind_of_error hanswer, if_neg (Bool.eq_false_iff.1 incomplete)]
        exact ⟨_, .stopped (List.mem_singleton_self _) incomplete, rfl⟩

/-- **Linking resolves the references, and if nothing stops that, it makes its
attempts.** -/
theorem links (s : Session) : s.Links (link.answer s) := by
  have hanswer : link.answer s = (match s.story.link.failure with
      | some d => throw (.document d)
      | none => s.story.link.result.adventures.forM initialise : Request Unit).answer s.linked := by
    rw [link, answer_bind_of_ok (answer_get s), answer_bind_of_ok (answer_modify _ s)]
    rfl
  rw [hanswer]
  cases hfailure : s.story.link.failure with
  | some d => exact .unknown hfailure
  | none =>
    have hattempts : s.attempts =
        Attempt.all s.linked.ready s.story.link.result.adventures s.linked.store := by
      rw [Session.attempts, hfailure]
      rfl
    obtain ⟨result, hends, hanswer⟩ :=
      answer_forM_initialise s.story.link.result.adventures s.linked
    rw [← hattempts] at hends hanswer
    exact hanswer ▸ .tried hfailure hends

end Request

/-! ## Sessions -/

namespace Session

/-- The attempts that a deed makes: only linking makes any. -/
def attemptsOf (s : Session) : Deed → List Attempt
  | .call .link => s.attempts
  | _ => []

/-- The attempts that deeds make, in order. -/
def log (s : Session) : List Deed → List Attempt
  | [] => []
  | d :: deeds => s.attemptsOf d ++ (s.next d).log deeds

variable {s : Session} {deeds : List Deed} {t : Attempt}

/-- Linking leaves the numbers of its attempts behind, and the adventures ready that
they made so. -/
theorem next_link (s : Session) : (s.next (.call .link)).store =
      s.attempts.foldl Attempt.perform s.store ∧
    (s.next (.call .link)).ready = s.ready ++ Attempt.finished s.attempts := by
  have hlinks := Request.links s
  rw [next, Call.answer]
  generalize Request.link.answer s = answered at hlinks ⊢
  cases hlinks with
  | unknown failure =>
    rw [attempts, failure]
    exact ⟨rfl, (List.append_nil _).symm⟩
  | tried => exact ⟨rfl, rfl⟩

/-- A deed makes ready what its attempts finish, and takes nothing back. -/
theorem ready_next (s : Session) (d : Deed) :
    (s.next d).ready = s.ready ++ Attempt.finished (s.attemptsOf d) := by
  cases d with
  | write store => exact (List.append_nil _).symm
  | call c =>
    cases c with
    | link => exact s.next_link.2
    | load c => exact (Call.ready_answer (by simp)).trans (List.append_nil _).symm
    | run name answers => exact (Call.ready_answer (by simp)).trans (List.append_nil _).symm

/-- Attempts are made by linking only, for adventures that are loaded and not ready. -/
theorem of_mem_attemptsOf {d : Deed} (h : t ∈ s.attemptsOf d) : d = .call .link ∧
    t.name ∉ s.ready ∧ (t.name, t.actions) ∈ s.story.link.result.roster := by
  unfold attemptsOf at h
  split at h
  · rw [attempts] at h
    split at h
    · contradiction
    · obtain ⟨hready, a, ha, heq⟩ := Attempt.of_mem_all h
      exact ⟨rfl, hready, heq ▸ Story.mem_roster ha⟩
  · contradiction

/-- A deed makes one attempt at most for each adventure. -/
theorem nodup_attemptsOf (s : Session) (d : Deed) : ((s.attemptsOf d).map (·.name)).Nodup := by
  unfold attemptsOf
  split
  · rw [attempts]
    split
    · exact List.nodup_nil
    · exact Attempt.nodup_all ..
  · exact List.nodup_nil

/-- **The complete attempts are those that made the adventures ready.** -/
theorem ready_later (s : Session) (deeds : List Deed) :
    (s.later deeds).ready = s.ready ++ Attempt.finished (s.log deeds) := by
  induction deeds generalizing s with
  | nil => exact (List.append_nil _).symm
  | cons d deeds ih =>
    rw [log, Attempt.finished_append, ← List.append_assoc, ← ready_next]
    exact ih (s.next d)

/-- No attempt is made for an adventure that was ready at the beginning. -/
theorem not_mem_ready_of_mem_log (h : t ∈ s.log deeds) : t.name ∉ s.ready := by
  induction deeds generalizing s with
  | nil => contradiction
  | cons d deeds ih =>
    rcases List.mem_append.1 h with h | h
    · exact (of_mem_attemptsOf h).2.1
    · exact fun hready => ih h (s.ready_next d ▸ List.mem_append_left _ hready)

/-- **No attempt follows a complete one of the same adventure.** -/
theorem pairwise_log (s : Session) (deeds : List Deed) :
    (s.log deeds).Pairwise fun t u => t.name = u.name → t.isComplete = false := by
  induction deeds generalizing s with
  | nil => exact .nil
  | cons d deeds ih =>
    rw [log, List.pairwise_append]
    refine ⟨?_, ih (s.next d), fun t ht u hu hname => ?_⟩
    · refine (List.pairwise_map.1 (s.nodup_attemptsOf d)).imp fun hne hname => ?_
      exact absurd hname hne
    · rw [Bool.eq_false_iff]
      intro hcomplete
      -- a complete attempt makes its adventure ready, and a later one is for one that is not
      refine not_mem_ready_of_mem_log hu ?_
      rw [ready_next]
      exact List.mem_append_right _ (Attempt.mem_finished.2 ⟨t, ht, hcomplete, hname⟩)

/-- Attempts are made for loaded adventures, with the actions that they were loaded
with. -/
theorem mem_roster_of_mem_log (hs : s.story.Sound) (h : t ∈ s.log deeds) :
    (t.name, t.actions) ∈ (s.later deeds).story.roster := by
  induction deeds generalizing s with
  | nil => contradiction
  | cons d deeds ih =>
    rcases List.mem_append.1 h with h | h
    · obtain ⟨rfl, -, hmem⟩ := of_mem_attemptsOf h
      have hstory : (s.next (.call .link)).story = s.story.link.result := (Request.story_link s).1
      exact (roster_later (sound_next hs _)).subset (hstory ▸ hmem)
    · exact ih (sound_next hs d) h

end Session

/-! ## How often an action assigns its number -/

namespace Attempt

/-- How often attempts assign the number of an action, by its place among those of its
adventure. -/
def timesDone (name : String) (k : Nat) (log : List Attempt) : Nat :=
  log.countP fun t => t.name = name ∧ k < t.done.length

/-- How many attempts are stopped behind an action. -/
def timesStopped (name : String) (k : Nat) (log : List Attempt) : Nat :=
  log.countP fun t => (t.name = name ∧ k < t.done.length) ∧ t.isComplete = false

variable {log : List Attempt} {name : String} {k : Nat}

/-- An action assigns its number once, and once for each attempt that is stopped behind
it. -/
theorem timesDone_le (h : log.Pairwise fun t u => t.name = u.name → t.isComplete = false) :
    timesDone name k log ≤ timesStopped name k log + 1 := by
  induction log with
  | nil => exact Nat.zero_le _
  | cons t log ih =>
    obtain ⟨hhead, htail⟩ := List.pairwise_cons.1 h
    have hrest := ih htail
    by_cases hdone : t.name = name ∧ k < t.done.length
    · cases hcomplete : t.isComplete with
      | false =>
        have hdoneCons : timesDone name k (t :: log) = timesDone name k log + 1 :=
          List.countP_cons_of_pos (by simpa using hdone)
        have hstoppedCons : timesStopped name k (t :: log) = timesStopped name k log + 1 :=
          List.countP_cons_of_pos (by simpa using ⟨hdone, hcomplete⟩)
        omega
      | true =>
        -- no attempt of the same adventure follows a complete one
        have hnone : timesDone name k log = 0 := by
          refine List.countP_eq_zero.2 fun u hu hmatch => ?_
          have hname : u.name = name := (of_decide_eq_true hmatch).1
          exact absurd (hhead u hu (hdone.1.trans hname.symm)) (by simp [hcomplete])
        have hdoneCons : timesDone name k (t :: log) = timesDone name k log + 1 :=
          List.countP_cons_of_pos (by simpa using hdone)
        omega
    · have hdoneCons : timesDone name k (t :: log) = timesDone name k log :=
        List.countP_cons_of_neg (by simpa using hdone)
      have hstoppedCons : timesStopped name k (t :: log) = timesStopped name k log :=
        List.countP_cons_of_neg (by simpa using fun hname hlt => absurd ⟨hname, hlt⟩ hdone)
      omega

/-- No more than one of the attempts for different adventures is stopped behind an
action. -/
theorem timesStopped_le_one (h : (log.map (·.name)).Nodup) : timesStopped name k log ≤ 1 := by
  have hcount : timesStopped name k log ≤ (log.map (·.name)).count name := by
    rw [List.count, List.countP_map]
    refine List.countP_mono_left fun t _ ht => ?_
    exact beq_iff_eq.2 (of_decide_eq_true ht).1.1
  exact hcount.trans (List.nodup_iff_count_le_one.1 h name)

end Attempt

namespace Session

/-- Whether a deed fails at a load-time action. -/
def stopsAtAction (s : Session) : Deed → Bool
  | .call .link =>
    match (Request.link.answer s).1 with
    | .error (.evaluation _) => true
    | _ => false
  | _ => false

/-- How many deeds fail at a load-time action. -/
def failures (s : Session) : List Deed → Nat
  | [] => 0
  | d :: deeds => (s.stopsAtAction d).toNat + (s.next d).failures deeds

variable {s : Session} {deeds : List Deed} {name : String} {k : Nat}

/-- An attempt is stopped only when the call fails. -/
theorem isComplete_of_not_stopsAtAction {d : Deed} (h : s.stopsAtAction d = false) :
    ∀ t ∈ s.attemptsOf d, t.isComplete = true := by
  intro t ht
  obtain ⟨rfl, -⟩ := of_mem_attemptsOf ht
  have hlinks := Request.links s
  rw [stopsAtAction] at h
  generalize Request.link.answer s = answered at hlinks h
  cases hlinks with
  | unknown failure => exact absurd ht (by simp [attemptsOf, attempts, failure])
  | tried _ ends =>
    cases ends with
    | through complete => exact complete t ht
    | stopped => contradiction

/-- A deed is stopped behind an action once at most, and only if it fails at a load-time action. -/
theorem timesStopped_attemptsOf_le (s : Session) (d : Deed) :
    Attempt.timesStopped name k (s.attemptsOf d) ≤ (s.stopsAtAction d).toNat := by
  cases hstops : s.stopsAtAction d with
  | true => exact Attempt.timesStopped_le_one (s.nodup_attemptsOf d)
  | false =>
    refine Nat.le_of_eq (List.countP_eq_zero.2 fun t ht hstopped => ?_)
    have hcomplete := isComplete_of_not_stopsAtAction hstops t ht
    exact absurd (of_decide_eq_true hstopped).2 (by simp [hcomplete])

/-- **No more attempts are stopped behind an action than calls fail.** -/
theorem timesStopped_log_le (s : Session) (deeds : List Deed) :
    Attempt.timesStopped name k (s.log deeds) ≤ s.failures deeds := by
  induction deeds generalizing s with
  | nil => exact Nat.le_refl 0
  | cons d deeds ih =>
    rw [log, failures, Attempt.timesStopped, List.countP_append]
    exact Nat.add_le_add (s.timesStopped_attemptsOf_le d) (ih (s.next d))

/-- **Load-time actions assign their numbers once, and once more for each failure behind
them.**  Let a host do whatever it likes.  Every attempt is for a loaded adventure, with
its own actions, and no other adventure has its name.  Once an attempt is complete, the
adventure is ready and no other one is made.  So an action does not assign its number
more than once, except that it does so again for each attempt that was stopped behind
it, each of which is a call that failed.  Nothing else that a call which links does
shows in the variables. -/
theorem actions_once_unless_stopped (settings : Settings) (library : Option Library)
    (disk : Disk) (deeds : List Deed) :
    let s := start settings library disk
    let t := s.later deeds
    ((∀ u ∈ s.log deeds, (u.name, u.actions) ∈ t.story.roster) ∧ t.names.Nodup) ∧
    (t.ready = Attempt.finished (s.log deeds) ∧
      (s.log deeds).Pairwise fun u v => u.name = v.name → u.isComplete = false) ∧
    (∀ name k,
      Attempt.timesDone name k (s.log deeds) ≤ Attempt.timesStopped name k (s.log deeds) + 1 ∧
      Attempt.timesStopped name k (s.log deeds) ≤ s.failures deeds) ∧
    ∀ u : Session, (u.next (.call .link)).store = u.attempts.foldl Attempt.perform u.store := by
  intro s t
  have hsound : s.story.Sound := Story.sound_opening
  have hpairwise := s.pairwise_log deeds
  refine ⟨⟨fun u hu => mem_roster_of_mem_log hsound hu, ?_⟩, ⟨?_, hpairwise⟩, ?_, ?_⟩
  · rw [names_eq]
    exact (sound_later hsound).names_nodup
  · exact s.ready_later deeds
  · exact fun name k => ⟨Attempt.timesDone_le hpairwise, s.timesStopped_log_le deeds⟩
  · exact fun u => u.next_link.1

/-- A call that links fails at the second action of an adventure, and the next one
assigns the number of the first action again. -/
theorem action_twice :
    let document : Json := AdventureRecord.toJson
      { name := "a", title := "T", version := 1, actions := ["x += 1", "y = z"],
        startingScene := "start", scenes := [{ name := "start", title := "S", content := ["c"] }] }
    let x : Identifier := ⟨"a", "x", by decide, by decide⟩
    let z : Identifier := ⟨"a", "z", by decide, by decide⟩
    let s : Session := .start {} none {}
    let deeds : List Deed := [.call (.load (.given document none)), .write ⟨[(x, 0)]⟩, .call .link]
    let more : List Deed := [.write ⟨[(x, 1), (z, 5)]⟩, .call .link]
    ((s.later deeds).store.get? x == some 1) = true ∧
      ((s.later (deeds ++ more)).store.get? x == some 2) = true ∧
      (s.later (deeds ++ more)).ready = ["inkspire", "a"] ∧
      Attempt.timesDone "a" 0 (s.log (deeds ++ more)) = 2 := by
  decide +kernel

end Session
end Gamebook
