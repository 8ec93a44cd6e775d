/-
# Homes that are not known

A path that starts at a home cannot be expanded if the home is not known
(`Path.expand_eq_unknown_iff`).  Of all settings only the adventure directory of the
environment may start at one, and it is looked at first.  So settings fail for want of a
home whatever else is set, and whatever directory the command line gives
(`Console.Command.settingsOf_eq_unknown_iff`).
-/

import Gamebook.Console.Command
import Gamebook.Proofs.Validity

namespace Gamebook

namespace Path

variable {homes : Homes} {p : Path}

/-- Whether a path starts at a home that is not known: that of a user for whom no home is
listed, or for whom one is listed that starts at a home again. -/
def Homeless (homes : Homes) (p : Path) : Prop :=
  ∃ user, p.user? = some user ∧ '\x00' ∉ user.toList ∧
    ∀ home, homes.lookup user = some home → home.toList.head? = some '~'

/-- A home is not found just if none is listed that can be used. -/
theorem find_home_eq_unknown_iff {user : String} :
    homes.find user = .error .unknown ↔ '\x00' ∉ user.toList ∧
      ∀ home, homes.lookup user = some home → home.toList.head? = some '~' := by
  unfold Homes.find
  split
  · rename_i hnul
    simp [List.contains_iff_mem.1 hnul]
  · rename_i hnul
    have hnul : '\x00' ∉ user.toList := fun h => hnul (List.contains_iff_mem.2 h)
    split
    · rename_i home hhome
      split <;> rename_i htilde <;> simp [hnul, hhome, htilde]
    · rename_i hnone
      simp [hnul, hnone]

/-- A path cannot be expanded just if it starts at a home that is not known. -/
theorem expand_eq_unknown_iff : p.expand homes = .error .unknown ↔ p.Homeless homes := by
  unfold expand Homeless
  cases huser : p.user? with
  | none => simp
  | some user =>
    simp only [Option.some.injEq, exists_eq_left', ← find_home_eq_unknown_iff]
    cases homes.find user <;> simp [bind, Except.bind, pure, Except.pure]

end Path

namespace Settings

/-- A blank text does not start at a home. -/
theorem user?_eq_none_of_isBlankText {s : String} (h : Text.isBlankText s = true) :
    (Path.ofText (Text.trim s)).user? = none := by
  have htrim : Text.trim s = "" := by
    rw [Text.trim, Text.trimChars, List.dropWhile_eq_nil_iff.2 (List.all_eq_true.1 h)]
    rfl
  rw [htrim]
  decide

/-- The directory that a text names is not found for want of a home just if the text,
without the blanks around it, is the path of one that starts at a home not known. -/
theorem directoryOf_eq_unknown_iff {homes : Homes} {s : String} :
    directoryOf homes s = .error (.home .unknown) ↔
      (Path.ofText (Text.trim s)).Homeless homes := by
  unfold directoryOf
  split
  · rename_i hblank
    simp [Path.Homeless, user?_eq_none_of_isBlankText hblank]
  · rw [← Path.expand_eq_unknown_iff]
    cases (Path.ofText (Text.trim s)).expand homes <;> simp [Except.map, Except.mapError]

/-- Numbers in the environment do not fail for want of a home. -/
theorem wholeVariable_ne_home {environment : List (String × String)} {name : String}
    {default least : Int} {e : HomeError} :
    wholeVariable environment name default least ≠ .error (.home e) := by
  unfold wholeVariable
  split
  · simp
  · split
    · simp
    · split
      · simp
      · split <;> simp

/-- A check of numbers does not fail for want of a home. -/
theorem check_ne_home {s : Settings} {e : HomeError} : s.check ≠ .error (.home e) := by
  unfold check
  split
  · simp
  · split <;> simp

/-- The settings of an environment fail for want of a home just if its adventure directory
does. -/
theorem ofEnvironment_eq_unknown_iff {environment : List (String × String)} {homes : Homes} :
    ofEnvironment environment homes = .error (.home .unknown) ↔
      ∃ text, environment.lookup directoryVariable = some text ∧
        (Path.ofText (Text.trim text)).Homeless homes := by
  have hdirectory : directoryVariableOf environment homes = .error (.home .unknown) ↔
      ∃ text, environment.lookup directoryVariable = some text ∧
        (Path.ofText (Text.trim text)).Homeless homes := by
    unfold directoryVariableOf
    cases environment.lookup directoryVariable with
    | none => simp
    | some text => simp [directoryOf_eq_unknown_iff]
  rw [← hdirectory, ofEnvironment, bind_eq_error_iff]
  -- the directory is looked at first, and nothing behind it asks for a home
  refine or_iff_left ?_
  rintro ⟨directory, -, hrest⟩
  obtain hcapacity | ⟨capacity, -, hrest⟩ := bind_eq_error_iff.1 hrest
  · exact wholeVariable_ne_home hcapacity
  · obtain hspacing | ⟨spacing, -, hcheck⟩ := bind_eq_error_iff.1 hrest
    · exact wholeVariable_ne_home hspacing
    · exact check_ne_home hcheck

end Settings

namespace Console.Command

/-- **Settings fail for want of a home just if the adventure directory of the environment
starts at one that is not known.** -/
theorem settingsOf_eq_unknown_iff {a : Arguments} {environment : List (String × String)}
    {disk : Disk} : settingsOf a environment disk = .error (.home .unknown) ↔
      ∃ text, environment.lookup Settings.directoryVariable = some text ∧
        (Path.ofText (Text.trim text)).Homeless (disk.homes.withEnvironment environment) := by
  rw [← Settings.ofEnvironment_eq_unknown_iff, settingsOf, bind_eq_error_iff]
  refine or_iff_left ?_
  rintro ⟨s, -, hcheck⟩
  exact Settings.check_ne_home hcheck

end Console.Command
end Gamebook
