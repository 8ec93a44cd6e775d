/-
# Settings

What a host can choose: the directory where required adventures are looked for,
how many scenes are remembered for going back, how many empty lines come before
a scene, and the text shown for a variable that was never assigned.

`ofEnvironment` reads the settings from variables of the environment; blank ones
count as missing, except for the placeholder, which is taken as it is.  The directory
may start at a home.
-/

import Gamebook.Disk.Home
import Gamebook.Play.History

namespace Gamebook

/-- How many empty lines come before a scene where no number is given. -/
def Settings.defaultSpacing : Int := 11

/-- The choices of a host. -/
structure Settings where
  adventureDirectory : Option Path := none
  historyCapacity : Int := History.defaultCapacity
  sceneSpacing : Int := Settings.defaultSpacing
  placeholder : Option String := none
  deriving Repr, DecidableEq

/-- Why settings are refused. -/
inductive SettingsError where
  | capacity
  | spacing
  | notWhole (name : String)
  | tooSmall (name : String) (least : Int)
  | home (e : HomeError)
  deriving Repr, DecidableEq

/-- The wording of an error. -/
def SettingsError.message : SettingsError → String
  | capacity => "history_capacity must be at least 1."
  | spacing => "scene_spacing must be zero or positive."
  | notWhole name => name ++ " must be an integer."
  | tooSmall name least => name ++ " must be at least " ++ Decimal.wholeText least ++ "."
  | home e => e.message

namespace Settings

/-- Settings whose numbers are in range. -/
def check (s : Settings) : Except SettingsError Settings :=
  if s.historyCapacity < 1 then .error .capacity
  else if s.sceneSpacing < 0 then .error .spacing
  else .ok s

/-- The directory that a text names; a blank text names none. -/
def directoryOf (homes : Homes) (s : String) : Except SettingsError (Option Path) :=
  if Text.isBlankText s then .ok none
  else (((Path.ofText (Text.trim s)).expand homes).map some).mapError .home

/-- A whole number from a variable of the environment. -/
def wholeVariable (environment : List (String × String)) (name : String) (default least : Int) :
    Except SettingsError Int :=
  match environment.lookup name with
  | none => .ok default
  | some text =>
    if Text.isBlankText text then .ok default
    else
      match Decimal.readWhole (Text.trim text) with
      | none => .error (.notWhole name)
      | some n => if n < least then .error (.tooSmall name least) else .ok n

/-- The variable that names the adventure directory. -/
def directoryVariable : String := "INKSPIRE_ADVENTURE_DIR"

/-- The variable that holds the history capacity. -/
def capacityVariable : String := "INKSPIRE_HISTORY_CAPACITY"

/-- The variable that holds the scene spacing. -/
def spacingVariable : String := "INKSPIRE_SCENE_SPACING"

/-- The variable that holds the placeholder. -/
def placeholderVariable : String := "INKSPIRE_UNDEFINED_PLACEHOLDER"

/-- The variables of the environment that settings are read from. -/
def variableNames : List String :=
  [directoryVariable, capacityVariable, spacingVariable, placeholderVariable]

/-- The adventure directory that an environment gives. -/
def directoryVariableOf (environment : List (String × String)) (homes : Homes) :
    Except SettingsError (Option Path) :=
  match environment.lookup directoryVariable with
  | none => .ok none
  | some text => directoryOf homes text

/-- The settings that an environment gives, where some homes are known. -/
def ofEnvironment (environment : List (String × String)) (homes : Homes) :
    Except SettingsError Settings := do
  let adventureDirectory ← directoryVariableOf environment homes
  let historyCapacity ← wholeVariable environment capacityVariable History.defaultCapacity 1
  let sceneSpacing ← wholeVariable environment spacingVariable defaultSpacing 0
  let placeholder := environment.lookup placeholderVariable
  check { adventureDirectory, historyCapacity, sceneSpacing, placeholder }

end Settings
end Gamebook
