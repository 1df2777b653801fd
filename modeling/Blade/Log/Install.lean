import Blade.Log.Recorder
import Blade.Settings.Basic

/-!
# Log — Install

Putting a recorder in place.  Settings that write no events ask for none; at most one recorder can
be put in place in a run, and it starts with a note of the last level it admits.
-/

namespace Blade.Recorder

variable [Limits]

/-- The recorder before one is put in place: it records nothing. -/
def silent : Recorder :=
  { minLevel := none, marksFile := false }

/-- Whether a recorder has been put in place. -/
def isInstalled (r : Recorder) : Bool :=
  r.minLevel.isSome

/-- The level up to which settings have events written, if they have any written. -/
def levelOf? (settings : LogSettings) : Option Level :=
  if settings.console then some settings.minLevel else none

/-- What is said when a second recorder is to be put in place. -/
def alreadyInstalled : String := "Global logger already initialized"

/-- The note a recorder starts with. -/
def installed (level : Level) : Event :=
  (Event.success Code.loggingReady "Logging initialized").set "min_level" level.label

/-- Puts the recorder in place that settings ask for. -/
def install (r : Recorder) (settings : LogSettings) : Except String Recorder :=
  match levelOf? settings with
  | none => .ok r
  | some level =>
      if r.isInstalled then .error alreadyInstalled
      else
        .ok ({ r with minLevel := some level, marksFile := settings.marksFile }.emit
          (installed level))

end Blade.Recorder
