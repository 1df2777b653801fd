import Blade.Log.Event
import Blade.Preferences
import Blade.Text.Lowercase

/-!
# Settings — Basic

The settings of a run: how templates are loaded, how they are lexed and what is logged.  Defaults
come from environment variables.
-/

namespace Blade

/-- How templates are loaded. -/
structure LoadSettings where
  /-- Whether a template needs a `.blade` or `.blade.html` extension. -/
  requireExtension : Bool := false
  /-- Whether the time spent on a file is logged. -/
  logPerformance : Bool := true
  deriving DecidableEq, Repr, Inhabited

/-- What is logged, and how. -/
structure LogSettings where
  /-- Whether events are written as JSON. -/
  structured : Bool := false
  /-- Whether events are written at all. -/
  console : Bool := false
  /-- The last level written. -/
  minLevel : Level := .info
  /-- Whether events are marked with the current file. -/
  marksFile : Bool := true
  deriving DecidableEq, Repr, Inhabited

/-- The settings of a run. -/
structure Settings where
  load : LoadSettings := {}
  lexical : Preferences := {}
  log : LogSettings := {}
  deriving DecidableEq, Repr, Inhabited

/-- Why there are no settings. -/
inductive SettingsError where
  | unreadable (path message : String)
  | invalid (message : String)
  | invalidRawFunction (name : String)
  deriving DecidableEq, Repr, Inhabited

namespace SettingsError

/-- The message of a settings error. -/
def message : SettingsError → String
  | .unreadable path message => "Cannot read configuration file " ++ path ++ ": " ++ message
  | .invalid message => "Invalid configuration: " ++ message
  | .invalidRawFunction name =>
      "Invalid raw directive name '" ++ name ++ "': only ASCII letters are allowed"

/-- The code of a settings error. -/
def code : SettingsError → Code
  | .unreadable .. => Code.configRead
  | .invalid _ => Code.configInvalid
  | .invalidRawFunction _ => Code.configRawFunction

end SettingsError

/-- Refuses raw directive names that no directive can have. -/
def Preferences.validate (p : Preferences) : Except SettingsError Unit :=
  match p.invalidName? with
  | some name => .error (.invalidRawFunction name)
  | none => .ok ()

/-! ### Defaults from the environment -/

/-- Environment variables by name. -/
abbrev Environment := List (String × String)

namespace Environment

/-- The variables that the defaults depend on. -/
def variableNames : List String :=
  ["BLADE_REQUIRE_BLADE_EXTENSION", "BLADE_ENABLE_PERFORMANCE_LOGGING",
    "BLADE_LEXICAL_RAW_FUNCTIONS", "BLADE_LEXICAL_TRANSPARENT_RAW", "BLADE_LEXICAL_STRICT",
    "BLADE_LEXICAL_DETAILED_METRICS", "BLADE_LOGGING_USE_STRUCTURED",
    "BLADE_LOGGING_ENABLE_CONSOLE", "BLADE_LOGGING_MIN_LEVEL",
    "BLADE_LOGGING_INCLUDE_FILE_CONTEXT"]

/-- The boolean that a variable spells out, `fallback` without one. -/
def flag (env : Environment) (name : String) (fallback : Bool) : Bool :=
  match env.lookup name with
  | some "true" => true
  | some "false" => false
  | _ => fallback

/-- The level that a word or digit stands for, in any case. -/
def level? (s : String) : Option Level :=
  match Text.lowercase s with
  | "error" | "0" => some .error
  | "warning" | "warn" | "1" => some .warning
  | "info" | "2" => some .info
  | "debug" | "3" => some .debug
  | _ => none

/-- How templates are loaded by default. -/
def loadSettings (env : Environment) : LoadSettings where
  requireExtension := env.flag "BLADE_REQUIRE_BLADE_EXTENSION" false
  logPerformance := env.flag "BLADE_ENABLE_PERFORMANCE_LOGGING" true

/-- How templates are lexed by default. -/
def preferences (env : Environment) : Preferences where
  rawFunctions :=
    match env.lookup "BLADE_LEXICAL_RAW_FUNCTIONS" with
    | some list => Text.nameList list
    | none => ["js", "verbatim"]
  transparent :=
    match env.lookup "BLADE_LEXICAL_TRANSPARENT_RAW" with
    | some name => if Text.isBlankText name then "verbatim" else name
    | none => "verbatim"
  strict := env.flag "BLADE_LEXICAL_STRICT" false
  detailedMetrics := env.flag "BLADE_LEXICAL_DETAILED_METRICS" true

/-- What is logged by default. -/
def logSettings (env : Environment) : LogSettings where
  structured := env.flag "BLADE_LOGGING_USE_STRUCTURED" false
  console := env.flag "BLADE_LOGGING_ENABLE_CONSOLE" false
  minLevel := ((env.lookup "BLADE_LOGGING_MIN_LEVEL").bind level?).getD .info
  marksFile := env.flag "BLADE_LOGGING_INCLUDE_FILE_CONTEXT" true

/-- The settings without a settings file. -/
def settings (env : Environment) : Settings where
  load := env.loadSettings
  lexical := env.preferences
  log := env.logSettings

end Environment
end Blade
