import Blade.Json.Value
import Blade.Settings.Basic

/-!
# Settings — Document

Settings read from a document, whatever its format.  A section is a record of named fields, or a
list of their values in order; what is missing keeps its default and what is unknown is ignored.
-/

namespace Blade

/-- What a document may hold. -/
inductive Document where
  | nothing
  | flag (value : Bool)
  | number (value : Int)
  | word (value : String)
  | list (items : List Document)
  | record (fields : List (String × Document))
  /-- A value of a kind that no setting has. -/
  | other
  deriving Repr, Inhabited

/-- Where formats differ in what they take for a setting. -/
structure Dialect where
  /-- Whether a list may be no longer than the section it stands for. -/
  exactLists : Bool
  /-- Whether a value may stand beside a name that is a key and no word. -/
  isUnit : Document → Bool

namespace Document

/-- The values of named fields: those of a record, or the items of a list. -/
def fields? (dialect : Dialect) (names : List String) : Document → Option (List (Option Document))
  | .record fields => some (names.map fun name => fields.lookup name)
  | .list items =>
      if dialect.exactLists && names.length < items.length then none
      else some ((items.map some ++ List.replicate names.length none).take names.length)
  | _ => none

/-- A boolean; the default when it is missing. -/
def flagOr (fallback : Bool) : Option Document → Option Bool
  | none => some fallback
  | some (.flag value) => some value
  | some _ => none

/-- A word. -/
def word? : Document → Option String
  | .word value => some value
  | _ => none

/-- A word; the default when it is missing. -/
def wordOr (fallback : String) : Option Document → Option String
  | none => some fallback
  | some value => value.word?

/-- A list of words; the default when it is missing. -/
def wordsOr (fallback : List String) : Option Document → Option (List String)
  | none => some fallback
  | some (.list items) => items.mapM word?
  | some _ => none

/-- A level by its name, or as the only key of a record; the default when it is missing. -/
def levelOr (dialect : Dialect) (fallback : Level) : Option Document → Option Level
  | none => some fallback
  | some (.word name) => Level.ofName? name
  | some (.record [(name, value)]) => if dialect.isUnit value then Level.ofName? name else none
  | some _ => none

end Document

/-- Reads how templates are loaded. -/
def LoadSettings.ofDocument? (dialect : Dialect) (fallback : LoadSettings) (d : Document) :
    Option LoadSettings :=
  match d.fields? dialect ["require_blade_extension", "enable_performance_logging"] with
  | some [requireExtension, logPerformance] => do
      return {
        requireExtension := ← Document.flagOr fallback.requireExtension requireExtension
        logPerformance := ← Document.flagOr fallback.logPerformance logPerformance }
  | _ => none

/-- Reads how templates are lexed. -/
def Preferences.ofDocument? (dialect : Dialect) (fallback : Preferences) (d : Document) :
    Option Preferences :=
  match d.fields? dialect ["raw_functions", "transparent_raw_function", "strict_termination",
      "collect_detailed_metrics"] with
  | some [rawFunctions, transparent, strict, detailedMetrics] => do
      return {
        rawFunctions := ← Document.wordsOr fallback.rawFunctions rawFunctions
        transparent := ← Document.wordOr fallback.transparent transparent
        strict := ← Document.flagOr fallback.strict strict
        detailedMetrics := ← Document.flagOr fallback.detailedMetrics detailedMetrics }
  | _ => none

/-- Reads what is logged. -/
def LogSettings.ofDocument? (dialect : Dialect) (fallback : LogSettings) (d : Document) :
    Option LogSettings :=
  match d.fields? dialect ["use_structured_logging", "enable_console_logging", "min_log_level",
      "include_file_context"] with
  | some [structured, console, minLevel, marksFile] => do
      return {
        structured := ← Document.flagOr fallback.structured structured
        console := ← Document.flagOr fallback.console console
        minLevel := ← Document.levelOr dialect fallback.minLevel minLevel
        marksFile := ← Document.flagOr fallback.marksFile marksFile }
  | _ => none

/-- Reads a section; the default when it is missing. -/
def Document.sectionOr {α : Type} (read : α → Document → Option α) (fallback : α) :
    Option Document → Option α
  | none => some fallback
  | some d => read fallback d

/-- Reads settings. -/
def Settings.ofDocument? (dialect : Dialect) (fallback : Settings) (d : Document) :
    Option Settings :=
  match d.fields? dialect ["file_processor", "lexical", "logging"] with
  | some [load, lexical, log] => do
      return {
        load := ← Document.sectionOr (LoadSettings.ofDocument? dialect) fallback.load load
        lexical := ← Document.sectionOr (Preferences.ofDocument? dialect) fallback.lexical lexical
        log := ← Document.sectionOr (LogSettings.ofDocument? dialect) fallback.log log }
  | _ => none

/-! ### JSON documents -/

mutual

/-- A JSON value as a document. -/
def Document.ofJson : Json → Document
  | .null => .nothing
  | .bool b => .flag b
  | .int n => .number n
  | .decimal .. => .other
  | .str s => .word s
  | .arr items => .list (Document.ofItems items)
  | .obj fields => .record (Document.ofFields fields)

/-- JSON values as documents. -/
def Document.ofItems : List Json → List Document
  | [] => []
  | item :: items => Document.ofJson item :: Document.ofItems items

/-- The fields of a JSON object as documents. -/
def Document.ofFields : List (String × Json) → List (String × Document)
  | [] => []
  | (name, value) :: fields => (name, Document.ofJson value) :: Document.ofFields fields

end

/-- The dialect of JSON. -/
def Dialect.json : Dialect where
  exactLists := true
  isUnit
    | .nothing => true
    | _ => false

/-- Reads settings from JSON. -/
def Settings.ofJson? (fallback : Settings) (value : Json) : Option Settings :=
  Settings.ofDocument? .json fallback (.ofJson value)

end Blade
