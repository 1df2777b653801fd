import Blade.Settings.Document
import Blade.Toml.Parser

/-!
# Settings — Toml

Settings as a TOML document: read, with what is missing taken from the defaults, and written, every
setting in a section of its own.
-/

namespace Blade

mutual

/-- A TOML value as a document.  A date or time is a record of a field that no section has. -/
def Document.ofToml : Toml.Value → Document
  | .string s => .word s
  | .integer n => .number n
  | .float => .other
  | .boolean b => .flag b
  | .datetime => .record [("a date or time", .other)]
  | .array items => .list (Document.ofTomlItems items)
  | .table entries => .record (Document.ofEntries entries)

/-- TOML values as documents. -/
def Document.ofTomlItems : List Toml.Value → List Document
  | [] => []
  | item :: items => Document.ofToml item :: Document.ofTomlItems items

/-- The entries of a TOML table as documents. -/
def Document.ofEntries : List (String × Toml.Value) → List (String × Document)
  | [] => []
  | (name, value) :: entries => (name, Document.ofToml value) :: Document.ofEntries entries

end

/-- The dialect of TOML. -/
def Dialect.toml : Dialect where
  exactLists := false
  isUnit
    | .record [] | .list [] => true
    | _ => false

/-- Reads settings from the text of a TOML document. -/
def Settings.ofToml (fallback : Settings) (text : String) : Except SettingsError Settings :=
  match Toml.parse text with
  | .error e => .error (.invalid (e.message text))
  | .ok entries =>
      match Settings.ofDocument? .toml fallback (.record (Document.ofEntries entries)) with
      | none => .error (.invalid "TOML parse error: a setting has a value of the wrong kind\n")
      | some settings => do
          settings.lexical.validate
          return settings

/-! ### Writing -/

/-- A boolean as it is written. -/
def Toml.writeFlag (b : Bool) : String :=
  if b then "true" else "false"

/-- A list of strings as it is written: on one line when it has no more than one item, and otherwise
one item a line, each with a comma. -/
def Toml.writeStrings (items : List String) : String :=
  match items with
  | [] => "[]"
  | [item] => "[" ++ Toml.writeString item ++ "]"
  | items =>
      items.foldl (fun out item => out ++ "    " ++ Toml.writeString item ++ ",\n") "[\n" ++ "]"

/-- One setting a line. -/
def Toml.writeSection (name : String) (entries : List (String × String)) : String :=
  entries.foldl (fun out (key, value) => out ++ key ++ " = " ++ value ++ "\n")
    ("[" ++ name ++ "]\n")

/-- The text of a TOML document with these settings. -/
def Settings.toToml (s : Settings) : String :=
  Toml.writeSection "file_processor"
      [("require_blade_extension", Toml.writeFlag s.load.requireExtension),
        ("enable_performance_logging", Toml.writeFlag s.load.logPerformance)] ++
    "\n" ++
  Toml.writeSection "lexical"
      [("raw_functions", Toml.writeStrings s.lexical.rawFunctions),
        ("transparent_raw_function", Toml.writeString s.lexical.transparent),
        ("strict_termination", Toml.writeFlag s.lexical.strict),
        ("collect_detailed_metrics", Toml.writeFlag s.lexical.detailedMetrics)] ++
    "\n" ++
  Toml.writeSection "logging"
      [("use_structured_logging", Toml.writeFlag s.log.structured),
        ("enable_console_logging", Toml.writeFlag s.log.console),
        ("min_log_level", Toml.writeString s.log.minLevel.name),
        ("include_file_context", Toml.writeFlag s.log.marksFile)]

end Blade
