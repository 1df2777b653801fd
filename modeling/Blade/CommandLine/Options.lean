import Blade.Settings.Basic
import Blade.Text.Blank

/-!
# CommandLine — Options

The words of a command line, read from the first to the last.  An option may take the word after it
as its value.  A word that starts with two dashes and is no option is passed over with a warning.
-/

namespace Blade

/-- What a command line asks for. -/
structure Options where
  /-- The template to lex. -/
  input : String := ""
  /-- Whether the tokens are printed as JSON. -/
  json : Bool := false
  /-- Whether an open construct at the end of input is an error. -/
  strict : Bool := false
  /-- The directives that open raw blocks, if they are given. -/
  rawFunctions : Option (List String) := none
  /-- The settings file, if one is given. -/
  settingsPath : Option String := none
  /-- Whether the metrics are printed. -/
  showMetrics : Bool := false
  deriving DecidableEq, Repr, Inhabited

/-- What can be wrong with a command line. -/
inductive UsageError where
  | missingRawList
  | missingSettingsPath
  | unexpectedArgument (word : String)
  | noTemplate
  deriving DecidableEq, Repr, Inhabited

/-- The message of a usage error. -/
def UsageError.message : UsageError → String
  | .missingRawList => "--raw requires a comma-separated list"
  | .missingSettingsPath => "--config requires a file path"
  | .unexpectedArgument word => "unexpected argument '" ++ word ++ "'"
  | .noTemplate => "no template file given"

namespace Options

/-- Reads the words from an index on, an option taking the word after it as its value, up to the
first word that is an error; also gives the words to warn of. -/
def readFrom (words : Array String) (i : Nat) (o : Options) :
    Except UsageError Options × List String :=
  if h : i < words.size then
    match words[i] with
    | "--json" => readFrom words (i + 1) { o with json := true }
    | "--strict" => readFrom words (i + 1) { o with strict := true }
    | "--metrics" => readFrom words (i + 1) { o with showMetrics := true }
    | "--raw" =>
        match words[i + 1]? with
        | some list => readFrom words (i + 2) { o with rawFunctions := some (Text.nameList list) }
        | none => (.error .missingRawList, [])
    | "--config" =>
        match words[i + 1]? with
        | some path => readFrom words (i + 2) { o with settingsPath := some path }
        | none => (.error .missingSettingsPath, [])
    | word =>
        if word.startsWith "--" then
          let (result, unknown) := readFrom words (i + 1) o
          (result, word :: unknown)
        else if o.input.isEmpty then readFrom words (i + 1) { o with input := word }
        else (.error (.unexpectedArgument word), [])
  else (.ok o, [])
termination_by words.size - i

/-- Options without a template are none. -/
def complete (o : Options) : Except UsageError Options :=
  if o.input.isEmpty then .error .noTemplate else .ok o

/-- Reads the words of a command line; also gives the words to warn of. -/
def parse (words : List String) : Except UsageError Options × List String :=
  let (result, unknown) := readFrom words.toArray 0 {}
  (result.bind complete, unknown)

/-- Lexing preferences with what the command line says about them. -/
def adjust (o : Options) (p : Preferences) : Preferences :=
  let p := match o.rawFunctions with
    | some names => { p with rawFunctions := names }
    | none => p
  if o.strict then { p with strict := true } else p

/-- Settings with what the command line says about lexing; refused when a raw directive has a name
that no directive can have. -/
def applyTo (o : Options) (settings : Settings) : Except SettingsError Settings := do
  let lexical := o.adjust settings.lexical
  lexical.validate
  return { settings with lexical }

end Options
end Blade
