import Blade.CommandLine.Options
import Blade.CommandLine.Report
import Blade.Disk.World
import Blade.Log.Install
import Blade.Settings.File
import Blade.Template.Tokenize

/-!
# CommandLine — Run

A run of the program: the options and settings are read, the template is loaded and lexed, and its
tokens are printed.  The first step that fails ends the run with exit code 1 and says why.
-/

namespace Blade

variable [Limits]

/-- What a run leaves behind. -/
structure Outcome where
  exit : Nat
  /-- What was printed. -/
  output : String := ""
  /-- The lines of the error output. -/
  notices : List Report.Notice := []
  deriving DecidableEq, Repr, Inhabited

namespace Outcome

/-- A run that failed and said why last. -/
def failed (notices : List Report.Notice) (why : String) : Outcome :=
  { exit := 1, notices := notices ++ [.line why] }

end Outcome

namespace Options

variable {m : Type → Type} [Monad m]

/-- The settings of a run: those of the settings file or of the environment, with what the command
line says. -/
def settings (world : World m) (env : Environment) (o : Options) :
    m (Except SettingsError Settings) := do
  match o.settingsPath with
  | none => return o.applyTo env.settings
  | some path =>
      let found ← world.lookup path
      return (Settings.ofFile env.settings path found).bind o.applyTo

/-- What is printed for the tokens of a template. -/
def print (o : Options) (stream : TokenStream) (metrics : Metrics) : String :=
  (if o.json then Report.json stream else Report.table stream) ++
    (if o.showMetrics then Report.metrics metrics else "")

/-- Loads and lexes the template, after some notices. -/
def process (world : World m) (o : Options) (settings : Settings)
    (notices : List Report.Notice) (log : Recorder) : m Outcome := do
  let notices (log : Recorder) :=
    notices ++ log.events.toList.map (.event settings.log.structured)
  let start ← world.now
  let found ← world.lookup o.input
  let (loaded, log) := Template.load settings.load o.input found ((← world.now) - start) log
  match loaded with
  | .error e => return .failed (notices log) ("FAILED: " ++ e.message)
  | .ok template =>
      let start ← world.now
      let run := template.lex settings.lexical
      let (lexed, log) := template.conclude run ((← world.now) - start) log
      match lexed with
      | .error e => return .failed (notices log) e.render
      | .ok (stream, metrics) =>
          return { exit := 0, output := o.print stream metrics, notices := notices log }

end Options

namespace CommandLine

variable {m : Type → Type} [Monad m]

/-- The warning for a word that is no option. -/
def warning (word : String) : Report.Notice :=
  .line ("Warning: Unknown option '" ++ word ++ "'")

/-- Runs the program with the words after its name. -/
def run (world : World m) (env : Environment) (words : List String) : m Outcome := do
  match words with
  | [] => return { exit := 1, notices := Report.usage.map .line }
  | "--help" :: _ => return { exit := 0, output := Report.help }
  | words =>
      let (parsed, unknown) := Options.parse words
      let warnings := unknown.map warning
      match parsed with
      | .error e => return .failed warnings ("Error: " ++ e.message)
      | .ok options =>
          match ← options.settings world env with
          | .error e => return .failed warnings ("Error: " ++ e.message)
          | .ok settings =>
              match Recorder.silent.install settings.log with
              | .error message => return .failed warnings ("Error: " ++ Text.quoted message)
              | .ok log => options.process world settings warnings log

end CommandLine
end Blade
