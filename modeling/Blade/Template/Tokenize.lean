import Blade.Lexer.Pull
import Blade.Log.Recorder
import Blade.Template.Load
import Blade.Token.Stream

/-!
# Template — Tokenize

Lexing a template that has been loaded.  What is logged meanwhile is marked with the template's
path.
-/

namespace Blade.Template

variable [Limits]

/-- What lexing a template comes to: its tokens or an error, and the lexer afterwards. -/
abbrev LexRun := Except LexError (Array LocatedToken) × Lexer

/-- Lexes a template. -/
def lex (t : Template) (preferences : Preferences) : LexRun :=
  (Lexer.ofSource t.source preferences).collect

/-- The event before lexing. -/
def lexStarted (t : Template) (preferences : Preferences) : Event :=
  (Event.debug "Starting lexical analysis").setAll
    [("file", t.path), ("chars", toString t.charCount), ("lines", toString t.lineCount),
      ("strict", showFlag preferences.strict)]

/-- The event after lexing, which took `elapsed` nanoseconds. -/
def lexFinished (t : Template) (m : Metrics) (elapsed : Nat) : Event :=
  (Event.success Code.tokenizationComplete "Tokenization complete").setAll
    [("duration_ms", Text.thousandths (Text.roundEven elapsed 1000)), ("file", t.path),
      ("tokens", toString m.total), ("text", toString m.text), ("data", toString m.data),
      ("comments", toString m.comments), ("functions", toString m.functions),
      ("raw_functions", toString m.rawFunctions), ("filters", toString m.filters),
      ("max_bracket_depth", toString m.maxBracketDepth),
      ("longest_raw_block", toString m.longestRawBlock)]

/-- The events of a run, which took `elapsed` nanoseconds: the lexer's own between one before and,
if the run succeeds, one after. -/
def runEvents (t : Template) (run : LexRun) (elapsed : Nat) : List Event :=
  let (result, lexer) := run
  t.lexStarted lexer.preferences :: lexer.journal.toList ++
    match result with
    | .ok _ => [t.lexFinished lexer.metrics elapsed]
    | .error _ => []

/-- The token stream and the metrics of a run, or its error. -/
def streamOf (t : Template) (run : LexRun) : Except LexError (TokenStream × Metrics) :=
  let (result, lexer) := run
  result.map fun tokens => (.ofTokens tokens (some (Lines.ofSource t.source)), lexer.metrics)

/-- Logs a run on a template, which took `elapsed` nanoseconds, and gives its outcome. -/
def conclude (t : Template) (run : LexRun) (elapsed : Nat) (log : Recorder) :
    Except LexError (TokenStream × Metrics) × Recorder :=
  log.within t.path fun log => (t.streamOf run, log.emitAll (t.runEvents run elapsed))

/-- Lexes a template, which took `elapsed` nanoseconds. -/
def tokenize (t : Template) (preferences : Preferences) (elapsed : Nat) (log : Recorder) :
    Except LexError (TokenStream × Metrics) × Recorder :=
  t.conclude (t.lex preferences) elapsed log

end Blade.Template
