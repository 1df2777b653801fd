import Blade.Json.Render
import Blade.Log.Event
import Blade.Metrics
import Blade.Text.Quoted
import Blade.Token.Json
import Blade.Token.Printer
import Blade.Token.Stream

/-!
# CommandLine — Report

What the program prints: its help, tokens as a table or as JSON, and metrics.
-/

namespace Blade.Report

/-- The name of the program. -/
def program : String := "blade-lex"

/-- The version of the program. -/
def version : String := "0.1.0"

/-- Lines, each with its line end. -/
def ofLines (lines : List String) : String :=
  lines.foldl (fun out line => out ++ line ++ "\n") ""

/-- What is said to someone who gives no arguments. -/
def usage : List String :=
  ["Usage: " ++ program ++ " <template> [options]",
    "       " ++ program ++ " --help"]

/-- The help text. -/
def help : String :=
  ofLines
    ["Blade template lexer v" ++ version,
      "",
      "USAGE:",
      "    " ++ program ++ " <template> [options]",
      "",
      "OPTIONS:",
      "    --help              Show this help message",
      "    --json              Print tokens as JSON",
      "    --strict            Reject unterminated comments, echoes, argument lists and raw blocks",
      "    --raw a,b,...       Directives whose bodies are raw (default: js,verbatim)",
      "    --config FILE       Load runtime preferences from a TOML file",
      "    --metrics           Print token statistics after the tokens",
      "",
      "EXAMPLES:",
      "    " ++ program ++ " resources/views/app.blade.html",
      "    " ++ program ++ " page.blade --json --raw verbatim,js,markdown"]

/-! ### Tokens -/

/-- A text with blanks after it up to a width in characters. -/
def padTo (width : Nat) (s : String) : String :=
  s.pushn ' ' (width - s.length)

/-- A row of the token table. -/
def row (position kind token : String) : String :=
  padTo 10 position ++ " " ++ padTo 13 kind ++ " " ++ token

/-- The row of a token. -/
def tokenRow (t : LocatedToken) : String :=
  row t.span.start.display t.value.kind.name (Text.quoted t.value.display)

/-- Tokens as a table, comments included. -/
def table (stream : TokenStream) : String :=
  ofLines (row "POSITION" "KIND" "TOKEN" :: stream.tokens.toList.map tokenRow)

/-- Tokens as JSON, comments included. -/
def json (stream : TokenStream) : String :=
  (Json.arr (stream.tokens.toList.map LocatedToken.toJson)).pretty ++ "\n"

/-- Metrics, after an empty line. -/
def metrics (m : Metrics) : String :=
  ofLines
    ["",
      "Tokens: " ++ toString m.total,
      "  text: " ++ toString m.text,
      "  data: " ++ toString m.data ++ " (" ++ toString m.filters ++ " filters)",
      "  comments: " ++ toString m.comments,
      "  functions: " ++ toString m.functions,
      "  raw functions: " ++ toString m.rawFunctions,
      "Max bracket depth: " ++ toString m.maxBracketDepth,
      "Longest raw block: " ++ toString m.longestRawBlock ++ " chars"]

/-! ### Notices -/

/-- A line of the error output, or an event that becomes one. -/
inductive Notice where
  | line (text : String)
  /-- An event, written as JSON when `structured`. -/
  | event (structured : Bool) (e : Event)
  deriving DecidableEq, Repr, Inhabited

/-- The text of a notice. -/
def Notice.text (timestamp : String) : Notice → String
  | .line text => text
  | .event true e => (e.toJson timestamp).compact
  | .event false e => e.line

end Blade.Report
