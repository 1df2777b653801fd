import Blade.Json.Value
import Blade.Limits
import Blade.Location.Span
import Blade.Log.Code

/-!
# Log — Event

Log events: a level, perhaps a code, a message, perhaps a span, and context values by key.  An event
is shown as one line of text or as one JSON object.
-/

namespace Blade

/-- How urgent an event is, the most urgent first. -/
inductive Level where
  | error | warning | info | debug
  deriving DecidableEq, Repr, Inhabited

namespace Level

/-- The rank of a level, from 0 for the most urgent. -/
def rank : Level → Nat
  | .error => 0
  | .warning => 1
  | .info => 2
  | .debug => 3

/-- Whether a log that admits levels up to `limit` admits this one. -/
def admittedBy (level limit : Level) : Bool :=
  level.rank ≤ limit.rank

/-- The word that stands for a level in a log line. -/
def label : Level → String
  | .error => "ERROR"
  | .warning => "WARN"
  | .info => "INFO"
  | .debug => "DEBUG"

/-- The name of a level in a settings file. -/
def name : Level → String
  | .error => "error"
  | .warning => "warning"
  | .info => "info"
  | .debug => "debug"

/-- The level with a name in a settings file. -/
def ofName? : String → Option Level
  | "error" => some .error
  | "warning" => some .warning
  | "info" => some .info
  | "debug" => some .debug
  | _ => none

end Level

/-- Context values by key, keys in increasing order. -/
abbrev Context := List (String × String)

/-- The context with `key` set to `value`. -/
def Context.set (key value : String) : Context → Context
  | [] => [(key, value)]
  | (k, v) :: rest =>
      if key < k then (key, value) :: (k, v) :: rest
      else if key = k then (key, value) :: rest
      else (k, v) :: Context.set key value rest

/-- A log event. -/
structure Event where
  level : Level
  code : Option Code
  message : String
  span : Option Span := none
  context : Context := []
  deriving DecidableEq, Repr, Inhabited

namespace Event
variable [Limits]

/-- A message of at most `Limits.logMessage` characters; a longer one is cut there and ends in three
dots. -/
def clamp (message : String) : String :=
  let cs := message.toList
  if (cs.drop Limits.logMessage).isEmpty then message
  else String.ofList (cs.take Limits.logMessage) ++ "..."

/-- An event with a clamped message. -/
def new (level : Level) (code : Option Code) (message : String) : Event :=
  { level, code, message := clamp message }

/-- An error with its code. -/
def error (code : Code) (message : String) : Event :=
  new .error (some code) message

/-- A completed operation with its code. -/
def success (code : Code) (message : String) : Event :=
  new .info (some code) message

/-- A warning. -/
def warning (message : String) : Event :=
  new .warning none message

/-- A note. -/
def info (message : String) : Event :=
  new .info none message

/-- A note for those who follow the program's steps. -/
def debug (message : String) : Event :=
  new .debug none message

/-- The event at a span of the template. -/
def located (e : Event) (span : Span) : Event :=
  { e with span := some span }

/-- The event with one more context value, in place of an earlier one for the same key. -/
def set (e : Event) (key value : String) : Event :=
  { e with context := Context.set key value e.context }

/-- The event with more context values, set from left to right. -/
def setAll (e : Event) (pairs : List (String × String)) : Event :=
  pairs.foldl (fun e (key, value) => e.set key value) e

/-- Whether an event reports an error. -/
def isError (e : Event) : Bool :=
  e.level == .error

/-- Whether an event has a code. -/
def hasCode (e : Event) (code : Code) : Bool :=
  e.code == some code

/-- The registry entry of an event's code. -/
def entry? (e : Event) : Option CodeEntry :=
  e.code.bind Code.entry?

/-- An event as a line: `[LEVEL] CODE message at line:column (key=value, …)`, absent parts left
out. -/
def line (e : Event) : String :=
  "[" ++ e.level.label ++ "]" ++
    (match e.code with
      | some code => " " ++ code
      | none => "") ++
    " " ++ e.message ++
    (match e.span with
      | some span => " at " ++ span.start.display
      | none => "") ++
    (if e.context.isEmpty then ""
      else " (" ++ ", ".intercalate (e.context.map fun (key, value) => key ++ "=" ++ value) ++ ")")

/-- An event as a JSON object whose fields are in increasing order. -/
def toJson (e : Event) (timestamp : String) : Json :=
  let entry := e.entry?
  let field (name : String) (value : Option Json) : List (String × Json) :=
    match value with
    | some value => [(name, value)]
    | none => []
  .obj <|
    field "category" (entry.map fun m => .str m.category) ++
    field "code" (e.code.map .str) ++
    field "context"
      (if e.context.isEmpty then none
        else some (.obj (e.context.map fun (key, value) => (key, .str value)))) ++
    [("level", .str e.level.label), ("message", .str e.message)] ++
    field "recoverable" (if e.isError then entry.map fun m => .bool m.recoverable else none) ++
    field "severity" (entry.map fun m => .str m.severity.name) ++
    field "span" (e.span.map fun s =>
      .obj [("column", .nat s.start.column), ("end", .nat s.stop.offset),
        ("line", .nat s.start.line), ("start", .nat s.start.offset)]) ++
    [("timestamp", .str timestamp)]

end Event
end Blade
