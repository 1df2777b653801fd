import Blade.Cursor
import Blade.Fault
import Blade.Metrics
import Blade.Preferences

/-!
# Lexer — State

The state of a lexer between two tokens, and how tokens leave it.  Literal text is held back until
the next other token is known; every token starts where the last one ended.
-/

namespace Blade

/-- A raw block that is open. -/
structure RawBlock where
  name : String
  args : Option (List String)
  /-- Where its `@` stands. -/
  openedAt : Position
  deriving DecidableEq, Repr, Inhabited

/-- Whether the lexer reads template source or the body of a raw block. -/
inductive Mode where
  | template
  | raw (block : RawBlock)
  deriving DecidableEq, Repr, Inhabited

/-- A lexer over one source. -/
structure Lexer where
  preferences : Preferences
  cursor : Cursor
  mode : Mode := .template
  /-- Literal text not yet emitted. -/
  text : String := ""
  /-- Where the last emitted token ended. -/
  lastFlush : Position := .start
  /-- Tokens emitted but not yet taken, first one first. -/
  queue : List LocatedToken := []
  /-- A token looked at but not yet taken. -/
  peeked : Option LocatedToken := none
  /-- Where the input ended, once it has. -/
  finished : Option Position := none
  /-- The error that stopped the lexer. -/
  error : Option LexError := none
  metrics : Metrics := {}
  /-- The events logged so far. -/
  journal : Array Event := #[]
  deriving Repr, Inhabited

namespace Lexer

/-- A lexer at the start of `source`. -/
def ofSource (source : String) (preferences : Preferences) : Lexer :=
  { preferences, cursor := .ofSource source }

/-- The text being lexed. -/
def source (l : Lexer) : String :=
  l.cursor.source

/-- Whether a raw block is open. -/
def inRaw (l : Lexer) : Bool :=
  match l.mode with
  | .raw _ => true
  | .template => false

/-- Queues a token that covers what lies between the last one and `stop`. -/
def emitTo (l : Lexer) (stop : Position) (token : Token) : Lexer :=
  { l with
    queue := l.queue ++ [⟨token, ⟨l.lastFlush, stop⟩⟩]
    lastFlush := stop
    metrics := l.metrics.count l.preferences.detailedMetrics token }

/-- Queues a token that ends at the cursor. -/
def emit (l : Lexer) (token : Token) : Lexer :=
  l.emitTo l.cursor.position token

/-- Queues the text held back, if there is any, as a token that ends at `stop`. -/
def flushText (l : Lexer) (stop : Position) : Lexer :=
  if l.text.isEmpty then l else { l.emitTo stop (.text l.text) with text := "" }

/-- Stops on an error and logs it. -/
def fail [Limits] (l : Lexer) (e : LexError) : Lexer :=
  { l with error := some e, journal := l.journal.push e.event }

section Fields
variable (l : Lexer) (stop : Position) (token : Token) (e : LexError)

@[simp] theorem cursor_emitTo : (l.emitTo stop token).cursor = l.cursor := rfl

@[simp] theorem cursor_emit : (l.emit token).cursor = l.cursor := rfl

@[simp] theorem cursor_flushText : (l.flushText stop).cursor = l.cursor := by
  unfold flushText; split <;> rfl

@[simp] theorem cursor_fail [Limits] : (l.fail e).cursor = l.cursor := rfl

@[simp] theorem finished_emitTo : (l.emitTo stop token).finished = l.finished := rfl

@[simp] theorem finished_emit : (l.emit token).finished = l.finished := rfl

@[simp] theorem finished_flushText : (l.flushText stop).finished = l.finished := by
  unfold flushText; split <;> rfl

variable [Limits]

@[simp] theorem finished_fail : (l.fail e).finished = l.finished := rfl

@[simp] theorem error_fail : (l.fail e).error = some e := rfl

end Fields

end Lexer
end Blade
