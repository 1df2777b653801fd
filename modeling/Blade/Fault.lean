import Blade.Location.Lines
import Blade.Log.Event
import Blade.Text.Quoted

/-!
# Fault

What can be wrong with a template: a bracket that does not match, a construct still open at the end
of input, brackets nested too deep, too many tokens.  A fault is reported with its span and the text
it occurred in.
-/

namespace Blade

/-- A construct that can be open at the end of input. -/
inductive Construct where
  | comment
  | escapedData
  | unescapedData
  | argumentList
  | rawBlock (name : String)
  deriving DecidableEq, Repr, Inhabited

/-- How a construct is named in a message, with what would close it. -/
def Construct.describe : Construct → String
  | .comment => "comment, expected '--\x7d\x7d'"
  | .escapedData => "echo, expected '\x7d\x7d'"
  | .unescapedData => "raw echo, expected '!!\x7d'"
  | .argumentList => "argument list, expected ')'"
  | .rawBlock name => "@" ++ name ++ " block, expected '@end" ++ name ++ "'"

/-- The cause of a failure. -/
inductive Fault where
  | bracketMismatch (expected found : Char)
  | unterminatedBlock (construct : Construct)
  | nestingTooDeep (depth max : Nat)
  | tooManyTokens (count max : Nat)
  deriving DecidableEq, Repr, Inhabited

namespace Fault

/-- The message of a fault. -/
def message : Fault → String
  | .bracketMismatch expected found =>
      "expected " ++ Text.quotedChar expected ++ ", got " ++ Text.quotedChar found
  | .unterminatedBlock construct => "unterminated " ++ construct.describe
  | .nestingTooDeep depth max =>
      "brackets nested too deep: " ++ toString depth ++ " (max " ++ toString max ++ ")"
  | .tooManyTokens count max =>
      "too many tokens: " ++ toString count ++ " (max " ++ toString max ++ ")"

/-- The code of a fault. -/
def code : Fault → Code
  | .bracketMismatch .. => Code.bracketMismatch
  | .unterminatedBlock .. => Code.unterminatedBlock
  | .nestingTooDeep .. => Code.nestingTooDeep
  | .tooManyTokens .. => Code.tooManyTokens

end Fault

/-- A fault with its place and the text it occurred in. -/
structure LexError where
  fault : Fault
  span : Span
  source : String
  deriving DecidableEq, Repr, Inhabited

namespace LexError

/-- The message of the fault. -/
def message (e : LexError) : String :=
  e.fault.message

/-- The code of the fault. -/
def code (e : LexError) : Code :=
  e.fault.code

/-- The message and the position at which the span starts. -/
def display (e : LexError) : String :=
  e.message ++ " at " ++ e.span.start.display

/-- The message over the underlined line. -/
def render (e : LexError) : String :=
  (Lines.ofSource e.source).diagnostic e.span e.message

/-- The log event that reports the error. -/
def event [Limits] (e : LexError) : Event :=
  ((Event.error e.code e.message).located e.span).set "position" e.span.start.display

end LexError
end Blade
