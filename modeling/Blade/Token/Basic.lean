import Blade.Location.Span

/-!
# Token — Basic

The tokens of a template: literal text, comments, output expressions with their filters, directives,
raw blocks and the end of input.
-/

namespace Blade

/-- One `| name:arg, arg` segment of an output expression. -/
structure Filter where
  name : String
  args : List String
  deriving DecidableEq, Repr, Inhabited

/-- How a filter stands in an expression: `name`, or `name:arg, arg`. -/
def Filter.display (f : Filter) : String :=
  if f.args.isEmpty then f.name else f.name ++ ":" ++ ", ".intercalate f.args

/-- The smallest unit of a template. -/
inductive Token where
  /-- The text between `{{--` and `--}}`. -/
  | comment (value : String)
  /-- Literal output. -/
  | text (value : String)
  /-- An output expression, `{{ … }}` when escaped and `{!! … !!}` otherwise. -/
  | data (escaped : Bool) (value : String) (filters : Option (List Filter))
  /-- `@name` or `@name(args)`. -/
  | function (name : String) (args : Option (List String))
  /-- The body of a raw directive up to its `@endname`. -/
  | rawFunction (name : String) (args : Option (List String)) (content : String)
  /-- The end of input. -/
  | eof
  deriving DecidableEq, Repr, Inhabited

/-- What sort of token a token is. -/
inductive TokenKind where
  | comment | text | data | function | rawFunction | eof
  deriving DecidableEq, Repr, Inhabited

/-- The name of a kind. -/
def TokenKind.name : TokenKind → String
  | .comment => "comment"
  | .text => "text"
  | .data => "data"
  | .function => "function"
  | .rawFunction => "raw-function"
  | .eof => "eof"

/-- The kind with a name. -/
def TokenKind.ofName? : String → Option TokenKind
  | "comment" => some .comment
  | "text" => some .text
  | "data" => some .data
  | "function" => some .function
  | "raw-function" => some .rawFunction
  | "eof" => some .eof
  | _ => none

namespace Token

/-- The kind of a token. -/
def kind : Token → TokenKind
  | .comment _ => .comment
  | .text _ => .text
  | .data .. => .data
  | .function .. => .function
  | .rawFunction .. => .rawFunction
  | .eof => .eof

/-- Whether a token is the end of input. -/
def isEof : Token → Bool
  | .eof => true
  | _ => false

/-- Whether a token means something to a reader of the stream: all do but comments. -/
def isSignificant : Token → Bool
  | .comment _ => false
  | _ => true

/-- The name of a directive or raw block. -/
def name? : Token → Option String
  | .function name _ => some name
  | .rawFunction name _ _ => some name
  | _ => none

/-- The argument list of a directive or raw block. -/
def args? : Token → Option (List String)
  | .function _ args => args
  | .rawFunction _ args _ => args
  | _ => none

end Token

/-- A token and where it was read. -/
abbrev LocatedToken := Located Token

end Blade
