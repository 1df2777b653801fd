import Blade.Token.Basic

/-!
# Token — Printer

Tokens written as template source.  The filters of an expression are joined by ` | `, arguments by
`, `, and an expression stands one blank away from its braces.
-/

namespace Blade.Token

/-- An argument list in parentheses, or nothing. -/
def printArgs : Option (List String) → String
  | some args => "(" ++ ", ".intercalate args ++ ")"
  | none => ""

/-- The inside of an output expression. -/
def printExpression (value : String) (filters : Option (List Filter)) : String :=
  (filters.getD []).foldl (fun out f => out ++ " | " ++ f.display) value

/-- The source that a token stands for. -/
def print : Token → String
  | .comment value => "\x7b\x7b--" ++ value ++ "--\x7d\x7d"
  | .text value => value
  | .data true value filters => "\x7b\x7b " ++ printExpression value filters ++ " \x7d\x7d"
  | .data false value filters => "\x7b!! " ++ printExpression value filters ++ " !!\x7d"
  | .function name args => "@" ++ name ++ printArgs args
  | .rawFunction name args content =>
      "@" ++ name ++ printArgs args ++ content ++ "@end" ++ name
  | .eof => ""

/-- How a token is shown: its source, and `<EOF>` for the end of input. -/
def display : Token → String
  | .eof => "<EOF>"
  | token => token.print

/-- The source that a list of tokens stands for. -/
def printAll (tokens : List Token) : String :=
  tokens.foldl (fun out token => out ++ token.print) ""

end Blade.Token
