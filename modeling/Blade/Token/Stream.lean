import Blade.Location.Lines
import Blade.Token.Basic

/-!
# Token — Stream

A list of tokens read from front to back.  All tokens stay in the stream, with their spans; reading
visits the significant ones only, so a reader never sees a comment.
-/

namespace Blade

/-- Why a token that was asked for is not there. -/
inductive StreamError where
  | unexpectedToken (expected found : TokenKind) (span : Span)
  | unexpectedEnd (expected : TokenKind)
  deriving DecidableEq, Repr, Inhabited

/-- The message of a stream error. -/
def StreamError.message : StreamError → String
  | .unexpectedToken expected found span =>
      "Expected " ++ expected.name ++ ", found " ++ found.name ++ " at " ++ span.display
  | .unexpectedEnd expected => "Expected " ++ expected.name ++ ", but reached end of input"

/-- Tokens with a reading position among the significant ones. -/
structure TokenStream where
  /-- Every token, comments included. -/
  tokens : Array LocatedToken
  /-- Where the tokens to visit stand among all tokens. -/
  significant : Array Nat
  /-- How many of the tokens to visit have been passed. -/
  position : UInt64
  /-- The line table of the source, for diagnostics. -/
  lines : Option Lines
  deriving Repr, Inhabited

namespace TokenStream

/-- Where the significant ones of some tokens stand. -/
def significantIndices (tokens : Array LocatedToken) : Array Nat :=
  (tokens.zipIdx.filter fun (token, _) => token.value.isSignificant).map (·.2)

/-- The stream of a list of tokens, at its start. -/
def ofTokens (tokens : Array LocatedToken) (lines : Option Lines) : TokenStream :=
  ⟨tokens, significantIndices tokens, 0, lines⟩

/-- The tokens to visit. -/
def visible (s : TokenStream) : Array LocatedToken :=
  s.significant.filterMap fun i => s.tokens[i]?

/-- The token `n` places on.  The sum of places is a machine word: it wraps around. -/
def peekAhead (s : TokenStream) (n : UInt64) : Option LocatedToken :=
  match s.significant[(s.position + n).toNat]? with
  | some i => s.tokens[i]?
  | none => none

/-- The current token. -/
def current (s : TokenStream) : Option LocatedToken :=
  s.peekAhead 0

/-- The token after the current one. -/
def peek (s : TokenStream) : Option LocatedToken :=
  s.peekAhead 1

/-- The number of tokens to visit. -/
def size (s : TokenStream) : Nat :=
  s.significant.size

/-- The number of tokens still to visit. -/
def remaining (s : TokenStream) : Nat :=
  s.size - s.position.toNat

/-- Whether all tokens have been passed. -/
def isAtEnd (s : TokenStream) : Bool :=
  s.size ≤ s.position.toNat

/-- Passes the current token, if there is one, and shows the one after it. -/
def advance (s : TokenStream) : Option LocatedToken × TokenStream :=
  let passed := if s.position.toNat < s.size then { s with position := s.position + 1 } else s
  (passed.current, passed)

/-- Whether the current token is of a kind. -/
def checkKind (s : TokenStream) (kind : TokenKind) : Bool :=
  match s.current with
  | some token => token.value.kind == kind
  | none => false

/-- Passes the current token and returns it, if `accept` holds of it. -/
def consumeIf (s : TokenStream) (accept : Token → Bool) : Option LocatedToken × TokenStream :=
  match s.current with
  | some token => if accept token.value then (some token, s.advance.2) else (none, s)
  | none => (none, s)

/-- Passes the current token and returns it, if it is of a kind. -/
def expectKind (s : TokenStream) (kind : TokenKind) :
    Except StreamError LocatedToken × TokenStream :=
  match s.current with
  | some token =>
      if token.value.kind = kind then (.ok token, s.advance.2)
      else (.error (.unexpectedToken kind token.value.kind token.span), s)
  | none => (.error (.unexpectedEnd kind), s)

/-- Whether the last token is the end of input. -/
def hasEof (s : TokenStream) : Bool :=
  match s.tokens.back? with
  | some token => token.value.isEof
  | none => false

/-- A message about a span, over the underlined line when the source is known. -/
def diagnostic (s : TokenStream) (span : Span) (message : String) : String :=
  match s.lines with
  | some lines => lines.diagnostic span message
  | none => "Error at " ++ span.display ++ ": " ++ message

/-- The source text of a span, when the source is known. -/
def sourceText (s : TokenStream) (span : Span) : Option String :=
  s.lines.map fun lines => span.slice lines.source

end TokenStream

/-- The first token end that the next token does not start at, with where that one starts. -/
def firstGap? : List LocatedToken → Option (Position × Position)
  | a :: b :: rest =>
      if a.span.stop = b.span.start then firstGap? (b :: rest)
      else some (a.span.stop, b.span.start)
  | _ => none

/-- What a gap between two tokens is reported as. -/
def gapMessage (stop start : Position) : String :=
  "Span gap: token ending at " ++ stop.display ++ " is followed by token starting at " ++
    start.display

end Blade
