/-!
# Nesting

Quotes and brackets in an expression.  A quoted string runs from one of `'`, `"` and the backquote
to the next one of the same that no backslash precedes; outside strings, brackets nest, whatever
their shape.  A text is cut at the separators that stand outside all strings and brackets; the pieces
are slices of it (`Blade.slices_topRanges`, `Blade.slices_barRanges`).
-/

namespace Blade

/-- Whether a character opens, and closes, a quoted string. -/
def isQuote (c : Char) : Bool :=
  c == '\'' || c == '"' || c == '\x60'

/-- A quoted string being read: its quote, and whether a backslash precedes the next character. -/
structure QuotedString where
  quote : Char
  escaped : Bool
  deriving DecidableEq, Repr

namespace QuotedString

/-- The string that `quote` opens. -/
def opened (quote : Char) : QuotedString := ⟨quote, false⟩

/-- Reads one character; `none` once the string is closed. -/
def feed (s : QuotedString) (c : Char) : Option QuotedString :=
  if c = s.quote ∧ s.escaped = false then none
  else some ⟨s.quote, c == '\\' && !s.escaped⟩

end QuotedString

/-- Where a walk over an expression stands: in which string, and in how many brackets. -/
structure Nesting where
  string : Option QuotedString := none
  depth : Nat := 0
  deriving DecidableEq, Repr, Inhabited

namespace Nesting

/-- Reads one character.  A closing bracket outside all brackets has no effect. -/
def feed (n : Nesting) (c : Char) : Nesting :=
  match n.string with
  | some s => { n with string := s.feed c }
  | none =>
      if isQuote c then { n with string := some (.opened c) }
      else if c = '(' ∨ c = '[' ∨ c = '{' then { n with depth := n.depth + 1 }
      else if c = ')' ∨ c = ']' ∨ c = '}' then { n with depth := n.depth - 1 }
      else n

/-- Whether the next character stands outside all strings and brackets, given that it is itself no
quote and no bracket. -/
def isOutside (n : Nesting) : Bool :=
  n.string.isNone && n.depth == 0

/-- Whether a character is a quote or a bracket. -/
def isDelimiter (c : Char) : Bool :=
  isQuote c || c == '(' || c == '[' || c == '{' || c == ')' || c == ']' || c == '}'

/-- Whether `c`, read next, stands at the top level: outside all strings and brackets, and being no
quote or bracket itself. -/
def atTop (n : Nesting) (c : Char) : Bool :=
  n.isOutside && !isDelimiter c

end Nesting

/-- The pieces of `cs` between the top-level occurrences of `sep`, from where the walk stands: after
the pieces `done`, last one first, and the part `piece` of the next one, last character first. -/
def splitTopFrom (sep : Char) (n : Nesting) (done : List (List Char)) (piece : List Char) :
    List Char → List (List Char)
  | [] => (piece.reverse :: done).reverse
  | c :: cs =>
      if n.atTop c && c == sep then splitTopFrom sep (n.feed c) (piece.reverse :: done) [] cs
      else splitTopFrom sep (n.feed c) done (c :: piece) cs

/-- The pieces of `cs` between the occurrences of `sep` outside all strings and brackets. -/
def splitTop (sep : Char) (cs : List Char) : List (List Char) :=
  splitTopFrom sep {} [] [] cs

/-- The pieces of an expression between its single top-level bars, from where the walk stands.  Two
bars in a row are no separator, and the second one is not walked. -/
def splitBarsFrom (n : Nesting) (done : List (List Char)) (piece : List Char) :
    List Char → List (List Char)
  | [] => (piece.reverse :: done).reverse
  | [c] =>
      if n.atTop c && c == '|' then ([] :: piece.reverse :: done).reverse
      else ((c :: piece).reverse :: done).reverse
  | c :: d :: cs =>
      if n.atTop c && c == '|' then
        if d = '|' then splitBarsFrom (n.feed c) done (d :: c :: piece) cs
        else splitBarsFrom (n.feed c) (piece.reverse :: done) [] (d :: cs)
      else splitBarsFrom (n.feed c) done (c :: piece) (d :: cs)

/-- The pieces of an expression between its single bars outside all strings and brackets. -/
def splitBars (cs : List Char) : List (List Char) :=
  splitBarsFrom {} [] [] cs

end Blade
