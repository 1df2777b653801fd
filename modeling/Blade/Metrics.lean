import Blade.Token.Basic

/-!
# Metrics

What lexing a template adds up to: tokens of each kind, filters, the deepest bracket nesting of an
argument list and the longest raw block.
-/

namespace Blade

/-- Token counts and shape figures. -/
structure Metrics where
  total : Nat := 0
  text : Nat := 0
  data : Nat := 0
  comments : Nat := 0
  functions : Nat := 0
  rawFunctions : Nat := 0
  filters : Nat := 0
  maxBracketDepth : Nat := 0
  /-- The length in characters of the longest raw block. -/
  longestRawBlock : Nat := 0
  deriving DecidableEq, Repr, Inhabited

namespace Metrics

/-- Counts a token under its kind. -/
def countKind (m : Metrics) : Token → Metrics
  | .text _ => { m with text := m.text + 1 }
  | .comment _ => { m with comments := m.comments + 1 }
  | .data _ _ filters =>
      { m with data := m.data + 1, filters := m.filters + (filters.getD []).length }
  | .function .. => { m with functions := m.functions + 1 }
  | .rawFunction _ _ content =>
      { m with
        rawFunctions := m.rawFunctions + 1
        longestRawBlock := max m.longestRawBlock content.length }
  | .eof => m

/-- Counts a token, under its kind only when `detailed`. -/
def count (m : Metrics) (detailed : Bool) (token : Token) : Metrics :=
  let m := { m with total := m.total + 1 }
  if detailed then m.countKind token else m

/-- Takes note of the bracket nesting of an argument list. -/
def noteDepth (m : Metrics) (depth : Nat) : Metrics :=
  { m with maxBracketDepth := max m.maxBracketDepth depth }

end Metrics
end Blade
