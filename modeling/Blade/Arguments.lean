import Blade.Cursor
import Blade.Fault
import Blade.Limits
import Blade.Nesting
import Blade.Text.Blank

/-!
# Arguments

The argument list of a directive, read from just past its opening parenthesis.  Commas separate
arguments outside all strings and inner brackets; a closing bracket must close the innermost open
one.  Arguments are trimmed, and a blank one is dropped at the end of the list only.
-/

namespace Blade

variable [Limits]

/-- The bracket that closes an opening one. -/
def closer? : Char → Option Char
  | '(' => some ')'
  | '[' => some ']'
  | '{' => some '}'
  | _ => none

/-- Whether a character is a closing bracket. -/
def isCloser (c : Char) : Bool :=
  c == ')' || c == ']' || c == '}'

/-- An argument list that has been read. -/
structure ArgumentList where
  args : List String
  /-- The most brackets open at once, the list's own parenthesis included. -/
  maxDepth : Nat
  /-- Whether the list was closed before the input ended. -/
  terminated : Bool
  deriving DecidableEq, Repr, Inhabited

/-- An argument list being read. -/
structure ArgumentScan where
  /-- The arguments before the current one. -/
  args : Array String := #[]
  /-- What has been read of the current argument. -/
  current : String := ""
  /-- The closing brackets that the open inner brackets wait for, innermost first. -/
  pending : List Char := []
  maxDepth : Nat := 1
  /-- The string the scan stands in. -/
  string : Option QuotedString := none
  deriving Repr, Inhabited

namespace ArgumentScan

/-- What reading one character does to a scan. -/
inductive Outcome where
  | more (scan : ArgumentScan)
  | closed (scan : ArgumentScan)
  | failed (fault : Fault)
  deriving Repr, Inhabited

/-- The number of open brackets, the list's own parenthesis included. -/
def depth (s : ArgumentScan) : Nat :=
  s.pending.length + 1

/-- The scan with one more character in the current argument. -/
def push (s : ArgumentScan) (c : Char) : ArgumentScan :=
  { s with current := s.current.push c }

/-- Reads an opening bracket that `closer` closes. -/
def openBracket (s : ArgumentScan) (c closer : Char) : Outcome :=
  let depth := s.depth + 1
  if Limits.bracketDepth < depth then .failed (.nestingTooDeep depth Limits.bracketDepth)
  else
    match s with
    | ⟨args, current, pending, maxDepth, string⟩ =>
        .more ⟨args, current.push c, closer :: pending, max maxDepth depth, string⟩

/-- Reads a closing bracket. -/
def closeBracket (s : ArgumentScan) (c : Char) : Outcome :=
  match s.pending with
  | [] => if c = ')' then .closed s else .failed (.bracketMismatch ')' c)
  | expected :: pending =>
      if c = expected then .more { s.push c with pending }
      else .failed (.bracketMismatch expected c)

/-- Reads one character. -/
def feed (s : ArgumentScan) (c : Char) : Outcome :=
  match s.string with
  | some string => .more { s.push c with string := string.feed c }
  | none =>
      if isQuote c then .more { s.push c with string := some (.opened c) }
      else
        match closer? c with
        | some closer => s.openBracket c closer
        | none =>
            if isCloser c then s.closeBracket c
            else if c = ',' ∧ s.pending = [] then
              .more { s with args := s.args.push (Text.trim s.current), current := "" }
            else .more (s.push c)

/-- The list read so far, with the current argument as its last one unless that is blank. -/
def finish (s : ArgumentScan) (terminated : Bool) : ArgumentList :=
  let last := Text.trim s.current
  { args := (if last.isEmpty then s.args else s.args.push last).toList
    maxDepth := s.maxDepth
    terminated }

/-- Reads characters until the list is closed, a bracket is wrong or the input ends.  A wrong
bracket is read, and reported where it stands. -/
def run (s : ArgumentScan) (source : String) (p : Position) :
    List Char → Except LexError ArgumentList × Cursor
  | [] => (.ok (s.finish false), ⟨source, [], p⟩)
  | c :: cs =>
      match s.feed c with
      | .more s => run s source (p.advance c) cs
      | .closed s => (.ok (s.finish true), ⟨source, cs, p.advance c⟩)
      | .failed fault => (.error ⟨fault, .point p, source⟩, ⟨source, cs, p.advance c⟩)

end ArgumentScan

/-- Reads an argument list from just past its opening parenthesis. -/
def Cursor.arguments (c : Cursor) : Except LexError ArgumentList × Cursor :=
  ArgumentScan.run {} c.source c.position c.rest

theorem ArgumentScan.length_rest_run (s : ArgumentScan) (source : String) (p : Position)
    (cs : List Char) : (s.run source p cs).2.rest.length ≤ cs.length := by
  induction cs generalizing s p with
  | nil => simp [run]
  | cons c cs ih =>
      rw [run]
      split
      · exact Nat.le_succ_of_le (ih _ _)
      · simp
      · simp

theorem Cursor.length_rest_arguments (c : Cursor) :
    c.arguments.2.rest.length ≤ c.rest.length :=
  ArgumentScan.length_rest_run {} c.source c.position c.rest

end Blade
