import Blade.Location.Bytes
import Blade.Location.Span

/-!
# Location — Lines

The line table of a source: the byte offset at which each line starts.  It finds the position of an
offset and the text of a line without walking the source from its start, and draws the line a span
starts on with the span underlined.
-/

namespace Blade

/-- A source with the byte offsets of its line starts, in increasing order. -/
structure Lines where
  source : String
  starts : Array Nat
  deriving Repr, Inhabited

namespace Lines

/-- The starts of the lines of `cs`, which begins at byte `offset`, after those in `starts`. -/
def startsFrom (starts : Array Nat) (offset : Nat) : List Char → Array Nat
  | [] => starts
  | c :: cs =>
      if c = '\n' then startsFrom (starts.push (offset + 1)) (offset + 1) cs
      else startsFrom starts (offset + c.utf8Size) cs

/-- The line table of a source; the first line starts at 0. -/
def ofSource (source : String) : Lines :=
  ⟨source, startsFrom #[0] 0 source.toList⟩

/-- Looks for an offset between the indices `lo` and `hi` of a table, halving what is left: the index
where it is, or else the one where it would go in. -/
def search (starts : Array Nat) (offset lo hi : Nat) (h : hi ≤ starts.size) : Except Nat Nat :=
  if hlt : lo < hi then
    let middle := lo + (hi - lo) / 2
    match compare starts[middle] offset with
    | .lt => search starts offset (middle + 1) hi h
    | .eq => .ok middle
    | .gt => search starts offset lo middle (by omega)
  else .error lo
termination_by hi - lo

/-- The index of the line that holds a byte offset: the line that starts there, or else the one
before the first line that starts later. -/
def lineIndex (t : Lines) (offset : Nat) : Nat :=
  match search t.starts offset 0 t.starts.size (Nat.le_refl _) with
  | .ok i => i
  | .error i => i - 1

/-- The text from byte `a` up to byte `b`. -/
def text? (t : Lines) (a b : Nat) : Option (List Char) :=
  sliceBytes a b t.source.toList

/-- The position of a byte offset.  An offset past the end stands for the end, and one inside a
character for the first column of its line. -/
def positionAt (t : Lines) (offset : Nat) : Position :=
  let offset := min offset t.source.utf8ByteSize
  let line := t.lineIndex offset
  let before := ((t.text? (t.starts.getD line 0) offset).getD []).length
  ⟨offset, line + 1, before + 1⟩

/-- The text of the line with a number, counted from 1, without its newline and the carriage returns
before it. -/
def line? (t : Lines) (number : Nat) : Option (List Char) :=
  match number with
  | 0 => none
  | i + 1 => do
      let first ← t.starts[i]?
      let last := match t.starts[i + 1]? with
        | some next => next - 1
        | none => t.source.utf8ByteSize
      let line ← t.text? first last
      return (line.reverse.dropWhile (· == '\r')).reverse

/-- `n` copies of a character. -/
def copies (n : Nat) (c : Char) : String :=
  "".pushn c n

/-- How many characters of `line` are underlined for a span that starts on it: at least one, and up
to the end of the line when the span goes on past it. -/
def underlined (span : Span) (line : List Char) : Nat :=
  let covered :=
    if span.start.line = span.stop.line then span.stop.column - span.start.column
    else line.length - (span.start.column - 1)
  max covered 1

/-- A message with the line its span starts on, the span underlined. -/
def diagnostic (t : Lines) (span : Span) (message : String) : String :=
  let head := "error: " ++ message ++ "\n  --> " ++ span.start.display ++ "\n"
  match t.line? span.start.line with
  | none => head
  | some line =>
      let number := toString span.start.line
      let margin := copies number.length ' '
      head ++ margin ++ " |\n" ++ number ++ " | " ++ String.ofList line ++ "\n" ++
        margin ++ " | " ++ copies (span.start.column - 1) ' ' ++
        copies (underlined span line) '^' ++ "\n"

end Lines
end Blade
