/-!
# Location — Position

A position in a source: its byte offset from 0, its line from 1 and its column in characters from 1.
Only a newline ends a line.  Positions are ordered by offset, then line, then column.  They are
numbers here, of any size; `Blade.WordPosition` has them in machine words.
-/

namespace Blade

/-- A place between two characters of a source. -/
structure Position where
  offset : Nat
  line : Nat
  column : Nat
  deriving DecidableEq, Repr, Inhabited

namespace Position

/-- The place before the first character. -/
def start : Position := ⟨0, 1, 1⟩

/-- The place just past `c`. -/
def advance (p : Position) (c : Char) : Position :=
  if c = '\n' then ⟨p.offset + 1, p.line + 1, 1⟩
  else ⟨p.offset + c.utf8Size, p.line, p.column + 1⟩

/-- The place just past all of `cs`. -/
def advanceAll (p : Position) (cs : List Char) : Position :=
  cs.foldl advance p

/-- The place just past all of `s`. -/
def afterText (p : Position) (s : String) : Position :=
  p.advanceAll s.toList

/-- How a position is shown: `line:column`. -/
def display (p : Position) : String :=
  toString p.line ++ ":" ++ toString p.column

/-- The order of positions: offset, then line, then column. -/
def order (p q : Position) : Ordering :=
  (compare p.offset q.offset).then ((compare p.line q.line).then (compare p.column q.column))

@[simp] theorem advanceAll_nil (p : Position) : p.advanceAll [] = p := rfl

@[simp] theorem advanceAll_cons (p : Position) (c : Char) (cs : List Char) :
    p.advanceAll (c :: cs) = (p.advance c).advanceAll cs := rfl

theorem advanceAll_append (p : Position) (cs ds : List Char) :
    p.advanceAll (cs ++ ds) = (p.advanceAll cs).advanceAll ds := by
  simp [advanceAll]

end Position
end Blade
