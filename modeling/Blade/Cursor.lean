import Blade.Location.Position

/-!
# Cursor

A cursor over the characters of a source: what is left to read and the position it starts at.
Reading moves the position past what was read.  It is a `CharStream` without an index: in range,
both read and show the same.
-/

namespace Blade

/-- A place in a source, with the characters from there on. -/
structure Cursor where
  source : String
  rest : List Char
  position : Position
  deriving DecidableEq, Repr, Inhabited

namespace Cursor

/-- The cursor before the first character of `source`. -/
def ofSource (source : String) : Cursor :=
  ⟨source, source.toList, .start⟩

/-- Reads up to `n` characters, fewer when the source ends. -/
def skip (c : Cursor) : Nat → Cursor
  | 0 => c
  | n + 1 =>
      match c.rest with
      | [] => c
      | ch :: rest => skip ⟨c.source, rest, c.position.advance ch⟩ n

/-- Reads all that is left. -/
def skipAll (c : Cursor) : Cursor :=
  ⟨c.source, [], c.position.advanceAll c.rest⟩

/-- The place in `cs`, counted from `k`, at which `pattern` first stands. -/
def findFrom (pattern : List Char) (k : Nat) : List Char → Option Nat
  | [] => none
  | c :: cs =>
      if pattern.isPrefixOf (c :: cs) then some k else findFrom pattern (k + 1) cs

/-- How many characters stand before the first occurrence of `pattern`. -/
def find? (c : Cursor) (pattern : List Char) : Option Nat :=
  findFrom pattern 0 c.rest

@[simp] theorem source_skip (c : Cursor) (n : Nat) : (c.skip n).source = c.source := by
  induction n generalizing c with
  | zero => rfl
  | succ n ih =>
      rw [skip]
      split
      · rfl
      · exact ih _

@[simp] theorem rest_skip (c : Cursor) (n : Nat) : (c.skip n).rest = c.rest.drop n := by
  induction n generalizing c with
  | zero => rfl
  | succ n ih =>
      rw [skip]
      split
      · next h => simp [h]
      · next ch rest h => simp [ih, h]

theorem position_skip (c : Cursor) (n : Nat) :
    (c.skip n).position = c.position.advanceAll (c.rest.take n) := by
  induction n generalizing c with
  | zero => rfl
  | succ n ih =>
      rw [skip]
      split
      · next h => simp [h]
      · next ch rest h => simp [ih, h]

end Cursor
end Blade
