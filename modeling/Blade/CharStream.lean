import Blade.Location.Position

/-!
# CharStream

A stream of the characters of a source, read by an index into them.  Index, lengths and offsets are
machine words: their sums wrap around, and what lies behind the last character is cut off.
-/

namespace Blade

/-- The characters of a source, with a place among them. -/
structure CharStream where
  source : String
  chars : Array Char
  /-- How many characters have been read. -/
  index : UInt64
  position : Position
  deriving Repr, Inhabited

namespace CharStream

/-- The stream before the first character of `source`. -/
def ofSource (source : String) : CharStream :=
  ⟨source, source.toList.toArray, 0, .start⟩

/-- The number of characters. -/
def size (s : CharStream) : UInt64 :=
  .ofNat s.chars.size

/-- The character `ahead` places on. -/
def peek (s : CharStream) (ahead : UInt64) : Option Char :=
  s.chars[(s.index + ahead).toNat]?

/-- Up to `length` characters from `ahead` places on.  There are none to give, not even no
characters, when they would stop before they start. -/
def sub (s : CharStream) (length ahead : UInt64) : Option String :=
  let start := min (s.index + ahead) s.size
  let stop := min (start + length) s.size
  if start ≤ stop then some (String.ofList (s.chars.extract start.toNat stop.toNat).toList)
  else none

/-- Whether the characters of a pattern stand from an index on. -/
def matchesFrom (s : CharStream) (index : UInt64) : List Char → Bool
  | [] => true
  | c :: pattern => s.chars[index.toNat]? == some c && s.matchesFrom (index + 1) pattern

/-- Whether `pattern` stands `ahead` places on. -/
def startsWith (s : CharStream) (pattern : String) (ahead : UInt64) : Bool :=
  s.matchesFrom (s.index + ahead) pattern.toList

/-- Reads one character, if one is left. -/
def next (s : CharStream) : Option Char × CharStream :=
  match s.chars[s.index.toNat]? with
  | some c => (some c, { s with index := s.index + 1, position := s.position.advance c })
  | none => (none, s)

/-- Reads up to as many characters, fewer when the source ends. -/
def skipFor (s : CharStream) : Nat → CharStream
  | 0 => s
  | n + 1 =>
      match s.next with
      | (some _, s) => s.skipFor n
      | (none, s) => s

/-- Reads up to `n` characters. -/
def skip (s : CharStream) (n : UInt64) : CharStream :=
  s.skipFor n.toNat

/-- Whether nothing is left. -/
def atEnd (s : CharStream) : Bool :=
  s.size ≤ s.index

/-- The number of characters left, and never fewer than none. -/
def remaining (s : CharStream) : UInt64 :=
  if s.index ≤ s.size then s.size - s.index else 0

end CharStream
end Blade
