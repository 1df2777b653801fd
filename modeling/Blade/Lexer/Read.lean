import Blade.Arguments

/-!
# Lexer — Read

The parts of a token, read at a cursor: the inside of a comment or an output expression up to its
terminator, and the argument list that may follow a directive's name.  Each part that the input may
end in is, in strict mode, an error from the opening of its token to the end of input.
-/

namespace Blade

/-- The error of a construct that was opened at `start` and is open at the end of input. -/
def LexError.unterminated (construct : Construct) (start : Position) (c : Cursor) : LexError :=
  ⟨.unterminatedBlock construct, ⟨start, c.skipAll.position⟩, c.source⟩

namespace Cursor

/-- Reads up to `terminator` and past it, or to the end of input. -/
def readUntil (c : Cursor) (terminator : List Char) (construct : Construct) (start : Position)
    (strict : Bool) : Except LexError (String × Cursor) :=
  match c.find? terminator with
  | some n => .ok (String.ofList (c.rest.take n), c.skip (n + terminator.length))
  | none =>
      if strict then .error (.unterminated construct start c)
      else .ok (String.ofList c.rest, c.skipAll)

/-- Reads the argument list that follows after only `gap` characters.  Without one nothing is read,
not even the gap. -/
def readArguments [Limits] (c : Cursor) (gap : Char → Bool) (start : Position) (strict : Bool) :
    Except LexError (Option ArgumentList × Cursor) :=
  let blanks := (c.rest.takeWhile gap).length
  if c.rest[blanks]? = some '(' then
    match (c.skip (blanks + 1)).arguments with
    | (.error e, _) => .error e
    | (.ok list, after) =>
        if !list.terminated && strict then .error (.unterminated .argumentList start after)
        else .ok (some list, after)
  else .ok (none, c)

theorem length_rest_readUntil {c after : Cursor} {terminator : List Char} {construct : Construct}
    {start : Position} {strict : Bool} {s : String}
    (h : c.readUntil terminator construct start strict = .ok (s, after)) :
    after.rest.length ≤ c.rest.length := by
  unfold readUntil at h
  split at h
  · cases h; simp
  · split at h
    · cases h
    · cases h; simp [skipAll]

theorem length_rest_readArguments [Limits] {c after : Cursor} {gap : Char → Bool} {start : Position}
    {strict : Bool} {list : Option ArgumentList}
    (h : c.readArguments gap start strict = .ok (list, after)) :
    after.rest.length ≤ c.rest.length := by
  simp only [readArguments] at h
  split at h
  · split at h
    · cases h
    · next e =>
        split at h
        · cases h
        · cases h
          have := length_rest_arguments (c.skip ((c.rest.takeWhile gap).length + 1))
          rw [e] at this
          simp at this
          omega
  · cases h; exact Nat.le_refl _

end Cursor
end Blade
