import Blade.Toml.Value

/-!
# Toml — Blank

What may stand between the parts of a TOML document: spaces and tabs, line breaks, and comments.
-/

namespace Blade.Toml

/-- A space or a tab. -/
def isSpace (c : Char) : Bool :=
  c == ' ' || c == '\t'

/-- The characters after the spaces and tabs. -/
def skipSpace (cs : List Char) : List Char :=
  cs.dropWhile isSpace

/-- A character that may stand in a comment. -/
def isCommentChar (c : Char) : Bool :=
  c == '\t' || (0x20 ≤ c.toNat && c.toNat != 0x7F)

/-- The characters after a line break, if one is next. -/
def newline? : List Char → Option (List Char)
  | '\n' :: cs => some cs
  | '\r' :: '\n' :: cs => some cs
  | _ => none

/-- The characters after a comment, if one is next. -/
def skipComment : List Char → List Char
  | '#' :: cs => cs.dropWhile isCommentChar
  | cs => cs

/-- The characters after the end of a line: spaces, perhaps a comment, and a line break or the end
of the document. -/
def lineEnd (cs : List Char) : Except Error (List Char) :=
  let cs := skipComment (skipSpace cs)
  match cs, newline? cs with
  | [], _ => .ok []
  | _, some rest => .ok rest
  | cs, none => missing cs "end of line"

/-- The characters after spaces, line breaks and comments; each comment ends its line. -/
def skipLines (inComment : Bool) : List Char → List Char
  | [] => []
  | '\n' :: cs => skipLines false cs
  | '\r' :: '\n' :: cs => skipLines false cs
  | c :: cs =>
      if inComment then if isCommentChar c then skipLines true cs else c :: cs
      else if isSpace c then skipLines false cs
      else if c = '#' then skipLines true cs
      else c :: cs

end Blade.Toml
