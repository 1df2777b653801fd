import Blade.Toml.Blank

/-!
# Toml — Text

TOML strings, read and written.  A basic string, between double quotes, has escapes; a literal one,
between single quotes, has none; either may be doubled to three quotes and then spans lines.

A string is written in the first of these forms that needs no escapes for it: basic, literal, basic
over several lines, literal over several lines; and otherwise as a basic string, over several lines
when it has a line break.
-/

namespace Blade.Toml

/-! ### Reading -/

/-- The value of a hexadecimal digit. -/
def hexValue? (c : Char) : Option Nat :=
  if '0' ≤ c ∧ c ≤ '9' then some (c.toNat - 48)
  else if 'a' ≤ c ∧ c ≤ 'f' then some (c.toNat - 87)
  else if 'A' ≤ c ∧ c ≤ 'F' then some (c.toNat - 55)
  else none

/-- The character with a code point in hexadecimal. -/
def scalar? (digits : List Char) : Option Char := do
  let values ← digits.mapM hexValue?
  let n := values.foldl (fun n d => 16 * n + d) 0
  if n < 0xD800 ∨ (0xDFFF < n ∧ n < 0x110000) then some (Char.ofNat n) else none

/-- The character that a backslash and `c` stand for. -/
def escaped? : Char → Option Char
  | 'b' => some '\x08'
  | 'f' => some '\x0c'
  | 'n' => some '\n'
  | 'r' => some '\r'
  | 't' => some '\t'
  | '"' => some '"'
  | '\\' => some '\\'
  | _ => none

/-- A character that may stand in a string as it is. -/
def isStringChar (c : Char) : Bool :=
  isCommentChar c

/-- Reads the rest of a basic string on one line. -/
def basicString (out : String) : List Char → Except Error (String × List Char)
  | [] => missing [] "closing quote"
  | '"' :: cs => .ok (out, cs)
  | '\\' :: 'u' :: a :: b :: c :: d :: cs =>
      match scalar? [a, b, c, d] with
      | some ch => basicString (out.push ch) cs
      | none => missing cs "code point"
  | '\\' :: 'U' :: a :: b :: c :: d :: e :: f :: g :: h :: cs =>
      match scalar? [a, b, c, d, e, f, g, h] with
      | some ch => basicString (out.push ch) cs
      | none => missing cs "code point"
  | '\\' :: e :: cs =>
      match escaped? e with
      | some ch => basicString (out.push ch) cs
      | none => missing cs "escape"
  | c :: cs =>
      if c != '\\' && isStringChar c then basicString (out.push c) cs
      else missing (c :: cs) "string character"

/-- Reads the rest of a literal string on one line. -/
def literalString (out : String) : List Char → Except Error (String × List Char)
  | [] => missing [] "closing quote"
  | '\'' :: cs => .ok (out, cs)
  | c :: cs =>
      if isStringChar c then literalString (out.push c) cs
      else missing (c :: cs) "string character"

/-- Ends a string that spans lines after its three closing quotes: up to two more are its own. -/
def closeLines (quote : Char) (out : String) : List Char → String × List Char
  | a :: b :: cs =>
      if a = quote ∧ b = quote then ((out.push quote).push quote, cs)
      else if a = quote then (out.push quote, b :: cs)
      else (out, a :: b :: cs)
  | [a] => if a = quote then (out.push quote, []) else (out, [a])
  | [] => (out, [])

/-- How far a line-ending backslash has been read: not at all, up to its line break, or past it. -/
inductive Fold where
  | none | before | after
  deriving DecidableEq

/-- Reads the rest of a basic string that spans lines. -/
def basicLines (out : String) (fold : Fold) : List Char → Except Error (String × List Char)
  | [] => missing [] "closing quotes"
  | '\r' :: '\n' :: cs =>
      if fold = .none then basicLines (out.push '\n') .none cs else basicLines out .after cs
  | '"' :: '"' :: '"' :: cs =>
      if fold = .before then missing ('"' :: cs) "end of line" else .ok (closeLines '"' out cs)
  | '\\' :: 'u' :: a :: b :: c :: d :: cs =>
      match fold, scalar? [a, b, c, d] with
      | .before, _ => missing cs "end of line"
      | _, some ch => basicLines (out.push ch) .none cs
      | _, none => missing cs "code point"
  | '\\' :: 'U' :: a :: b :: c :: d :: e :: f :: g :: h :: cs =>
      match fold, scalar? [a, b, c, d, e, f, g, h] with
      | .before, _ => missing cs "end of line"
      | _, some ch => basicLines (out.push ch) .none cs
      | _, none => missing cs "code point"
  | '\\' :: e :: cs =>
      match fold, escaped? e with
      | .before, _ => missing cs "end of line"
      | _, some ch => basicLines (out.push ch) .none cs
      | _, none =>
          if e = '\n' then basicLines out .after cs
          else if isSpace e then basicLines out .before cs
          else if e = '\r' then
            match cs with
            | '\n' :: cs => basicLines out .after cs
            | cs => missing cs "line break"
          else missing cs "escape"
  | c :: cs =>
      if c = '\n' then
        if fold = .none then basicLines (out.push '\n') .none cs else basicLines out .after cs
      else if fold != .none && isSpace c then basicLines out fold cs
      else if fold = .before then missing (c :: cs) "end of line"
      else if c != '\\' && isStringChar c then basicLines (out.push c) .none cs
      else missing (c :: cs) "string character"

/-- Reads the rest of a literal string that spans lines. -/
def literalLines (out : String) : List Char → Except Error (String × List Char)
  | [] => missing [] "closing quotes"
  | '\r' :: '\n' :: cs => literalLines (out.push '\n') cs
  | '\'' :: '\'' :: '\'' :: cs => .ok (closeLines '\'' out cs)
  | c :: cs =>
      if c = '\n' || isStringChar c then literalLines (out.push c) cs
      else missing (c :: cs) "string character"

/-- The characters after a line break at the start of a string that spans lines. -/
def skipFirstBreak (cs : List Char) : List Char :=
  (newline? cs).getD cs

/-- Reads a string of any form; its opening quote is next. -/
def readString : List Char → Except Error (String × List Char)
  | '"' :: '"' :: '"' :: cs => basicLines "" .none (skipFirstBreak cs)
  | '"' :: cs => basicString "" cs
  | '\'' :: '\'' :: '\'' :: cs => literalLines "" (skipFirstBreak cs)
  | '\'' :: cs => literalString "" cs
  | cs => missing cs "string"

/-! ### Writing -/

/-- The length of the longest run of `q`, the current one being `run` long so far. -/
def longestRun (q : Char) (best run : Nat) : List Char → Nat
  | [] => max best run
  | c :: cs => if c = q then longestRun q best (run + 1) cs else longestRun q (max best run) 0 cs

/-- Whether a character is a control that every form but a basic string leaves out; tabs and line
breaks are none. -/
def needsEscape (c : Char) : Bool :=
  c != '\t' && c != '\n' && (c.toNat < 0x20 || c.toNat == 0x7F)

/-- The digit for a number below 16, letters in upper case. -/
def upperHexDigit (n : Nat) : Char :=
  if n < 10 then Char.ofNat (48 + n) else Char.ofNat (55 + n)

/-- How a character other than a quote stands in a basic string. -/
def escapeChar (lines : Bool) (c : Char) : String :=
  match c with
  | '\x08' => "\\b"
  | '\t' => "\\t"
  | '\x0c' => "\\f"
  | '\r' => "\\r"
  | '\\' => "\\\\"
  | '\n' => if lines then "\n" else "\\n"
  | c =>
      if c.toNat < 0x20 ∨ c.toNat = 0x7F then
        ("\\u00".push (upperHexDigit (c.toNat / 16))).push (upperHexDigit (c.toNat % 16))
      else c.toString

/-- The inside of a basic string.  Of the quotes in a row, two stay as they are in a string that
spans lines and none does on one line; `run` counts those kept so far. -/
def escapeAll (lines : Bool) (out : String) (run : Nat) : List Char → String
  | [] => out
  | c :: cs =>
      if c = '"' then
        if run < (if lines then 2 else 0) then escapeAll lines (out.push '"') (run + 1) cs
        else escapeAll lines (out ++ "\\\"") 0 cs
      else escapeAll lines (out ++ escapeChar lines c) 0 cs

/-- A string as it is written. -/
def writeString (s : String) : String :=
  let cs := s.toList
  let controls := cs.any needsEscape
  let breaks := cs.contains '\n'
  let backslashes := cs.contains '\\'
  let doubles := longestRun '"' 0 0 cs
  let singles := longestRun '\'' 0 0 cs
  let opening := if breaks then "\n" else ""
  if !controls && !backslashes && doubles == 0 && !breaks then
    "\"" ++ escapeAll false "" 0 cs ++ "\""
  else if !controls && singles == 0 && !breaks then "'" ++ s ++ "'"
  else if !controls && !backslashes && doubles ≤ 2 then
    "\"\"\"" ++ opening ++ escapeAll true "" 0 cs ++ "\"\"\""
  else if !controls && singles ≤ 2 then "'''" ++ opening ++ s ++ "'''"
  else if breaks then "\"\"\"" ++ opening ++ escapeAll true "" 0 cs ++ "\"\"\""
  else "\"" ++ escapeAll false "" 0 cs ++ "\""

end Blade.Toml
