import Blade.Json.Value

/-!
# Json — Render

JSON text.  `Json.compact` writes a value without blanks; `Json.pretty` writes one item or field a
line, indented by two spaces a level, and an empty array or object as `[]` or `{}`.  Inside
strings a quote, a backslash and the control characters below U+0020 are escaped, and nothing
else is.
-/

namespace Blade.Json

/-- The digit for a number below 16, letters in lower case. -/
def hexDigit (n : Nat) : Char :=
  if n < 10 then Char.ofNat (48 + n) else Char.ofNat (87 + n)

/-- How a character stands inside a JSON string. -/
def escapeChar (c : Char) : String :=
  match c with
  | '"' => "\\\""
  | '\\' => "\\\\"
  | '\x08' => "\\b"
  | '\x0c' => "\\f"
  | '\n' => "\\n"
  | '\r' => "\\r"
  | '\t' => "\\t"
  | c =>
      if c.toNat < 32 then
        (("\\u00".push (hexDigit (c.toNat / 16))).push (hexDigit (c.toNat % 16)))
      else c.toString

/-- A JSON string, quotes included. -/
def quote (s : String) : String :=
  (s.toList.foldl (fun out c => out ++ escapeChar c) "\"").push '"'

/-- The number `mantissa / 10 ^ places`. -/
def decimalText (mantissa : Int) (places : Nat) : String :=
  let sign := if mantissa < 0 then "-" else ""
  let digits := toString mantissa.natAbs
  let digits := "".pushn '0' (places + 1 - digits.length) ++ digits
  let cut := digits.length - places
  sign ++ (digits.take cut).toString ++ "." ++ (digits.drop cut).toString

mutual

/-- Appends `value` without blanks. -/
def writeCompact (out : String) : Json → String
  | .null => out ++ "null"
  | .bool b => out ++ (if b then "true" else "false")
  | .int n => out ++ toString n
  | .decimal m p => out ++ decimalText m p
  | .str s => out ++ quote s
  | .arr items => (writeItems (out.push '[') true items).push ']'
  | .obj fields => (writeFields (out.push '\x7b') true fields).push '\x7d'

/-- Appends the items of an array, a comma before each but the first. -/
def writeItems (out : String) (first : Bool) : List Json → String
  | [] => out
  | item :: items =>
      writeItems (writeCompact (if first then out else out.push ',') item) false items

/-- Appends the fields of an object, a comma before each but the first. -/
def writeFields (out : String) (first : Bool) : List (String × Json) → String
  | [] => out
  | (name, value) :: fields =>
      writeFields (writeCompact ((if first then out else out.push ',') ++ quote name ++ ":") value)
        false fields

end

/-- The text of a value, without blanks. -/
def compact (value : Json) : String :=
  writeCompact "" value

/-- Appends a line break and the indentation of a level. -/
def breakLine (out : String) (level : Nat) : String :=
  (out.push '\n').pushn ' ' (2 * level)

mutual

/-- Appends `value`, whose first line is already indented, at a level. -/
def writePretty (out : String) (level : Nat) : Json → String
  | .null => out ++ "null"
  | .bool b => out ++ (if b then "true" else "false")
  | .int n => out ++ toString n
  | .decimal m p => out ++ decimalText m p
  | .str s => out ++ quote s
  | .arr [] => out ++ "[]"
  | .arr (item :: items) =>
      (breakLine (writePrettyItems (out.push '[') (level + 1) true (item :: items)) level).push ']'
  | .obj [] => out ++ "\x7b\x7d"
  | .obj (field :: fields) =>
      (breakLine (writePrettyFields (out.push '\x7b') (level + 1) true (field :: fields))
        level).push '\x7d'

/-- Appends the items of an array, one a line. -/
def writePrettyItems (out : String) (level : Nat) (first : Bool) : List Json → String
  | [] => out
  | item :: items =>
      let out := breakLine (if first then out else out.push ',') level
      writePrettyItems (writePretty out level item) level false items

/-- Appends the fields of an object, one a line. -/
def writePrettyFields (out : String) (level : Nat) (first : Bool) :
    List (String × Json) → String
  | [] => out
  | (name, value) :: fields =>
      let out := breakLine (if first then out else out.push ',') level
      writePrettyFields (writePretty (out ++ quote name ++ ": ") level value) level false fields

end

/-- The text of a value, one item or field a line. -/
def pretty (value : Json) : String :=
  writePretty "" 0 value

end Blade.Json
