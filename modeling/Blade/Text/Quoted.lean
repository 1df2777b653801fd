import Blade.Text.Combining
import Blade.Text.Printable

/-!
# Text — Quoted

Texts and characters shown between quotes.  The enclosing quote and the backslash are escaped, as
are the tab, the line ends and NUL; a character that cannot be shown as it is, or that would combine
with the one before it, is written as `\u{hex}`.
-/

namespace Blade.Text

/-- `n` in hexadecimal, lower case, without leading zeros. -/
def hex (n : Nat) : String :=
  String.ofList (Nat.toDigits 16 n)

/-- How a character stands between two `quote`s. -/
def escape (quote : Char) (c : Char) : String :=
  if c = quote then "\\" ++ c.toString
  else
    match c with
    | '\\' => "\\\\"
    | '\t' => "\\t"
    | '\r' => "\\r"
    | '\n' => "\\n"
    | '\x00' => "\\0"
    | c =>
        if isCombining c || !isPrintable c then "\\u\x7b" ++ hex c.toNat ++ "\x7d"
        else c.toString

/-- A text between double quotes. -/
def quoted (s : String) : String :=
  (s.toList.foldl (fun out c => out ++ escape '"' c) "\"").push '"'

/-- A character between single quotes. -/
def quotedChar (c : Char) : String :=
  "'" ++ escape '\'' c ++ "'"

/-- An optional text: `None`, or `Some` with the quoted text. -/
def quotedOption : Option String → String
  | none => "None"
  | some s => "Some(" ++ quoted s ++ ")"

end Blade.Text
