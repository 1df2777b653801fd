import Blade.Location.Position
import Blade.Toml.Scalar
import Blade.Toml.Table

/-!
# Toml — Parser

TOML documents.  A document is a list of lines, each a key with its value, a header or blank; a
value may be an array, which may span lines, or a table between braces, which may not.  Values nest
no more than `deepest` levels, and a dotted key has no more parts than that.
-/

namespace Blade.Toml

/-- How many arrays and tables may stand inside one another. -/
def deepest : Nat := 79

/-! ### Keys -/

/-- A character of a key without quotes. -/
def isBareKeyChar (c : Char) : Bool :=
  isDigit c || ('a' ≤ c && c ≤ 'z') || ('A' ≤ c && c ≤ 'Z') || c == '_' || c == '-'

/-- One part of a key. -/
def readKeyPart (cs : List Char) : Except Error (String × List Char) :=
  match cs with
  | '"' :: rest => basicString "" rest
  | '\'' :: rest => literalString "" rest
  | cs =>
      match cs.takeWhile isBareKeyChar with
      | [] => missing cs "key"
      | key => .ok (String.ofList key, cs.drop key.length)

/-- A key of one or more parts with dots between them, spaces around each; `parts` are those before,
last one first. -/
def readKeyFrom (parts : List String) :
    Nat → List Char → Except Error (List String × List Char)
  | 0, cs => failAt cs .tooDeep
  | fuel + 1, cs => do
      let (part, rest) ← readKeyPart (skipSpace cs)
      match skipSpace rest with
      | '.' :: rest => readKeyFrom (part :: parts) fuel rest
      | rest => .ok ((part :: parts).reverse, rest)

/-- A key. -/
def readKey (cs : List Char) : Except Error (List String × List Char) :=
  readKeyFrom [] deepest cs

/-- The last part of a key and those before it. -/
def splitKey (key : List String) : List String × String :=
  (key.dropLast, key.getLastD "")

/-! ### Values -/

/-- Reads values up to the closing bracket of an array, each by `item`; `items` are those before,
last one first. -/
def readItems (item : List Char → Except Error (Value × List Char)) (items : List Value) :
    Nat → List Char → Except Error (Value × List Char)
  | 0, cs => missing cs "closing bracket"
  | fuel + 1, cs =>
      match skipLines false cs with
      | ']' :: rest => .ok (.array items.reverse, rest)
      | cs => do
          let (value, rest) ← item cs
          match skipLines false rest with
          | ',' :: rest => readItems item (value :: items) fuel rest
          | ']' :: rest => .ok (.array (value :: items).reverse, rest)
          | rest => missing rest "comma or closing bracket"

/-- Reads a key and its value, by `item`, up to the spaces after it. -/
def readPair (item : List Char → Except Error (Value × List Char)) (cs : List Char) :
    Except Error ((List String × Value) × List Char) := do
  let (key, rest) ← readKey cs
  match rest with
  | '=' :: rest =>
      let (value, rest) ← item (skipSpace rest)
      .ok ((key, value), skipSpace rest)
  | rest => missing rest "equals sign"

/-- Reads keys and values up to the closing brace of a table, after the entries already there. -/
def readEntries (item : List Char → Except Error (Value × List Char)) (entries : Entries) :
    Nat → List Char → Except Error (Value × List Char)
  | 0, cs => missing cs "closing brace"
  | fuel + 1, cs => do
      let ((key, value), rest) ← readPair item cs
      let (path, last) := splitKey key
      match defineAt path last value .header entries with
      | .error reason => failAt cs reason
      | .ok entries =>
          match rest with
          | ',' :: rest => readEntries item entries fuel rest
          | '}' :: rest => .ok (.table (entriesValue entries), rest)
          | rest => missing rest "comma or closing brace"

/-- Reads a value that has no more than so many levels of arrays and tables, each with no more than
`most` items. -/
def readValue (most : Nat) : Nat → List Char → Except Error (Value × List Char)
  | 0, cs =>
      match cs with
      | '[' :: _ | '{' :: _ => failAt cs .tooDeep
      | cs => readScalar cs
  | levels + 1, cs =>
      match cs with
      | '[' :: rest => readItems (readValue most levels) [] most rest
      | '{' :: rest =>
          match skipSpace rest with
          | '}' :: rest => .ok (.table [], rest)
          | rest => readEntries (readValue most levels) [] most rest
      | cs => readScalar cs

/-! ### Lines -/

/-- A document so far: its entries, and the table that the last header opened. -/
structure Draft where
  entries : Entries := []
  header : List String := []
  deriving Repr, Inhabited

/-- Reads a header; its opening bracket has been read. -/
def readHeader (draft : Draft) (cs : List Char) : Except Error (Draft × List Char) :=
  match cs with
  | '[' :: cs => do
      let (key, rest) ← readKey cs
      match rest with
      | ']' :: ']' :: rest =>
          let (path, last) := splitKey key
          match alter .implied (openItem last) path .header draft.entries with
          | .ok entries => .ok (⟨entries, key⟩, rest)
          | .error reason => failAt cs reason
      | rest => missing rest "closing brackets"
  | cs => do
      let (key, rest) ← readKey cs
      match rest with
      | ']' :: rest =>
          let (path, last) := splitKey key
          match alter .implied (openTable last) path .header draft.entries with
          | .ok entries => .ok (⟨entries, key⟩, rest)
          | .error reason => failAt cs reason
      | rest => missing rest "closing bracket"

/-- Reads a key and its value, with no more than `most` items in an array, into the table that the
last header opened. -/
def readDefinition (most : Nat) (draft : Draft) (cs : List Char) :
    Except Error (Draft × List Char) := do
  let ((key, value), rest) ← readPair (readValue most deepest) cs
  let (path, last) := splitKey key
  match alter .implied (defineAt path last value) draft.header .header draft.entries with
  | .ok entries => .ok ({ draft with entries }, rest)
  | .error reason => failAt cs reason

/-- Reads lines to the end of the document. -/
def readLines (draft : Draft) : Nat → List Char → Except Error Draft
  | 0, cs => missing cs "end of document"
  | fuel + 1, cs =>
      match skipSpace cs with
      | [] => .ok draft
      | '#' :: rest => do readLines draft fuel (← lineEnd ('#' :: rest))
      | '[' :: rest => do
          let (draft, rest) ← readHeader draft rest
          readLines draft fuel (← lineEnd rest)
      | cs =>
          match newline? cs with
          | some rest => readLines draft fuel rest
          | none => do
              let (draft, rest) ← readDefinition fuel draft cs
              readLines draft fuel (← lineEnd rest)

/-- The characters after a byte order mark. -/
def skipMark : List Char → List Char
  | '\ufeff' :: cs => cs
  | cs => cs

/-- Reads a document. -/
def parse (source : String) : Except Error (List (String × Value)) := do
  let cs := skipMark source.toList
  let draft ← readLines {} (cs.length + 1) cs
  return entriesValue draft.entries

/-- The message of an error in a document, with its place. -/
def Error.message (e : Error) (source : String) : String :=
  let cs := source.toList
  let p := Position.start.advanceAll (cs.take (cs.length - e.left))
  "TOML parse error at line " ++ toString p.line ++ ", column " ++ toString p.column ++ "\n" ++
    e.reason.message ++ "\n"

end Blade.Toml
