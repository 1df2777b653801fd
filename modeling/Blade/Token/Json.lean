import Blade.Json.Value
import Blade.Token.Basic

/-!
# Token — Json

Tokens and spans as JSON.  A token is an object whose `type` names its kind; an absent argument or
filter list is left out, an empty one is not.  Reading also takes any of these objects as an array
of its field values in order, a token's with its type first.
-/

namespace Blade

/-- A field that is left out when there is no value. -/
def Json.optionalField (name : String) : Option Json → List (String × Json)
  | some value => [(name, value)]
  | none => []

/-- A filter as JSON. -/
def Filter.toJson (f : Filter) : Json :=
  .obj [("name", .str f.name), ("args", .strings f.args)]

/-- A token as JSON. -/
def Token.toJson : Token → Json
  | .comment value => .obj [("type", .str "comment"), ("value", .str value)]
  | .text value => .obj [("type", .str "text"), ("value", .str value)]
  | .data escaped value filters =>
      .obj <| [("type", .str "data"), ("escaped", .bool escaped), ("value", .str value)] ++
        Json.optionalField "filters" (filters.map fun fs => .arr (fs.map Filter.toJson))
  | .function name args =>
      .obj <| [("type", .str "function"), ("name", .str name)] ++
        Json.optionalField "args" (args.map .strings)
  | .rawFunction name args content =>
      .obj <| [("type", .str "raw-function"), ("name", .str name)] ++
        Json.optionalField "args" (args.map .strings) ++ [("content", .str content)]
  | .eof => .obj [("type", .str "eof")]

/-- A position as JSON. -/
def Position.toJson (p : Position) : Json :=
  .obj [("offset", .nat p.offset), ("line", .nat p.line), ("column", .nat p.column)]

/-- A span as JSON. -/
def Span.toJson (s : Span) : Json :=
  .obj [("start", s.start.toJson), ("end", s.stop.toJson)]

/-- A located token as JSON. -/
def LocatedToken.toJson (t : LocatedToken) : Json :=
  .obj [("value", t.value.toJson), ("span", t.span.toJson)]

/-! ### Reading -/

namespace Json

/-- The values of named fields: those of an object, or the items of an array of no more than so many
items.  A field that is missing has no value. -/
def record? (names : List String) : Json → Option (List (Option Json))
  | .obj fields => some (names.map fun name => fields.lookup name)
  | .arr items =>
      if items.length ≤ names.length then
        some (items.map some ++ List.replicate (names.length - items.length) none)
      else none
  | _ => none

/-- Reads a value that may be missing or null. -/
def optional? {α : Type} (read : Json → Option α) : Option Json → Option (Option α)
  | none | some .null => some none
  | some value => (read value).map some

/-- The items of an array, each read. -/
def list? {α : Type} (read : Json → Option α) : Json → Option (List α)
  | .arr items => items.mapM read
  | _ => none

end Json

/-- Reads a filter. -/
def Filter.ofJson? (value : Json) : Option Filter :=
  match value.record? ["name", "args"] with
  | some [some name, some args] => do return ⟨← name.str?, ← args.strings?⟩
  | _ => none

/-- Reads a token of a kind from the other fields of its object. -/
def Token.ofFields? (kind : TokenKind) (rest : Json) : Option Token :=
  match kind with
  | .comment =>
      match rest.record? ["value"] with
      | some [some value] => do return .comment (← value.str?)
      | _ => none
  | .text =>
      match rest.record? ["value"] with
      | some [some value] => do return .text (← value.str?)
      | _ => none
  | .data =>
      match rest.record? ["escaped", "value", "filters"] with
      | some [some escaped, some value, filters] => do
          return .data (← escaped.bool?) (← value.str?)
            (← Json.optional? (Json.list? Filter.ofJson?) filters)
      | _ => none
  | .function =>
      match rest.record? ["name", "args"] with
      | some [some name, args] => do
          return .function (← name.str?) (← Json.optional? Json.strings? args)
      | _ => none
  | .rawFunction =>
      match rest.record? ["name", "args", "content"] with
      | some [some name, args, some content] => do
          return .rawFunction (← name.str?) (← Json.optional? Json.strings? args)
            (← content.str?)
      | _ => none
  | .eof => (rest.record? []).map fun _ => .eof

/-- Reads a token. -/
def Token.ofJson? : Json → Option Token
  | .obj fields => do
      let type ← fields.lookup "type"
      Token.ofFields? (← TokenKind.ofName? (← type.str?)) (.obj fields)
  | .arr (type :: items) => do
      Token.ofFields? (← TokenKind.ofName? (← type.str?)) (.arr items)
  | _ => none

/-- Reads a position; offsets are below 2^64, lines and columns below 2^32. -/
def Position.ofJson? (value : Json) : Option Position :=
  match value.record? ["offset", "line", "column"] with
  | some [some offset, some line, some column] => do
      return ⟨← offset.nat? 18446744073709551616, ← line.nat? 4294967296,
        ← column.nat? 4294967296⟩
  | _ => none

/-- Reads a span. -/
def Span.ofJson? (value : Json) : Option Span :=
  match value.record? ["start", "end"] with
  | some [some start, some stop] => do return ⟨← Position.ofJson? start, ← Position.ofJson? stop⟩
  | _ => none

/-- Reads a located token. -/
def LocatedToken.ofJson? (value : Json) : Option LocatedToken :=
  match value.record? ["value", "span"] with
  | some [some token, some span] => do return ⟨← Token.ofJson? token, ← Span.ofJson? span⟩
  | _ => none

end Blade
