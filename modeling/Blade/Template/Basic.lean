import Blade.Limits
import Blade.Template.Name
import Blade.Text.Blank
import Blade.Text.Fixed

/-!
# Template — Basic

A template that has been loaded, and the figures that describe it: its size in the largest fitting
unit, its lines, and how fast it was loaded.
-/

namespace Blade

/-! ### Sizes -/

/-- The bytes of a megabyte. -/
def megabyte : Nat := 1048576

/-- The bytes of a gigabyte. -/
def gigabyte : Nat := 1073741824

/-- The unit that a size of a kilobyte or more is shown in, with its bytes: the largest one of no
more than the size, up to gigabytes. -/
def sizeUnit (size : Nat) : String × Nat :=
  if size < megabyte then ("KB", 1024)
  else if size < gigabyte then ("MB", megabyte)
  else ("GB", gigabyte)

/-- How a size in bytes is shown: exactly when less than a kilobyte, and with two places of a larger
unit otherwise. -/
def showSize (size : Nat) : String :=
  if size < 1024 then toString size ++ " B"
  else
    let size := Text.toDouble size
    let (unit, bytes) := sizeUnit size
    Text.twoPlaces size bytes ++ " " ++ unit

/-- Whether a size in bytes counts as large. -/
def isLargeSize [Limits] (size : Nat) : Bool :=
  Limits.largeFile < size

/-! ### Times -/

/-- A time in nanoseconds, in milliseconds. -/
def milliseconds (nanos : Nat) : Float :=
  ((nanos / 1000000000).toFloat + (nanos % 1000000000).toFloat / 1000000000.0) * 1000.0

/-- Characters per millisecond, with two places; nothing when no time has passed. -/
def showRate (chars nanos : Nat) : String :=
  let time := milliseconds nanos
  Text.floatTwoPlaces (if time > 0.0 then chars.toFloat / time else 0.0)

/-! ### Templates -/

/-- The number of lines of a text: its newlines, and one more for what follows the last of them. -/
def countLines (cs : List Char) : Nat :=
  cs.count '\n' + match cs.getLast? with
    | none | some '\n' => 0
    | some _ => 1

/-- A template that has been loaded. -/
structure Template where
  source : String
  /-- The path it was read from, without links. -/
  path : String
  /-- Its size in bytes. -/
  size : Nat
  /-- How long it took to load, in nanoseconds. -/
  elapsed : Nat
  deriving DecidableEq, Repr, Inhabited

namespace Template

/-- The extension in lower case. -/
def extension? (t : Template) : Option String :=
  Path.templateExtension? t.path

/-- Whether the extension is that of a template. -/
def hasTemplateName (t : Template) : Bool :=
  Path.isTemplate t.path

/-- The number of characters. -/
def charCount (t : Template) : Nat :=
  t.source.length

/-- The number of lines. -/
def lineCount (t : Template) : Nat :=
  countLines t.source.toList

/-- Whether the template holds blank characters only. -/
def isBlank (t : Template) : Bool :=
  Text.isBlankText t.source

/-- Characters loaded per millisecond, with two places. -/
def rate (t : Template) : String :=
  showRate t.charCount t.elapsed

end Template
end Blade
