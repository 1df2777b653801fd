import Blade.Disk.Path
import Blade.Text.Lowercase

/-!
# Template — Name

Template names.  The extension of a template is `.blade.html` or `.blade`, in any case, after at
least one more character; any other file has the plain extension of its name.
-/

namespace Blade.Path

/-- The extensions of templates, the most specific first, without their dots. -/
def templateExtensions : List String := ["blade.html", "blade"]

/-- Whether a name has something before a dot and `extension`. -/
def endsIn (name extension : String) : Bool :=
  name.endsWith ("." ++ extension) && extension.utf8ByteSize + 1 < name.utf8ByteSize

/-- The extension of a path in lower case, that of a template first of all. -/
def templateExtension? (path : String) : Option String :=
  match fileName? path with
  | none => none
  | some name =>
      match templateExtensions.find? (endsIn (Text.lowercase name)) with
      | some extension => some extension
      | none => (extensionOf? name).map Text.lowercase

/-- Whether a path has the extension of a template. -/
def isTemplate (path : String) : Bool :=
  match templateExtension? path with
  | some extension => templateExtensions.contains extension
  | none => false

end Blade.Path
