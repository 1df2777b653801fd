import Blade.Log.Recorder
import Blade.Settings.Basic
import Blade.Template.Basic
import Blade.Template.Error

/-!
# Template — Load

Loading a template.  A path has to lead to a regular file, whose path without links can be said.
The file must be neither too large nor empty, have the extension of a template where one is
required, and hold UTF-8.  These are checked in this order; the first that does not hold is the
error, and each step is logged.
-/

namespace Blade.Template

variable [Limits]

/-- A flag in a log. -/
def showFlag (b : Bool) : String :=
  if b then "true" else "false"

/-- A regular file that a path led to. -/
structure Candidate where
  /-- The path as it was given. -/
  given : String
  /-- The path without links. -/
  path : String
  size : Nat
  content : Except DiskError Content

/-- An error, with the event that reports it. -/
abbrev Refusal := LoadError × Event

/-- Refuses with an error. -/
def refuse {α : Type} (e : LoadError) (message : String) (context : List (String × String)) :
    Except Refusal α :=
  .error (e, (Event.error e.code message).setAll context)

/-- The regular file that a lookup of `path` shows. -/
def locate (path : String) (found : Lookup) : Except Refusal Candidate :=
  if path.isEmpty then refuse (.invalidPath "") "Empty file path provided" []
  else
    match found with
    | .error _ => refuse (.notFound path) "File not found" [("path", path)]
    | .ok (.file (.ok canonical) size content) => .ok ⟨path, canonical, size, content⟩
    | .ok (.file (.error e) _ _) =>
        refuse (.ofDisk path e) "Failed to canonicalize path"
          [("path", path), ("io_error", e.message)]
    | .ok _ => refuse (.invalidPath path) "Path is not a file" [("path", path)]

namespace Candidate

/-- The extension in lower case, `none` without one. -/
def extensionName (c : Candidate) : String :=
  (Path.templateExtension? c.path).getD "none"

/-- The event that describes a file before it is read. -/
def described (c : Candidate) : Event :=
  (Event.debug "File metadata collected").setAll
    [("size", showSize c.size), ("extension", c.extensionName),
      ("is_blade", showFlag (Path.isTemplate c.path))]

/-- Refuses a file that is too large, empty, or without an extension that is required. -/
def check (settings : LoadSettings) (c : Candidate) : Except Refusal Unit :=
  if Limits.fileSize < c.size then
    refuse (.tooLarge c.size Limits.fileSize) "Template exceeds maximum size"
      [("file", c.given), ("size_bytes", toString c.size),
        ("limit_bytes", toString Limits.fileSize)]
  else if c.size = 0 then refuse .empty "File is empty" [("file", c.given)]
  else if settings.requireExtension && !Path.isTemplate c.path then
    refuse (.invalidExtension (Path.templateExtension? c.path)) "File is not a Blade template"
      [("file", c.given), ("extension", c.extensionName)]
  else .ok ()

/-- The text of a file. -/
def read (c : Candidate) : Except Refusal String :=
  match c.content.bind Content.text with
  | .ok source => .ok source
  | .error e =>
      refuse (.ofDisk c.path e) "Failed to read template"
        [("file", c.given), ("io_error", e.message)]

end Candidate

/-- The event that reports a loaded template, found under the path `given`. -/
def loaded (settings : LoadSettings) (given : String) (t : Template) : Event :=
  (Event.success Code.templateLoaded "Template loaded").setAll <|
    if settings.logPerformance then
      [("file", given), ("size", showSize t.size), ("lines", toString t.lineCount),
        ("chars", toString t.charCount),
        ("duration_ms", Text.floatTwoPlaces (milliseconds t.elapsed)),
        ("chars_per_ms", t.rate), ("is_large_file", showFlag (isLargeSize t.size))]
    else [("file", given), ("lines", toString t.lineCount)]

/-- The checks in their order, and the events logged up to the first that does not hold. -/
def loadSteps (settings : LoadSettings) (path : String) (found : Lookup) (elapsed : Nat) :
    Except LoadError Template × List Event :=
  let started := (Event.debug "Starting file processing").set "file" path
  match locate path found with
  | .error (e, event) => (.error e, [started, event])
  | .ok c =>
      match c.check settings with
      | .error (e, event) => (.error e, [started, c.described, event])
      | .ok () =>
          match c.read with
          | .error (e, event) => (.error e, [started, c.described, event])
          | .ok source =>
              let t : Template := ⟨source, c.path, c.size, elapsed⟩
              (.ok t, [started, c.described, t.loaded settings path])

/-- Loads the template that a lookup of `path` shows, which took `elapsed` nanoseconds. -/
def load (settings : LoadSettings) (path : String) (found : Lookup) (elapsed : Nat)
    (log : Recorder) : Except LoadError Template × Recorder :=
  let (result, events) := loadSteps settings path found elapsed
  (result, log.emitAll events)

end Blade.Template
