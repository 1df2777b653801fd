import Blade.Disk.Lookup
import Blade.Log.Event
import Blade.Text.Quoted

/-!
# Template — Error

Why a template cannot be loaded.
-/

namespace Blade

/-- Why a template cannot be loaded. -/
inductive LoadError where
  | notFound (path : String)
  | invalidExtension (extension : Option String)
  | tooLarge (size max : Nat)
  | empty
  | permissionDenied (path : String)
  | invalidEncoding (path : String)
  | io (message : String)
  | invalidPath (path : String)
  deriving DecidableEq, Repr, Inhabited

namespace LoadError

/-- The message of a load error. -/
def message : LoadError → String
  | .notFound path => "File not found: " ++ path
  | .invalidExtension extension =>
      "Invalid file extension: expected .blade or .blade.html, found " ++
        Text.quotedOption extension
  | .tooLarge size max =>
      "File too large: " ++ toString size ++ " bytes (max: " ++ toString max ++ ")"
  | .empty => "File is empty"
  | .permissionDenied path => "Permission denied: " ++ path
  | .invalidEncoding path => "Invalid UTF-8 encoding in file: " ++ path
  | .io message => "I/O error reading file: " ++ message
  | .invalidPath path => "Invalid file path: " ++ path

/-- The code of a load error. -/
def code : LoadError → Code
  | .notFound _ => Code.fileNotFound
  | .invalidExtension _ => Code.invalidExtension
  | .tooLarge .. => Code.fileTooLarge
  | .empty => Code.emptyFile
  | .permissionDenied _ => Code.permissionDenied
  | .invalidEncoding _ => Code.invalidEncoding
  | .io _ => Code.ioError
  | .invalidPath _ => Code.invalidPath

/-- The category of a load error. -/
def category (e : LoadError) : String :=
  Code.category e.code

/-- Whether work may go on without the template. -/
def isRecoverable (e : LoadError) : Bool :=
  Code.isRecoverable e.code

/-- Whether a load error ends the run. -/
def requiresHalt (e : LoadError) : Bool :=
  Code.requiresHalt e.code

/-- What a disk error at a path comes to. -/
def ofDisk (path : String) : DiskError → LoadError
  | .notFound => .notFound path
  | .permissionDenied => .permissionDenied path
  | .invalidUtf8 => .invalidEncoding path
  | e => .io ("'" ++ path ++ "': " ++ e.message)

end LoadError
end Blade
