/-!
# Disk — Lookup

What looking up a path may show: a directory, a file with its size and content, something else, or
the reason why there is nothing to see.
-/

namespace Blade

/-- Why a path or a file cannot be used. -/
inductive DiskError where
  | notFound
  | notDirectory
  | isDirectory
  | tooManyLinks
  | nameTooLong
  | permissionDenied
  | nulInPath
  | invalidUtf8
  | other (message : String)
  deriving DecidableEq, Repr, Inhabited

/-- The message of a disk error. -/
def DiskError.message : DiskError → String
  | .notFound => "No such file or directory (os error 2)"
  | .notDirectory => "Not a directory (os error 20)"
  | .isDirectory => "Is a directory (os error 21)"
  | .tooManyLinks => "Too many levels of symbolic links (os error 40)"
  | .nameTooLong => "File name too long (os error 36)"
  | .permissionDenied => "Permission denied (os error 13)"
  | .nulInPath => "file name contained an unexpected NUL byte"
  | .invalidUtf8 => "stream did not contain valid UTF-8"
  | .other message => message

/-- The content of a file: bytes, or so many zero bytes that take no space. -/
inductive Content where
  | bytes (data : ByteArray)
  | zeros (count : Nat)

namespace Content

/-- The content of a text. -/
def ofText (s : String) : Content :=
  .bytes s.toUTF8

/-- The number of bytes. -/
def size : Content → Nat
  | .bytes data => data.size
  | .zeros count => count

/-- The text that the bytes encode. -/
def text : Content → Except DiskError String
  | .bytes data =>
      match String.fromUTF8? data with
      | some s => .ok s
      | none => .error .invalidUtf8
  | .zeros count => .ok ("".pushn '\x00' count)

end Content

/-- What stands at the end of a path. -/
inductive Found where
  | directory
  /-- A file with its path without links, which may be too long to be said, its size, and its
  content if it can be read. -/
  | file (canonical : Except DiskError String) (size : Nat) (content : Except DiskError Content)
  /-- A device, which reads as nothing. -/
  | device

/-- What looking up a path shows. -/
abbrev Lookup := Except DiskError Found

/-- The text of the file that a lookup shows. -/
def Lookup.readText : Lookup → Except DiskError String
  | .error e => .error e
  | .ok .directory => .error .isDirectory
  | .ok .device => .ok ""
  | .ok (.file _ _ content) => content.bind Content.text

end Blade
