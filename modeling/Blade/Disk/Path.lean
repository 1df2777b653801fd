/-!
# Disk — Path

Paths as texts.  A path is read component by component: repeated and trailing slashes and single
dots count for nothing, except for a dot that starts a relative path.
-/

namespace Blade.Path

/-- The parts of a path between its slashes, empty ones included. -/
def parts (path : String) : List String :=
  path.splitOn "/"

/-- Whether a path starts at the root. -/
def isAbsolute (path : String) : Bool :=
  path.startsWith "/"

/-- The last component that counts, if it is a name. -/
def fileName? (path : String) : Option String :=
  match (parts path).reverse.find? (fun part => part != "" && part != ".") with
  | some ".." => none
  | last => last

/-- What follows the last dot of a name; none when no dot stands after its first character. -/
def extensionOf? (name : String) : Option String :=
  let cs := name.toList.reverse
  let suffix := cs.takeWhile (· != '.')
  match cs.drop suffix.length with
  | _ :: _ :: _ => some (String.ofList suffix.reverse)
  | _ => none

/-- The extension of a path's last component. -/
def extension? (path : String) : Option String :=
  (fileName? path).bind extensionOf?

/-- `path` continued by `next`, which replaces it when it starts at the root. -/
def join (path next : String) : String :=
  if isAbsolute next || path.isEmpty then next
  else if path.endsWith "/" then path ++ next
  else path ++ "/" ++ next

/-- The parts of a path, last one first, from the last one on that counts. -/
def dropIdle : List String → List String
  | [] => []
  | ["."] => ["."]
  | part :: rest => if part == "" || part == "." then dropIdle rest else part :: rest

/-- The path without its last component; none for the root and for nothing. -/
def parent? (path : String) : Option String :=
  match dropIdle (parts path).reverse with
  | [] => none
  | _ :: before =>
      match dropIdle before with
      | [] => some (if isAbsolute path then "/" else "")
      | before => some ("/".intercalate before.reverse)

end Blade.Path
