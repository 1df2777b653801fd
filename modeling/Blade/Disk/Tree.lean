import Blade.Disk.Lookup
import Blade.Disk.Path

/-!
# Disk — Tree

A tree of directories, files and symbolic links, and how a path is looked up in it.  Every part of a
path but the last has to be a directory; a link stands for the path it holds, read from the
directory it is in, and no more than forty of them are followed.

The last part may be a name that is still free in its directory: a file that is written is made
there, also where a link leads to such a name.
-/

namespace Blade

/-- What a tree holds at a place. -/
inductive Entry where
  | directory
  | file (content : Content)
  | link (target : String)
  | device

/-- A tree: its entries by the names on the way from the root.  The root itself is a directory. -/
structure Tree where
  entries : List (List String × Entry)
  /-- Where relative paths start. -/
  working : List String

namespace Tree

/-- The entry at a place. -/
def entry? (t : Tree) (place : List String) : Option Entry :=
  if place.isEmpty then some .directory else t.entries.lookup place

/-- The tree with an entry at a place. -/
def set (t : Tree) (place : List String) (entry : Entry) : Tree :=
  { t with entries := (place, entry) :: t.entries.filter (fun (p, _) => p != place) }

/-! ### Following a path -/

/-- The number of bytes from which on a path is too long. -/
def pathLimit : Nat := 4096

/-- The most bytes that a name may have. -/
def nameLimit : Nat := 255

/-- The most links that are followed. -/
def linkLimit : Nat := 40

/-- The steps of a path: its names and dots, and an empty one after a slash that ends the path,
where only a directory may stand. -/
def steps (path : String) : List String :=
  let parts := Path.parts path
  let names := parts.filter (· != "")
  if parts.getLast? = some "" ∧ !names.isEmpty then names ++ [""] else names

/-- Where a path starts that is read from `place`. -/
def startOf (path : String) (place : List String) : List String :=
  if Path.isAbsolute path then [] else place

/-- Follows steps from a place, through no more than `links` links, to a place and its entry; the
last name may be free.  A file to be written cannot stand before a slash that ends the path. -/
def walk (t : Tree) (writing : Bool) (links : Nat) (place : List String) (todo : List String) :
    Except DiskError (List String × Option Entry) :=
  match todo with
  | [] =>
      match t.entry? place with
      | some entry => .ok (place, some entry)
      | none => .error .notFound
  | step :: rest =>
      match t.entry? place with
      | some .directory =>
          if step = "" ∨ step = "." then walk t writing links place rest
          else if step = ".." then walk t writing links place.dropLast rest
          else if writing ∧ rest = [""] then .error .isDirectory
          else if nameLimit < step.utf8ByteSize then .error .nameTooLong
          else
            match t.entry? (place ++ [step]) with
            | some (.link target) =>
                match links with
                | 0 => .error .tooManyLinks
                | links + 1 => walk t writing links (startOf target place) (steps target ++ rest)
            | some _ => walk t writing links (place ++ [step]) rest
            | none => if rest.isEmpty then .ok (place ++ [step], none) else .error .notFound
      | some _ => .error .notDirectory
      | none => .error .notFound
termination_by (links, todo.length)

/-- The place that a path leads to, and its entry unless the place is free. -/
def resolve (t : Tree) (writing : Bool) (path : String) :
    Except DiskError (List String × Option Entry) :=
  if path.isEmpty then .error .notFound
  else if path.contains '\x00' then .error .nulInPath
  else if pathLimit ≤ path.utf8ByteSize then .error .nameTooLong
  else t.walk writing linkLimit (startOf path t.working) (steps path)

/-! ### Reading and writing -/

/-- The path of a place. -/
def pathOf (place : List String) : Except DiskError String :=
  let path := "/" ++ "/".intercalate place
  if pathLimit ≤ path.utf8ByteSize then .error .nameTooLong else .ok path

/-- Looks up a path. -/
def lookup (t : Tree) (path : String) : Lookup :=
  match t.resolve false path with
  | .error e => .error e
  | .ok (_, none) => .error .notFound
  | .ok (_, some .directory) => .ok .directory
  | .ok (place, some (.file content)) => .ok (.file (pathOf place) content.size (.ok content))
  | .ok _ => .ok .device

/-- Puts a content where a walk has led: into a file, which is made at a free place, or nowhere when
it is a device. -/
def store (t : Tree) (content : Content) :
    Except DiskError (List String × Option Entry) → Except DiskError Tree
  | .error e => .error e
  | .ok (_, some .directory) => .error .isDirectory
  | .ok (_, some .device) => .ok t
  | .ok (place, _) => .ok (t.set place (.file content))

/-- Writes a text to a file, which is made if its directory is there. -/
def write (t : Tree) (path : String) (text : String) : Except DiskError Tree :=
  t.store (.ofText text) (t.resolve true path)

/-! ### Building a tree -/

/-- Follows steps from a place and makes a directory at each name that is free; the tree, and the
place that is reached unless something else is in the way. -/
def makeWay (t : Tree) (place : List String) : List String → Tree × Option (List String)
  | [] => (t, some place)
  | step :: rest =>
      match t.walk false linkLimit place [step] with
      | .ok (next, some .directory) => makeWay t next rest
      | .ok (next, none) =>
          if next = place ++ [step] then makeWay (t.set next .directory) next rest else (t, none)
      | _ => (t, none)

/-- The tree with an entry at a name in a directory.  A content goes through a link that is there;
anything else takes a free name only. -/
def put (t : Tree) (directory : List String) (name : String) : Entry → Tree
  | .file content =>
      match t.store content (t.walk true linkLimit directory [name]) with
      | .ok t => t
      | .error _ => t
  | entry =>
      let place := directory ++ [name]
      if (t.entry? place).isNone then t.set place entry else t

/-- The tree with an entry at a path from the working directory, the directories on the way made. -/
def add (t : Tree) (path : String) : Entry → Tree
  | .directory => (t.makeWay (startOf path t.working) (steps path)).1
  | entry =>
      match t.makeWay (startOf path t.working) (steps ((Path.parent? path).getD "")),
        Path.fileName? path with
      | (t, some directory), some name => t.put directory name entry
      | (t, _), _ => t

end Tree
end Blade
