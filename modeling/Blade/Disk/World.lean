import Blade.Disk.Tree

/-!
# Disk — World

What a program may do outside itself: look up a path, write a text to a file, read the clock.  A
tree is such a world, with a clock that stands still.
-/

namespace Blade

/-- The disk and the clock that a program works with. -/
structure World (m : Type → Type) where
  lookup (path : String) : m Lookup
  write (path text : String) : m (Except DiskError Unit)
  /-- The clock, in nanoseconds. -/
  now : m Nat

/-- The world that consists of a tree. -/
def Tree.world : World (StateM Tree) where
  lookup path := return (← get).lookup path
  write path text := fun tree =>
    match tree.write path text with
    | .ok tree => (.ok (), tree)
    | .error e => (.error e, tree)
  now := return 0

end Blade
