import Blade.Log.Event

/-!
# Log — Recorder

The recorder of a program run.  It admits events up to a level, or none at all, and adds the file
being worked on to each.  Work on a file is bracketed: the file is set before it and cleared after
it.
-/

namespace Blade

/-- What has been logged, and under which file. -/
structure Recorder where
  /-- The last level admitted; nothing is recorded without one. -/
  minLevel : Option Level
  /-- Whether events are marked with the current file. -/
  marksFile : Bool
  /-- The file being worked on. -/
  file : Option String := none
  /-- What has been recorded. -/
  events : Array Event := #[]
  deriving Repr, Inhabited

namespace Recorder

/-- Whether events of a level are recorded. -/
def admits (r : Recorder) (level : Level) : Bool :=
  match r.minLevel with
  | some limit => level.admittedBy limit
  | none => false

/-- The event as it is recorded: with more context, and marked with the current file. -/
def marked (r : Recorder) (e : Event) (pairs : List (String × String)) : Event :=
  let e := e.setAll pairs
  match r.marksFile, r.file with
  | true, some file => e.set "file" file
  | _, _ => e

/-- Records an event with more context, if its level is admitted. -/
def emitWith (r : Recorder) (e : Event) (pairs : List (String × String)) : Recorder :=
  if r.admits e.level then { r with events := r.events.push (r.marked e pairs) } else r

/-- Records an event, if its level is admitted. -/
def emit (r : Recorder) (e : Event) : Recorder :=
  r.emitWith e []

/-- Records events in order. -/
def emitAll (r : Recorder) (events : List Event) : Recorder :=
  events.foldl emit r

/-- Sets the file being worked on. -/
def setFile (r : Recorder) (file : String) : Recorder :=
  { r with file := some file }

/-- Forgets the file being worked on. -/
def clearFile (r : Recorder) : Recorder :=
  { r with file := none }

/-- Does some work on a file; afterwards no file is being worked on. -/
def within {α : Type} (r : Recorder) (file : String) (work : Recorder → α × Recorder) :
    α × Recorder :=
  let (result, r) := work (r.setFile file)
  (result, r.clearFile)

end Recorder
end Blade
