import Blade.Log.Event

/-!
# Log — Bounded

A log of bounded length: once it is full, each new event drives out the oldest one.  A filter in
front of it admits events up to a level.
-/

namespace Blade

/-- A log that keeps the newest events. -/
structure BoundedLog where
  /-- How many events are kept. -/
  limit : Nat
  /-- How many events there are. -/
  size : Nat := 0
  /-- The older events, oldest first. -/
  older : List Event := []
  /-- The newer events, newest first. -/
  newer : List Event := []
  deriving Repr, Inhabited

namespace BoundedLog

/-- An empty log; it keeps at least one event. -/
def ofCapacity (capacity : Nat) : BoundedLog :=
  { limit := max capacity 1 }

/-- The events kept, oldest first. -/
def toList (log : BoundedLog) : List Event :=
  log.older ++ log.newer.reverse

/-- The log without its oldest event. -/
def dropOldest (log : BoundedLog) : BoundedLog :=
  match log.older with
  | _ :: older => { log with older, size := log.size - 1 }
  | [] =>
      match log.newer.reverse with
      | _ :: older => { log with older, newer := [], size := log.size - 1 }
      | [] => log

/-- The log with one more event, without its oldest one when it was full. -/
def push (log : BoundedLog) (e : Event) : BoundedLog :=
  let log := if log.size = log.limit then log.dropOldest else log
  { log with newer := e :: log.newer, size := log.size + 1 }

/-- Whether an error with a code is kept. -/
def hasError (log : BoundedLog) (code : Code) : Bool :=
  log.toList.any fun e => e.isError && e.hasCode code

/-- Whether an event with a code is kept that is no error. -/
def hasSuccess (log : BoundedLog) (code : Code) : Bool :=
  log.toList.any fun e => !e.isError && e.hasCode code

/-- The log after an event was offered to it through a filter. -/
def offer (log : BoundedLog) (minLevel : Level) (e : Event) : BoundedLog :=
  if e.level.admittedBy minLevel then log.push e else log

end BoundedLog
end Blade
