import Blade.CommandLine.Run
import Blade.Limits.Development
import Std.Time.Format

/-!
# Main

The program on the disk and the clock of the machine it runs on.
-/

namespace Blade.Machine

/-- The error with a number, which some calls give with its sign turned. -/
def numberedError (number : UInt32) (details : String) : DiskError :=
  match if number < 0x80000000 then number.toNat else (0 - number).toNat with
  | 20 => .notDirectory
  | 21 => .isDirectory
  | 36 => .nameTooLong
  | 40 => .tooManyLinks
  | n => .other (details ++ " (os error " ++ toString n ++ ")")

/-- What an error of the machine comes to. -/
def diskError : IO.Error → DiskError
  | .noFileOrDirectory .. => .notFound
  | .permissionDenied .. => .permissionDenied
  | .inappropriateType _ number details | .invalidArgument _ number details
  | .otherError number details => numberedError number details
  | e => .other (toString e)

/-- Does something with the disk. -/
def attempt {α : Type} (action : IO α) : IO (Except DiskError α) := do
  try
    return .ok (← action)
  catch e => return .error (diskError e)

/-- The size in bytes from which on a file is not read. -/
def unreadable : Nat := 1073741824

/-- What a path leads to. -/
def lookup (path : String) : IO Lookup := do
  let canonical ← attempt (IO.FS.realPath path)
  let place := canonical.toOption.getD path
  match ← attempt place.metadata with
  | .error e => return .error e
  | .ok info =>
      let size := info.byteSize.toNat
      match info.type with
      | .dir => return .ok .directory
      | .file =>
          let content ←
            if size < unreadable then attempt (Content.bytes <$> IO.FS.readBinFile place)
            else pure (.error (.other "file too large to read"))
          return .ok (.file (canonical.map toString) size content)
      | _ => return .ok .device

/-- The disk and the clock of the machine. -/
def world : World IO where
  lookup := lookup
  write path text := attempt (IO.FS.writeFile path text)
  now := IO.monoNanosNow

/-- The variables that settings depend on, as far as they are set. -/
def environment : IO Environment :=
  Environment.variableNames.filterMapM fun name => do
    return (← IO.getEnv name).map fun value => (name, value)

/-- The time of day, in universal time. -/
def timestamp : IO String := do
  let time := Std.Time.WallTime.ofTimestamp (← Std.Time.Timestamp.now) .zero
  return (Std.Time.PlainDateTime.ofWallTime time).format
    "uuuu-MM-dd'T'HH:mm:ss.SSSSSSSSS'+00:00'"

end Blade.Machine

/-- Runs the program with the words after its name. -/
def main (words : List String) : IO UInt32 := do
  let outcome ← Blade.CommandLine.run Blade.Machine.world (← Blade.Machine.environment) words
  let time ← Blade.Machine.timestamp
  let stderr ← IO.getStderr
  for notice in outcome.notices do
    stderr.putStrLn (notice.text time)
  let stdout ← IO.getStdout
  stdout.putStr outcome.output
  stdout.flush
  return outcome.exit.toUInt32
