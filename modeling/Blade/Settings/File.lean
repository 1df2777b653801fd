import Blade.Disk.Lookup
import Blade.Settings.Toml

/-!
# Settings — File

Settings read from a settings file.
-/

namespace Blade

/-- Settings from the file that a lookup of `path` shows; what is missing comes from `fallback`. -/
def Settings.ofFile (fallback : Settings) (path : String) (found : Lookup) :
    Except SettingsError Settings :=
  match found.readText with
  | .ok text => Settings.ofToml fallback text
  | .error e => .error (.unreadable path e.message)

end Blade
