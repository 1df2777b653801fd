import Blade.Limits

/-!
# Limits — Development

The limits of the default build.
-/

namespace Blade

/-- The profile of a build that names no other. -/
def Profile.development : Profile where
  maxFileSize := 10485760
  largeFileThreshold := 1048576
  maxBracketDepth := 256
  maxTokenCount := 1000000
  logBufferSize := 10000
  maxLogMessageLength := 4096

namespace Limits

instance development : Limits where
  profile := .development
  consistent := by decide

/-- Where the limits come from. -/
def origin : String := "Generated from config/development.toml"

end Limits

end Blade
