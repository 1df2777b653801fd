/-!
# Limits

The limits that the program is built with.  A profile sets them, and a build refuses one whose
limits do not fit together; the rest of the program works with the limits of any profile that a
build accepts.
-/

namespace Blade

/-- The limits that a build is made with. -/
structure Profile where
  maxFileSize : Nat
  largeFileThreshold : Nat
  maxBracketDepth : Nat
  maxTokenCount : Nat
  logBufferSize : Nat
  maxLogMessageLength : Nat
  deriving DecidableEq, Repr, Inhabited

namespace Profile

/-- A message in a list of its own when something is wrong. -/
def problemIf (wrong : Bool) (message : String) : List String :=
  if wrong then [message] else []

/-- What is wrong with the limits. -/
def problems (p : Profile) : List String :=
  problemIf (p.maxFileSize == 0) "max_file_size must be positive" ++
  problemIf (p.maxFileSize < p.largeFileThreshold)
    ("large_file_threshold (" ++ toString p.largeFileThreshold ++ ") exceeds max_file_size (" ++
      toString p.maxFileSize ++ ")") ++
  problemIf (p.maxBracketDepth == 0) "max_bracket_depth must be at least 1" ++
  problemIf (p.maxTokenCount == 0) "max_token_count must be at least 1" ++
  problemIf (p.logBufferSize == 0) "log_buffer_size must be at least 1" ++
  problemIf (p.maxLogMessageLength < 64)
    ("max_log_message_length (" ++ toString p.maxLogMessageLength ++ ") is below 64")

theorem problemIf_eq_nil_iff {wrong : Bool} {message : String} :
    problemIf wrong message = [] ↔ wrong = false := by
  cases wrong <;> simp [problemIf]

/-- When the limits fit together. -/
theorem problems_eq_nil_iff {p : Profile} : p.problems = [] ↔
    0 < p.maxFileSize ∧ p.largeFileThreshold ≤ p.maxFileSize ∧ 0 < p.maxBracketDepth ∧
      0 < p.maxTokenCount ∧ 0 < p.logBufferSize ∧ 64 ≤ p.maxLogMessageLength := by
  simp only [problems, List.append_eq_nil_iff, problemIf_eq_nil_iff, beq_eq_false_iff_ne,
    decide_eq_false_iff_not, Nat.not_lt, Nat.pos_iff_ne_zero, and_assoc]

end Profile

/-- The limits of a build: those of a profile with nothing wrong. -/
class Limits where
  profile : Profile
  consistent : profile.problems = []

namespace Limits
variable [Limits]

/-- The most brackets that may be open in an argument list, its own parenthesis included. -/
def bracketDepth : Nat := profile.maxBracketDepth

/-- The most tokens of a template, not counting the end of input. -/
def tokenCount : Nat := profile.maxTokenCount

/-- The size in bytes of the largest template. -/
def fileSize : Nat := profile.maxFileSize

/-- The size in bytes above which a template counts as large. -/
def largeFile : Nat := profile.largeFileThreshold

/-- How many events a bounded log keeps. -/
def logBuffer : Nat := profile.logBufferSize

/-- How many characters of a log message are kept. -/
def logMessage : Nat := profile.maxLogMessageLength

theorem bracketDepth_pos : 0 < bracketDepth :=
  (Profile.problems_eq_nil_iff.mp consistent).2.2.1

theorem tokenCount_pos : 0 < tokenCount :=
  (Profile.problems_eq_nil_iff.mp consistent).2.2.2.1

end Limits

end Blade
