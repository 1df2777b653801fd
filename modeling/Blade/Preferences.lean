import Blade.Text.Blank

/-!
# Preferences

What a user may choose about lexing: which directives open raw blocks, which of those is reported as
ordinary text, whether an open construct at the end of input is an error, and whether token metrics
are gathered.
-/

namespace Blade

/-- The choices that govern lexing. -/
structure Preferences where
  /-- Directive names whose bodies are copied up to `@endname`. -/
  rawFunctions : List String := ["js", "verbatim"]
  /-- The raw directive whose body is reported as text. -/
  transparent : String := "verbatim"
  /-- Whether a construct left open at the end of input is an error. -/
  strict : Bool := false
  /-- Whether metrics are gathered for each kind of token. -/
  detailedMetrics : Bool := true
  deriving DecidableEq, Repr, Inhabited

namespace Preferences

/-- Whether a directive opens a raw block. -/
def isRawFunction (p : Preferences) (name : String) : Bool :=
  p.rawFunctions.contains name

/-- Whether the raw block of a directive is reported as text. -/
def isTransparent (p : Preferences) (name : String) : Bool :=
  p.transparent == name

/-- Whether a name can follow an `@`: it has a letter and nothing but ASCII letters. -/
def isDirectiveName (name : String) : Bool :=
  !name.isEmpty && name.toList.all Text.isAsciiLetter

/-- The first raw directive name that no directive can have. -/
def invalidName? (p : Preferences) : Option String :=
  p.rawFunctions.find? (fun name => !isDirectiveName name)

end Preferences

theorem isDirectiveName_iff {name : String} : Preferences.isDirectiveName name = true ↔
    name.toList ≠ [] ∧ ∀ c ∈ name.toList, Text.isAsciiLetter c = true := by
  rw [Preferences.isDirectiveName, Bool.and_eq_true, List.all_eq_true]
  simp

end Blade
