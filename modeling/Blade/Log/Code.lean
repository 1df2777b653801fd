/-!
# Log — Code

Short stable codes for errors and completed operations, such as `E020`.  The registry classifies
each code; a code that is not in it is of unknown category, recoverable and no reason to halt.
-/

namespace Blade

/-- How much a coded event matters, the most serious first. -/
inductive Severity where
  | critical | high | medium | low
  deriving DecidableEq, Repr, Inhabited

namespace Severity

/-- The name of a severity. -/
def name : Severity → String
  | .critical => "Critical"
  | .high => "High"
  | .medium => "Medium"
  | .low => "Low"

/-- The rank of a severity, from 0 for the most serious. -/
def rank : Severity → Nat
  | .critical => 0
  | .high => 1
  | .medium => 2
  | .low => 3

end Severity

/-- What the registry says about a code. -/
structure CodeEntry where
  code : String
  category : String
  severity : Severity
  recoverable : Bool
  requiresHalt : Bool
  description : String
  action : String
  deriving Repr, Inhabited

/-- A code, such as `E020`. -/
abbrev Code := String

namespace Code

/-! ### The codes in use

`E` codes report errors: of settings from 001, of files from 005, of lexing from 020.  `I` codes
report completed operations. -/

def configRead : Code := "E001"
def configInvalid : Code := "E002"
def configRawFunction : Code := "E003"
def fileNotFound : Code := "E005"
def invalidExtension : Code := "E006"
def fileTooLarge : Code := "E007"
def emptyFile : Code := "E008"
def permissionDenied : Code := "E009"
def invalidEncoding : Code := "E010"
def ioError : Code := "E011"
def invalidPath : Code := "E012"
def bracketMismatch : Code := "E020"
def unterminatedBlock : Code := "E021"
def nestingTooDeep : Code := "E022"
def tooManyTokens : Code := "E023"
def loggingReady : Code := "I004"
def templateLoaded : Code := "I006"
def tokenizationComplete : Code := "I020"

/-! ### The registry -/

/-- All codes in use. -/
def registry : List CodeEntry :=
  [ ⟨configRead, "Configuration", .high, false, true,
      "Configuration file could not be read",
      "Check the --config path and its permissions"⟩,
    ⟨configInvalid, "Configuration", .high, false, true,
      "Configuration file is not valid TOML for this tool",
      "Compare the file against the documented sections"⟩,
    ⟨configRawFunction, "Configuration", .medium, false, true,
      "Raw directive name contains characters other than ASCII letters",
      "Use plain directive names such as 'verbatim' or 'js'"⟩,
    ⟨fileNotFound, "FileProcessing", .medium, false, true,
      "Template not found at the given path",
      "Check the path passed to blade-lex"⟩,
    ⟨invalidExtension, "FileProcessing", .low, true, false,
      "File does not have a .blade or .blade.html extension",
      "Rename the template or disable the extension requirement"⟩,
    ⟨fileTooLarge, "FileProcessing", .high, false, true,
      "File exceeds the maximum template size",
      "Split the template into smaller partials"⟩,
    ⟨emptyFile, "FileProcessing", .low, true, false,
      "File is empty",
      "Add template content or remove the file"⟩,
    ⟨permissionDenied, "FileProcessing", .medium, false, true,
      "Template is not readable by this process",
      "Check the file permissions"⟩,
    ⟨invalidEncoding, "FileProcessing", .medium, false, true,
      "File is not valid UTF-8",
      "Re-save the template with UTF-8 encoding"⟩,
    ⟨ioError, "FileProcessing", .medium, false, true,
      "I/O error while reading file",
      "Retry or check the underlying storage"⟩,
    ⟨invalidPath, "FileProcessing", .medium, false, true,
      "Path does not point to a regular file",
      "Pass the path of a template file"⟩,
    ⟨bracketMismatch, "Lexical", .high, false, true,
      "Closing bracket does not match the innermost open bracket",
      "Balance the brackets inside the directive or echo"⟩,
    ⟨unterminatedBlock, "Lexical", .high, false, true,
      "Construct still open at end of input",
      "Close the comment, echo, argument list or raw block"⟩,
    ⟨nestingTooDeep, "Lexical", .high, false, true,
      "Brackets nested deeper than the configured limit",
      "Simplify the expression"⟩,
    ⟨tooManyTokens, "Lexical", .critical, false, true,
      "Template produced more tokens than the configured limit",
      "Split the template into smaller partials"⟩,
    ⟨loggingReady, "System", .low, true, false,
      "Logging system initialized",
      "None"⟩,
    ⟨templateLoaded, "FileProcessing", .low, true, false,
      "File read and validated",
      "None"⟩,
    ⟨tokenizationComplete, "Lexical", .low, true, false,
      "Tokenization completed",
      "Token stream ready for parsing"⟩ ]

/-- The registry entry of a code. -/
def entry? (code : Code) : Option CodeEntry :=
  registry.find? (fun entry => entry.code == code)

/-- The category of a code. -/
def category (code : Code) : String :=
  match entry? code with
  | some entry => entry.category
  | none => "Unknown"

/-- Whether work may go on after an event with this code. -/
def isRecoverable (code : Code) : Bool :=
  match entry? code with
  | some entry => entry.recoverable
  | none => true

/-- Whether an event with this code ends the run. -/
def requiresHalt (code : Code) : Bool :=
  match entry? code with
  | some entry => entry.requiresHalt
  | none => false

end Code
end Blade
