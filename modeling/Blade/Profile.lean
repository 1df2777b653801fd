import Blade.Disk.World
import Blade.Limits
import Blade.Settings.Toml

/-!
# Profile

Build profiles.  A profile is read from a TOML document that sets every limit and nothing else,
checked for limits that do not fit together, and written out as a file of constants.
-/

namespace Blade

/-! ### Reading -/

namespace Document

/-- The values of named fields, all of which have to be there: those of a record that has no others,
or the first items of a list. -/
def exactFields? (names : List String) : Document → Option (List Document)
  | .record fields =>
      if fields.all fun (name, _) => names.contains name then
        names.mapM fun name => fields.lookup name
      else none
  | .list items => if names.length ≤ items.length then some (items.take names.length) else none
  | _ => none

/-- A number that is not negative. -/
def natural? : Document → Option Nat
  | .number n => if 0 ≤ n then some n.toNat else none
  | _ => none

/-- A section of two limits. -/
def limitPair? (first second : String) (d : Document) : Option (Nat × Nat) :=
  match d.exactFields? [first, second] with
  | some [a, b] => do return (← a.natural?, ← b.natural?)
  | _ => none

end Document

namespace Profile

/-- Reads a profile. -/
def ofDocument? (d : Document) : Option Profile :=
  match d.exactFields? ["file_processing", "lexical", "logging"] with
  | some [files, lexical, log] => do
      let (maxFileSize, largeFileThreshold) ←
        files.limitPair? "max_file_size" "large_file_threshold"
      let (maxBracketDepth, maxTokenCount) ←
        lexical.limitPair? "max_bracket_depth" "max_token_count"
      let (logBufferSize, maxLogMessageLength) ←
        log.limitPair? "log_buffer_size" "max_log_message_length"
      return ⟨maxFileSize, largeFileThreshold, maxBracketDepth, maxTokenCount, logBufferSize,
        maxLogMessageLength⟩
  | _ => none

/-- Reads a profile from the text of a TOML document; without success it gives a message. -/
def ofToml (text : String) : Except String Profile :=
  match Toml.parse text with
  | .error e => .error (e.message text)
  | .ok entries =>
      match ofDocument? (.record (Document.ofEntries entries)) with
      | some profile => .ok profile
      | none => .error "TOML parse error: the limits are not those of a build profile\n"

/-! ### Writing -/

/-- The limits by section: the name, the type and the value of each constant. -/
def sections (p : Profile) : List (String × List (String × String × Nat)) :=
  [("file_processing",
      [("MAX_FILE_SIZE", "u64", p.maxFileSize),
        ("LARGE_FILE_THRESHOLD", "u64", p.largeFileThreshold)]),
    ("lexical",
      [("MAX_BRACKET_DEPTH", "usize", p.maxBracketDepth),
        ("MAX_TOKEN_COUNT", "usize", p.maxTokenCount)]),
    ("logging",
      [("LOG_BUFFER_SIZE", "usize", p.logBufferSize),
        ("MAX_LOG_MESSAGE_LENGTH", "usize", p.maxLogMessageLength)])]

/-- The line of a constant. -/
def constantLine (name type : String) (value : Nat) : String :=
  "        pub const " ++ name ++ ": " ++ type ++ " = " ++ toString value ++ ";\n"

/-- The lines of a section. -/
def sectionText (name : String) (constants : List (String × String × Nat)) : String :=
  "    pub mod " ++ name ++ " \x7b\n" ++
    constants.foldl (fun out (name, type, value) => out ++ constantLine name type value) "" ++
    "    \x7d\n"

/-- The file of constants for a profile of a name. -/
def constants (p : Profile) (name : String) : String :=
  "// Generated by build.rs from the `" ++ name ++ "` profile\n\npub mod compile_time \x7b\n" ++
    p.sections.foldl (fun out (name, constants) => out ++ sectionText name constants) "" ++
    "\x7d\n"

/-! ### Building -/

/-- What a build step printed, and its message if it failed. -/
structure BuildReport where
  printed : String
  failure : Option String
  deriving DecidableEq, Repr, Inhabited

/-- What is said when a variable is not set. -/
def unsetVariable : String := "environment variable not found"

/-- The path of the file of a profile: in a directory beside that of the manifest. -/
def path (env : Environment) (name : String) : Except String String :=
  match env.lookup "CARGO_MANIFEST_DIR" with
  | none => .error unsetVariable
  | some manifest =>
      match Path.parent? manifest with
      | none => .error (manifest ++ " has no parent directory")
      | some root =>
          let directory := Path.join root ((env.lookup "BLADE_CONFIG_DIR").getD "config")
          .ok (Path.join directory (name ++ ".toml"))

/-- The consistent profile in the file that a lookup of `path` shows. -/
def ofFile (path : String) (found : Lookup) : Except String Profile :=
  match found.readText with
  | .error e => .error ("cannot read build profile " ++ path ++ ": " ++ e.message)
  | .ok text =>
      match ofToml text with
      | .error message => .error ("invalid build profile " ++ path ++ ": " ++ message)
      | .ok profile =>
          match profile.problems with
          | [] => .ok profile
          | problems =>
              .error ("build profile " ++ path ++ " is inconsistent:\n  - " ++
                "\n  - ".intercalate problems)

/-- The limits in the file of a build fit together. -/
theorem problems_of_ofFile {path : String} {found : Lookup} {profile : Profile}
    (h : ofFile path found = .ok profile) : profile.problems = [] := by
  unfold ofFile at h
  split at h
  · cases h
  · split at h
    · cases h
    · split at h
      · next hnone =>
          cases h
          exact hnone
      · cases h

/-- Whether a lookup shows a regular file. -/
def isFile : Lookup → Bool
  | .ok (.file ..) => true
  | _ => false

/-- Writes the constants of a profile to the output directory. -/
def writeConstants {m : Type → Type} [Monad m] (world : World m) (env : Environment)
    (name : String) (profile : Profile) : m (Option String) := do
  match env.lookup "OUT_DIR" with
  | none => return some ("OUT_DIR: " ++ unsetVariable)
  | some directory =>
      let output := Path.join directory "constants.rs"
      match ← world.write output (profile.constants name) with
      | .ok () => return none
      | .error e => return some ("cannot write " ++ output ++ ": " ++ e.message)

/-- The build step: reads the profile that the environment names, checks it and writes its constants
to the output directory. -/
def build {m : Type → Type} [Monad m] (world : World m) (env : Environment) : m BuildReport := do
  let name := (env.lookup "BLADE_BUILD_PROFILE").getD "development"
  match path env name with
  | .error message => return ⟨"", some message⟩
  | .ok path =>
      let found ← world.lookup path
      if isFile found then
        let printed := "cargo:rerun-if-changed=" ++ path ++ "\n"
        match ofFile path found with
        | .error message => return ⟨printed, some message⟩
        | .ok profile => return ⟨printed, ← writeConstants world env name profile⟩
      else return ⟨"", some ("build profile not found: " ++ path)⟩

end Profile
end Blade
