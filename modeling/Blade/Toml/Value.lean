/-!
# Toml — Value

TOML values, and what can be wrong with a TOML document.
-/

namespace Blade.Toml

/-- A TOML value.  No setting takes a floating-point number, a date or a time: of these, only the
kind is kept. -/
inductive Value where
  | string (value : String)
  | integer (value : Int)
  | float
  | boolean (value : Bool)
  | datetime
  | array (items : List Value)
  | table (entries : List (String × Value))
  deriving Repr, Inhabited

/-- Why a text is no TOML document. -/
inductive Reason where
  /-- Something else was to stand here. -/
  | expected (what : String)
  /-- A number that no number of its kind is. -/
  | outOfRange
  /-- A key that is defined already. -/
  | duplicateKey (key : String)
  /-- Values nested too deep. -/
  | tooDeep
  deriving DecidableEq, Repr, Inhabited

/-- The message of a reason. -/
def Reason.message : Reason → String
  | .expected what => "expected " ++ what
  | .outOfRange => "number out of range"
  | .duplicateKey key => "duplicate key `" ++ key ++ "`"
  | .tooDeep => "nested too deep"

/-- A reason and how many characters were left to read. -/
structure Error where
  reason : Reason
  left : Nat
  deriving DecidableEq, Repr, Inhabited

/-- Fails where `rest` starts. -/
def failAt {α : Type} (rest : List Char) (reason : Reason) : Except Error α :=
  .error ⟨reason, rest.length⟩

/-- Fails where `rest` starts, for want of something. -/
def missing {α : Type} (rest : List Char) (what : String) : Except Error α :=
  failAt rest (.expected what)

end Blade.Toml
