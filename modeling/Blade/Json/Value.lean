/-!
# Json — Value

JSON values.  A number is kept as an integer or as a decimal that is none; an object keeps its
fields in order.
-/

namespace Blade

/-- A JSON value. -/
inductive Json where
  | null
  | bool (value : Bool)
  | int (value : Int)
  /-- A number `mantissa / 10 ^ places` written with a fraction. -/
  | decimal (mantissa : Int) (places : Nat)
  | str (value : String)
  | arr (items : List Json)
  | obj (fields : List (String × Json))
  deriving Repr, Inhabited

namespace Json

/-- The integer of a natural number. -/
def nat (n : Nat) : Json :=
  .int n

/-- A list of strings. -/
def strings (items : List String) : Json :=
  .arr (items.map .str)

/-- The value of the field `name` of an object. -/
def field? (name : String) : Json → Option Json
  | .obj fields => fields.lookup name
  | _ => none

/-- The text of a string. -/
def str? : Json → Option String
  | .str value => some value
  | _ => none

/-- The value of a boolean. -/
def bool? : Json → Option Bool
  | .bool value => some value
  | _ => none

/-- The value of an integer from 0 up to, but not including, `bound`. -/
def nat? (bound : Nat) : Json → Option Nat
  | .int value => if 0 ≤ value ∧ value < bound then some value.toNat else none
  | _ => none

/-- The items of an array that holds strings only. -/
def strings? : Json → Option (List String)
  | .arr items => items.mapM str?
  | _ => none

end Json
end Blade
