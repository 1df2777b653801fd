import Blade.Nesting
import Blade.Text.Blank
import Blade.Token.Basic

/-!
# Expression

The inside of an output expression: a value, then a chain of filters after single bars.  A filter is
a name with arguments after a colon; a segment without a name is no filter, and one empty argument
at the end of a list is dropped.
-/

namespace Blade

/-- A list without its last item when that is empty. -/
def dropEmptyLast (args : List (List Char)) : List (List Char) :=
  if args.getLast? = some [] then args.dropLast else args

/-- The filter that a segment writes; `none` when its name is blank. -/
def Filter.parse? (segment : List Char) : Option Filter :=
  let (name, args) := Text.cutFirst ':' segment
  match Text.trimChars name with
  | [] => none
  | name =>
      let args := dropEmptyLast ((splitTop ',' args).map Text.trimChars)
      some ⟨String.ofList name, args.map String.ofList⟩

/-- The value and the filters of an expression. -/
structure Expression where
  value : String
  filters : Option (List Filter)
  deriving DecidableEq, Repr, Inhabited

/-- Reads the inside of an output expression. -/
def Expression.parse (interior : String) : Expression :=
  let segments := splitBars interior.toList
  let value := String.ofList (Text.trimChars (segments.headD []))
  match segments.tail.filterMap Filter.parse? with
  | [] => ⟨value, none⟩
  | filters => ⟨value, some filters⟩

end Blade
