/-!
# Text — Ranges

Sets of characters given as sorted, disjoint ranges of code points, searched by halving.
-/

namespace Blade.Text

/-- A set of code points: its ranges, both ends included, in increasing order. -/
abbrev Ranges := Array (Nat × Nat)

namespace Ranges

/-- The index of the first range from `lo` on whose end is not below `n`, looking at no more than
`width` ranges. -/
def search (ranges : Ranges) (n lo width : Nat) : Nat :=
  if _h : width = 0 then lo
  else
    let half := width / 2
    match ranges[lo + half]? with
    | some (_, last) =>
        if last < n then search ranges n (lo + half + 1) (width - half - 1)
        else search ranges n lo half
    | none => lo
termination_by width

/-- Whether a code point lies in one of the ranges. -/
def contains (ranges : Ranges) (n : Nat) : Bool :=
  match ranges[ranges.search n 0 ranges.size]? with
  | some (first, last) => first ≤ n && n ≤ last
  | none => false

end Ranges
end Blade.Text
