/-!
# Text — Fixed

Decimals with two places.  A quotient is rounded to the nearest hundredth, a tie going to the even
one, and written with both places.  A binary fraction is first taken apart into the exact quotient
it stands for, so that only one rounding takes place.
-/

namespace Blade.Text

/-- The integer nearest to `n / d`; of two equally near ones, the even one. -/
def roundEven (n d : Nat) : Nat :=
  let q := n / d
  let twice := 2 * (n % d)
  if twice < d then q else if d < twice then q + 1 else q + q % 2

/-- `hundredths / 100` with two places. -/
def hundredths (h : Nat) : String :=
  let frac := h % 100
  toString (h / 100) ++ "." ++ (if frac < 10 then "0" else "") ++ toString frac

/-- `n / d` rounded to two places. -/
def twoPlaces (n d : Nat) : String :=
  hundredths (roundEven (100 * n) d)

/-- `n / 1000` with three places. -/
def thousandths (n : Nat) : String :=
  let frac := n % 1000
  toString (n / 1000) ++ "." ++ (if frac < 10 then "00" else if frac < 100 then "0" else "") ++
    toString frac

/-- `2` to the power of `n`. -/
def powerOfTwo (n : Nat) : Nat :=
  Nat.pow 2 n

/-- `n` rounded to a binary fraction of 53 bits, which is what a double holds. -/
def toDouble (n : Nat) : Nat :=
  let bits := n.log2 + 1
  if bits ≤ 53 then n else roundEven n (powerOfTwo (bits - 53)) * powerOfTwo (bits - 53)

/-- A finite double that is not negative, as the exact quotient it stands for. -/
def quotient (x : Float) : Nat × Nat :=
  let bits := x.toBits.toNat
  let exponent := bits / powerOfTwo 52 % 2048
  let fraction := bits % powerOfTwo 52
  let mantissa := if exponent = 0 then fraction else fraction + powerOfTwo 52
  let shift := if exponent = 0 then 1 else exponent
  if 1075 ≤ shift then (mantissa * powerOfTwo (shift - 1075), 1)
  else (mantissa, powerOfTwo (1075 - shift))

/-- A finite double that is not negative, with two places. -/
def floatTwoPlaces (x : Float) : String :=
  let (n, d) := quotient x
  twoPlaces n d

end Blade.Text
