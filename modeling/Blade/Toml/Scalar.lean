import Blade.Toml.Text

/-!
# Toml — Scalar

TOML numbers, dates, times and booleans.  Digits may be separated by single underscores; a decimal
number has no leading zeros; an integer fits in 64 bits with its sign; a number with a fraction or
an exponent must not be too large for a double, where an exponent counts no further than the digit
that takes it to 65536 or more.  Dates are checked against the calendar, and a
minute may have 61 seconds.
-/

namespace Blade.Toml

/-- A decimal digit. -/
def isDigit (c : Char) : Bool :=
  '0' ≤ c && c ≤ '9'

/-- The digits at the front, which single underscores may separate, and what follows them. -/
def digitRun (accept : Char → Bool) (digits : List Char) : List Char → List Char × List Char
  | [] => (digits.reverse, [])
  | [c] => if accept c then ((c :: digits).reverse, []) else (digits.reverse, [c])
  | c :: d :: cs =>
      if accept c then digitRun accept (c :: digits) (d :: cs)
      else if c = '_' ∧ !digits.isEmpty ∧ accept d then digitRun accept (d :: digits) cs
      else (digits.reverse, c :: d :: cs)

/-- At least one digit. -/
def someDigits (accept : Char → Bool) (cs : List Char) : Except Error (List Char × List Char) :=
  match digitRun accept [] cs with
  | ([], _) => missing cs "digit"
  | (digits, rest) => .ok (digits, rest)

/-- The number that digits write in a base. -/
def digitsValue (base : Nat) (digits : List Char) : Nat :=
  digits.foldl (fun n d => base * n + (hexValue? d).getD 0) 0

/-- The number that digits write in a base, or `most` when it is greater. -/
def valueUpTo (base most : Nat) (digits : List Char) : Nat :=
  digits.foldl (fun n d => min most (base * n + (hexValue? d).getD 0)) 0

/-- The digits of a decimal integer without its sign: a zero alone, or a run that starts with no
zero. -/
def decimalDigits : List Char → Except Error (List Char × List Char)
  | '0' :: cs => .ok (['0'], cs)
  | cs => someDigits isDigit cs

/-- Whether a sign is next, whether it is a minus, and what follows it. -/
def readSign : List Char → Bool × Bool × List Char
  | '-' :: cs => (true, true, cs)
  | '+' :: cs => (true, false, cs)
  | cs => (false, false, cs)

/-! ### Integers and floating-point numbers -/

/-- Whether a digit belongs to a base. -/
def isDigitOf (base : Nat) (c : Char) : Bool :=
  match hexValue? c with
  | some d => d < base
  | none => false

/-- The least positive number that is no integer of 64 bits. -/
def integerBound : Nat := 9223372036854775808

/-- An integer in a base, after its mark. -/
def readInBase (base : Nat) (cs : List Char) : Except Error (Value × List Char) := do
  let (digits, rest) ← someDigits (isDigitOf base) cs
  let n := valueUpTo base integerBound digits
  if n < integerBound then .ok (.integer n, rest) else failAt cs .outOfRange

/-- The exponent that digits write; those after the digit that takes it to 65536 or more are passed
over. -/
def exponentValue (digits : List Char) : Nat :=
  digits.foldl (fun n d => if n < 65536 then 10 * n + (hexValue? d).getD 0 else n) 0

/-- The exponent of a floating-point number, if one is next. -/
def readExponent (cs : List Char) : Except Error (Option Int × List Char) :=
  match cs with
  | c :: rest =>
      if c = 'e' ∨ c = 'E' then do
        let (_, negative, rest) := readSign rest
        let (digits, rest) ← someDigits isDigit rest
        let n : Int := exponentValue digits
        .ok (some (if negative then -n else n), rest)
      else .ok (none, cs)
  | [] => .ok (none, [])

/-- The least number that rounds to infinity as a double. -/
def overflowBound : Nat := Nat.pow 2 1024 - Nat.pow 2 970

/-- The number of digits of `overflowBound`. -/
def overflowDigits : Nat := 309

/-- Whether a number is too large for a double that has these digits and this power of ten after
them.  Its order of magnitude decides, and where that is the bound's, its first digits do. -/
def overflows (digits : List Char) (exponent : Int) : Bool :=
  let digits := digits.dropWhile (· == '0')
  let magnitude : Int := digits.length + exponent
  if digits.isEmpty ∨ magnitude < overflowDigits then false
  else if overflowDigits < magnitude then true
  else
    let front := digits.take overflowDigits
    overflowBound ≤ digitsValue 10 front * Nat.pow 10 (overflowDigits - front.length)

/-- A floating-point number from its parts. -/
def floatValue (start : List Char) (negative : Bool) (whole fraction : List Char) (exponent : Int)
    (rest : List Char) : Except Error (Value × List Char) :=
  if !negative && overflows (whole ++ fraction) (exponent - fraction.length) then
    failAt start .outOfRange
  else .ok (.float, rest)

/-- A decimal number. -/
def readDecimal (start : List Char) : Except Error (Value × List Char) :=
  let (_, negative, cs) := readSign start
  match cs with
  | 'i' :: 'n' :: 'f' :: rest => .ok (.float, rest)
  | 'n' :: 'a' :: 'n' :: rest => .ok (.float, rest)
  | cs => do
      let (whole, rest) ← decimalDigits cs
      match rest with
      | '.' :: rest =>
          let (fraction, rest) ← someDigits isDigit rest
          let (exponent, rest) ← readExponent rest
          floatValue start negative whole fraction (exponent.getD 0) rest
      | rest =>
          let (exponent, rest) ← readExponent rest
          match exponent with
          | some exponent => floatValue start negative whole [] exponent rest
          | none =>
              let n : Int := valueUpTo 10 (integerBound + 1) whole
              let n := if negative then -n else n
              if -integerBound ≤ n ∧ n < integerBound then .ok (.integer n, rest)
              else failAt start .outOfRange

/-! ### Dates and times -/

/-- Exactly `n` digits, as a number no greater than `most`. -/
def fixedDigits (n most : Nat) (cs : List Char) : Except Error (Nat × List Char) :=
  let digits := cs.take n
  let value := digitsValue 10 digits
  if digits.length = n ∧ digits.all isDigit ∧ value ≤ most then .ok (value, cs.drop n)
  else missing cs "date or time"

/-- A character that has to be next. -/
def expectChar (c : Char) : List Char → Except Error (List Char)
  | d :: cs => if c = d then .ok cs else missing (d :: cs) c.toString
  | [] => missing [] c.toString

/-- The number of days of a month. -/
def daysOf (year month : Nat) : Nat :=
  if month = 2 then
    if year % 4 = 0 ∧ (year % 100 ≠ 0 ∨ year % 400 = 0) then 29 else 28
  else if month = 4 ∨ month = 6 ∨ month = 9 ∨ month = 11 then 30
  else 31

/-- A date. -/
def readDate (cs : List Char) : Except Error (List Char) := do
  let (year, cs) ← fixedDigits 4 9999 cs
  let cs ← expectChar '-' cs
  let (month, cs) ← fixedDigits 2 12 cs
  let cs ← expectChar '-' cs
  let (day, rest) ← fixedDigits 2 31 cs
  if month = 0 ∨ day = 0 ∨ daysOf year month < day then failAt cs .outOfRange else .ok rest

/-- A time, with a fraction of a second if one is given. -/
def readTime (cs : List Char) : Except Error (List Char) := do
  let (_, cs) ← fixedDigits 2 23 cs
  let cs ← expectChar ':' cs
  let (_, cs) ← fixedDigits 2 59 cs
  let cs ← expectChar ':' cs
  let (_, cs) ← fixedDigits 2 60 cs
  match cs with
  | '.' :: rest =>
      match rest.takeWhile isDigit with
      | [] => missing rest "digit"
      | digits => .ok (rest.drop digits.length)
  | cs => .ok cs

/-- The offset of a time from universal time, if one is given. -/
def readOffset (cs : List Char) : Except Error (List Char) :=
  match cs with
  | c :: rest =>
      if c = 'Z' ∨ c = 'z' then .ok rest
      else if c = '+' ∨ c = '-' then do
        let (_, rest) ← fixedDigits 2 23 rest
        let rest ← expectChar ':' rest
        let (_, rest) ← fixedDigits 2 59 rest
        .ok rest
      else .ok cs
  | [] => .ok []

/-- Whether a time starts here: two digits and a colon. -/
def startsTime (cs : List Char) : Bool :=
  match cs with
  | a :: b :: ':' :: _ => isDigit a && isDigit b
  | _ => false

/-- Whether a date starts here: four digits and a hyphen. -/
def startsDate (cs : List Char) : Bool :=
  match cs with
  | a :: b :: c :: d :: '-' :: _ => [a, b, c, d].all isDigit
  | _ => false

/-- A date, and a time with an offset if one follows it. -/
def readDateTime (cs : List Char) : Except Error (List Char) := do
  let rest ← readDate cs
  match rest with
  | c :: after =>
      if (c = 'T' ∨ c = 't' ∨ c = ' ') ∧ startsTime after then readOffset (← readTime after)
      else .ok rest
  | [] => .ok []

/-- A number, a date or a time. -/
def readNumber (cs : List Char) : Except Error (Value × List Char) :=
  if startsDate cs then (readDateTime cs).map fun rest => (.datetime, rest)
  else if startsTime cs then (readTime cs).map fun rest => (.datetime, rest)
  else
    match cs with
    | '0' :: 'x' :: rest => readInBase 16 rest
    | '0' :: 'o' :: rest => readInBase 8 rest
    | '0' :: 'b' :: rest => readInBase 2 rest
    | cs => readDecimal cs

/-- A value that holds no other values. -/
def readScalar (cs : List Char) : Except Error (Value × List Char) :=
  match cs with
  | 't' :: 'r' :: 'u' :: 'e' :: rest => .ok (.boolean true, rest)
  | 'f' :: 'a' :: 'l' :: 's' :: 'e' :: rest => .ok (.boolean false, rest)
  | '"' :: _ | '\'' :: _ => do
      let (s, rest) ← readString cs
      .ok (.string s, rest)
  | cs => readNumber cs

end Blade.Toml
