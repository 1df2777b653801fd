/-!
# Text — Blank

Blank characters are those with the `White_Space` property; trimming removes them from both ends
of a text.  A comma-separated list of names is cut at its commas; each piece is trimmed and blank
pieces are dropped.
-/

namespace Blade.Text

/-- The 25 characters with the `White_Space` property. -/
def isBlank (c : Char) : Bool :=
  let n := c.toNat
  (9 ≤ n && n ≤ 13) || n == 32 || n == 0x85 || n == 0xA0 || n == 0x1680 ||
    (0x2000 ≤ n && n ≤ 0x200A) || n == 0x2028 || n == 0x2029 || n == 0x202F || n == 0x205F ||
    n == 0x3000

/-- Letters `a`–`z` and `A`–`Z`. -/
def isAsciiLetter (c : Char) : Bool :=
  let n := c.toNat
  (65 ≤ n && n ≤ 90) || (97 ≤ n && n ≤ 122)

/-- The characters up to the last one that is not blank. -/
def trimEnd (cs : List Char) : List Char :=
  (cs.reverse.dropWhile isBlank).reverse

/-- `cs` without the blank characters at its ends. -/
def trimChars (cs : List Char) : List Char :=
  trimEnd (cs.dropWhile isBlank)

/-- `s` without the blank characters at its ends. -/
def trim (s : String) : String :=
  String.ofList (trimChars s.toList)

/-- Whether `s` holds blank characters only. -/
def isBlankText (s : String) : Bool :=
  s.toList.all isBlank

@[simp] theorem toList_trim (s : String) : (trim s).toList = trimChars s.toList := by
  simp [trim]

/-! ### Cutting at a character -/

/-- The pieces of `cs` between the occurrences of `sep`, after the pieces `done`, last one first,
and the part `piece` of the next one, last character first. -/
def piecesFrom (sep : Char) (done : List (List Char)) (piece : List Char) :
    List Char → List (List Char)
  | [] => (piece.reverse :: done).reverse
  | c :: cs =>
      if c = sep then piecesFrom sep (piece.reverse :: done) [] cs
      else piecesFrom sep done (c :: piece) cs

/-- The pieces of `cs` between the occurrences of `sep`; there is always one. -/
def pieces (sep : Char) (cs : List Char) : List (List Char) :=
  piecesFrom sep [] [] cs

/-- What stands before the first `sep` and what stands after it; all of `cs` and nothing when
there is no `sep`. -/
def cutFirst (sep : Char) (cs : List Char) : List Char × List Char :=
  (cs.takeWhile (· != sep), (cs.dropWhile (· != sep)).drop 1)

/-- The names of a comma-separated list, trimmed, with blank entries dropped. -/
def nameList (s : String) : List String :=
  ((pieces ',' s.toList).map trimChars).filter (· != []) |>.map String.ofList

end Blade.Text
