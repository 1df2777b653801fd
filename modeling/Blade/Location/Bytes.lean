/-!
# Location — Bytes

Texts cut at byte offsets.  An offset is a character boundary when the UTF-8 sizes of some first
characters add up to it; a cut anywhere else does not exist.
-/

namespace Blade

/-- The characters after the first `n` bytes; `none` when `n` is no character boundary. -/
def dropBytes (n : Nat) (cs : List Char) : Option (List Char) :=
  match cs with
  | [] => if n = 0 then some [] else none
  | c :: rest =>
      if n = 0 then some (c :: rest)
      else if c.utf8Size ≤ n then dropBytes (n - c.utf8Size) rest
      else none

theorem dropBytes_zero (cs : List Char) : dropBytes 0 cs = some cs := by
  cases cs <;> simp [dropBytes]

theorem dropBytes_sub {m n : Nat} {cs rest : List Char} (h : dropBytes m cs = some rest)
    (hmn : m ≤ n) : dropBytes (n - m) rest = dropBytes n cs := by
  induction cs generalizing m n with
  | nil =>
      by_cases hm : m = 0
      · simp_all [dropBytes]
      · simp [dropBytes, hm] at h
  | cons c cs ih =>
      by_cases hm : m = 0
      · subst hm
        rw [dropBytes_zero, Option.some.injEq] at h
        rw [← h, Nat.sub_zero]
      · by_cases hc : c.utf8Size ≤ m
        · have hn : n ≠ 0 := by omega
          have hcn : c.utf8Size ≤ n := by omega
          simp only [dropBytes, hm, hc, if_true, if_false] at h
          have := ih h (Nat.sub_le_sub_right hmn c.utf8Size)
          rw [show n - c.utf8Size - (m - c.utf8Size) = n - m by omega] at this
          simp [dropBytes, hn, hcn, this]
        · simp [dropBytes, hm, hc] at h

/-- The characters of the first `n` bytes, after those already in `taken`, last one first. -/
def takeBytesFrom (taken : List Char) (n : Nat) (cs : List Char) : Option (List Char) :=
  match cs with
  | [] => if n = 0 then some taken.reverse else none
  | c :: rest =>
      if n = 0 then some taken.reverse
      else if c.utf8Size ≤ n then takeBytesFrom (c :: taken) (n - c.utf8Size) rest
      else none

/-- The characters of the first `n` bytes; `none` when `n` is no character boundary. -/
def takeBytes (n : Nat) (cs : List Char) : Option (List Char) :=
  takeBytesFrom [] n cs

/-- The characters from byte `a` up to byte `b`; `none` when the range is reversed, too long or cuts
a character. -/
def sliceBytes (a b : Nat) (cs : List Char) : Option (List Char) :=
  if a ≤ b then (dropBytes a cs).bind (takeBytes (b - a)) else none

end Blade
