import Blade.Proofs.LineText
import Blade.Proofs.TokenJson

/-!
# Proofs — WordPositions

Positions in machine words.

A position is kept as an offset of 64 bits and a line and a column of 32 bits, which wrap around.
Counting on in words is counting on in numbers, with what a word does not hold cut off
(`ofPosition_advanceAll`), so nothing is lost as long as the position fits.  In a source of fewer
than 2³² - 1 characters every position does (`Position.Within.fits`), and what is said of positions
as numbers is true of them as words:

* `word_positions_agree`: counting and looking up, the order of positions, and the spans of all that
  a lexer hands out.
-/

namespace Blade

/-- A position in machine words. -/
structure WordPosition where
  offset : UInt64
  line : UInt32
  column : UInt32
  deriving DecidableEq, Repr

namespace WordPosition

/-- The place before the first character. -/
def start : WordPosition := ⟨0, 1, 1⟩

/-- The place just past `c`.  A sum that no word holds wraps around. -/
def advance (p : WordPosition) (c : Char) : WordPosition :=
  if c = '\n' then ⟨p.offset + 1, p.line + 1, 1⟩
  else ⟨p.offset + .ofNat c.utf8Size, p.line, p.column + 1⟩

/-- The place just past all of `cs`. -/
def advanceAll (p : WordPosition) (cs : List Char) : WordPosition :=
  cs.foldl advance p

/-- On an earlier line, or in an earlier column of the same line. -/
def Precedes (p q : WordPosition) : Prop :=
  p.line < q.line ∨ p.line = q.line ∧ p.column < q.column

/-- A position with what no word holds cut off. -/
def ofPosition (p : Position) : WordPosition :=
  ⟨.ofNat p.offset, .ofNat p.line, .ofNat p.column⟩

/-- The position that some words hold. -/
def toPosition (p : WordPosition) : Position :=
  ⟨p.offset.toNat, p.line.toNat, p.column.toNat⟩

theorem toPosition_ofPosition {p : Position} (h : p.Fits) : (ofPosition p).toPosition = p := by
  rw [toPosition, ofPosition, UInt64.toNat_ofNat_of_lt' h.offset, UInt32.toNat_ofNat_of_lt' h.line,
    UInt32.toNat_ofNat_of_lt' h.column]

/-- A position fits exactly when some words hold it. -/
theorem fits_iff {p : Position} : p.Fits ↔ ∃ w : WordPosition, w.toPosition = p := by
  constructor
  · intro h
    exact ⟨ofPosition p, toPosition_ofPosition h⟩
  · rintro ⟨w, rfl⟩
    exact ⟨w.offset.toNat_lt, w.line.toNat_lt, w.column.toNat_lt⟩

/-- **Counting a character in words is counting it in numbers**, whether the words wrap or not. -/
theorem ofPosition_advance (p : Position) (c : Char) :
    ofPosition (p.advance c) = (ofPosition p).advance c := by
  rw [advance, Position.advance]
  by_cases hc : c = '\n'
  · rw [if_pos hc, if_pos hc, ofPosition, UInt64.ofNat_add, UInt32.ofNat_add]
    rfl
  · rw [if_neg hc, if_neg hc, ofPosition, UInt64.ofNat_add, UInt32.ofNat_add]
    rfl

theorem ofPosition_advanceAll (p : Position) (cs : List Char) :
    ofPosition (p.advanceAll cs) = (ofPosition p).advanceAll cs := by
  induction cs generalizing p with
  | nil => rfl
  | cons c cs ih =>
      rw [Position.advanceAll_cons, ih, ofPosition_advance]
      rfl

theorem ofPosition_precedes_iff {p q : Position} (hp : p.Fits) (hq : q.Fits) :
    (ofPosition p).Precedes (ofPosition q) ↔ p.Precedes q := by
  have hline : (ofPosition p).line = (ofPosition q).line ↔ p.line = q.line := by
    rw [← UInt32.toNat_inj, ofPosition, ofPosition, UInt32.toNat_ofNat_of_lt' hp.line,
      UInt32.toNat_ofNat_of_lt' hq.line]
  rw [Precedes, Position.Precedes, hline, UInt32.lt_iff_toNat_lt, UInt32.lt_iff_toNat_lt,
    ofPosition, ofPosition, UInt32.toNat_ofNat_of_lt' hp.line, UInt32.toNat_ofNat_of_lt' hq.line,
    UInt32.toNat_ofNat_of_lt' hp.column, UInt32.toNat_ofNat_of_lt' hq.column]

end WordPosition

/-! ### Sources that words count -/

theorem byteLength_le (cs : List Char) : byteLength cs ≤ 4 * cs.length := by
  induction cs with
  | nil => exact Nat.le_refl 0
  | cons c cs ih =>
      have hc := c.utf8Size_le_four
      rw [byteLength_cons, List.length_cons]
      omega

/-- A character counts for one line at most, or for one column. -/
theorem advanceAll_le (p : Position) (cs : List Char) :
    (p.advanceAll cs).line ≤ p.line + cs.length ∧
      (p.advanceAll cs).column ≤ p.column + cs.length := by
  induction cs generalizing p with
  | nil => exact ⟨Nat.le_refl _, Nat.le_refl _⟩
  | cons c cs ih =>
      have hstep : (p.advance c).line ≤ p.line + 1 ∧ (p.advance c).column ≤ p.column + 1 := by
        rw [Position.advance]
        by_cases hc : c = '\n'
        · rw [if_pos hc]
          exact ⟨Nat.le_refl _, Nat.le_add_left 1 _⟩
        · rw [if_neg hc]
          exact ⟨Nat.le_add_right .., Nat.le_refl _⟩
      obtain ⟨hline, hcolumn⟩ := ih (p.advance c)
      rw [Position.advanceAll_cons, List.length_cons]
      omega

variable {source : String}

/-- **In a source of fewer than 2³² - 1 characters every position fits into machine words.** -/
theorem Position.Within.fits {q : Position} (h : q.Within source)
    (hsource : source.length + 1 < UInt32.size) : q.Fits := by
  obtain ⟨before, hprefix, rfl⟩ := h
  have hlength : before.length ≤ source.length :=
    String.length_toList ▸ hprefix.length_le
  have hbytes := byteLength_le before
  obtain ⟨hline, hcolumn⟩ := advanceAll_le .start before
  have hlast : 1 + before.length < UInt32.size := by omega
  refine ⟨?_, Nat.lt_of_le_of_lt hline hlast, Nat.lt_of_le_of_lt hcolumn hlast⟩
  have hroom : 4 * UInt32.size ≤ UInt64.size := by decide
  rw [offset_advanceAll]
  change 0 + byteLength before < UInt64.size
  omega

theorem IsBoundary.within {offset : Nat} (h : IsBoundary source offset) :
    ((Lines.ofSource source).positionAt offset).Within source := by
  obtain ⟨before, after, hsource, rfl⟩ := isBoundary_iff.mp h
  exact ⟨before, ⟨after, hsource.symm⟩, positionAt_byteLength hsource⟩

/-- **What is said of positions is true of them in machine words**, in a source of fewer than
2³² - 1 characters.  Counting in words leads to the position that counting in numbers leads to;
looking a boundary up and cutting off what no word holds loses nothing, and keeps the order of the
boundaries; and all positions that a lexer hands out, under any sequence of calls, fit. -/
theorem word_positions_agree [Limits] (hsource : source.length + 1 < UInt32.size) :
    let t := Lines.ofSource source
    (∀ before, before <+: source.toList →
        (WordPosition.start.advanceAll before).toPosition = Position.start.advanceAll before) ∧
      (∀ offset, IsBoundary source offset →
        (WordPosition.ofPosition (t.positionAt offset)).toPosition = t.positionAt offset) ∧
      (∀ m n, IsBoundary source m → IsBoundary source n → m < n →
        (WordPosition.ofPosition (t.positionAt m)).Precedes
          (WordPosition.ofPosition (t.positionAt n))) ∧
      ∀ (p : Preferences) (calls : List Call), ∀ r ∈ (Lexer.ofSource source p).replies calls,
        (∀ t ∈ r.delivered, t.span.Fits) ∧ ∀ e ∈ r.error?, e.span.Fits := by
  intro t
  refine ⟨fun before hprefix => ?_, fun offset h => ?_, fun m n hm hn hmn => ?_, ?_⟩
  · have hfits : (Position.start.advanceAll before).Fits :=
      Position.Within.fits ⟨before, hprefix, rfl⟩ hsource
    rw [← WordPosition.toPosition_ofPosition hfits, WordPosition.ofPosition_advanceAll]
    rfl
  · exact WordPosition.toPosition_ofPosition (h.within.fits hsource)
  · rw [WordPosition.ofPosition_precedes_iff (hm.within.fits hsource) (hn.within.fits hsource)]
    exact precedes_positionAt hm hn hmn
  · intro p calls r hr
    have hall : Upheld p (fun _ _ => True) (fun _ => True) := upheld_trivial p
    obtain ⟨htokens, herror⟩ := hall.replies trivial calls r hr
    refine ⟨fun t ht => ?_, fun e he => ?_⟩
    · obtain ⟨-, hstart, hstop⟩ := htokens t ht
      exact ⟨hstart.fits hsource, hstop.fits hsource⟩
    · obtain ⟨hstart, hstop⟩ := herror e he
      exact ⟨hstart.fits hsource, hstop.fits hsource⟩

end Blade
