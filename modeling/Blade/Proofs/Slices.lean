import Blade.Nesting
import Blade.Proofs.Positions

/-!
# Proofs — Slices

The pieces of a cut text as slices of it.

A text can be cut without copying any of it: the walk keeps the byte offset it has come to and the
one where the current piece starts, and a piece is a range of bytes.

* `slices_topRanges`: every range between separators starts and ends at a character boundary, and
  its slice is the piece there.
* `slices_barRanges`: so does every range between single bars.

Both are by induction on what is left of the text, along the walk, with the text before the current
piece and that piece so far given.
-/

namespace Blade

/-- A range of bytes. -/
structure ByteRange where
  start : Nat
  stop : Nat
  deriving DecidableEq, Repr

/-- The slices of a text for some ranges; `none` when one of them is no range of the text. -/
def slices? (cs : List Char) (ranges : List ByteRange) : Option (List (List Char)) :=
  ranges.mapM fun r => sliceBytes r.start r.stop cs

/-- The ranges of the pieces between the top-level occurrences of `sep`, from where the walk stands:
at byte `offset`, in the piece that starts at byte `start`. -/
def topRangesFrom (sep : Char) (n : Nesting) (start offset : Nat) : List Char → List ByteRange
  | [] => [⟨start, offset⟩]
  | c :: cs =>
      let next := offset + c.utf8Size
      if n.atTop c && c == sep then ⟨start, offset⟩ :: topRangesFrom sep (n.feed c) next next cs
      else topRangesFrom sep (n.feed c) start next cs

/-- The ranges of the pieces between the occurrences of `sep` outside all strings and brackets. -/
def topRanges (sep : Char) (cs : List Char) : List ByteRange :=
  topRangesFrom sep {} 0 0 cs

/-- The ranges of the segments between single top-level bars, from where the walk stands. -/
def barRangesFrom (n : Nesting) (start offset : Nat) : List Char → List ByteRange
  | [] => [⟨start, offset⟩]
  | [c] =>
      if n.atTop c && c == '|' then [⟨start, offset⟩, ⟨offset + 1, offset + c.utf8Size⟩]
      else [⟨start, offset + c.utf8Size⟩]
  | c :: d :: cs =>
      if n.atTop c && c == '|' then
        if d = '|' then barRangesFrom (n.feed c) start (offset + c.utf8Size + d.utf8Size) cs
        else ⟨start, offset⟩ ::
          barRangesFrom (n.feed c) (offset + 1) (offset + c.utf8Size) (d :: cs)
      else barRangesFrom (n.feed c) start (offset + c.utf8Size) (d :: cs)

/-- The ranges of the segments between the single bars outside all strings and brackets. -/
def barRanges (cs : List Char) : List ByteRange :=
  barRangesFrom {} 0 0 cs

variable {before piece rest whole : List Char} {pieces : List (List Char)} {c : Char}

/-- The walk has come past `before`, where the current piece starts, and past that piece so far. -/
structure WalkAt (whole before piece rest : List Char) (start offset : Nat) : Prop where
  whole : whole = before ++ (piece ++ rest)
  start : start = byteLength before
  offset : offset = byteLength (before ++ piece)

namespace WalkAt

variable {start offset : Nat}

/-- The piece that ends here is the slice of its range. -/
theorem sliceBytes_eq (h : WalkAt whole before piece rest start offset) :
    sliceBytes start offset whole = some piece := by
  rw [h.whole, h.start, h.offset]
  exact sliceBytes_append before piece rest

theorem start_whole (cs : List Char) : WalkAt cs [] [] cs 0 0 := ⟨rfl, rfl, rfl⟩

/-- One character more of the current piece. -/
theorem keep (h : WalkAt whole before piece (c :: rest) start offset) :
    WalkAt whole before (piece ++ [c]) rest start (offset + c.utf8Size) where
  whole := by rw [h.whole, List.append_assoc, List.singleton_append]
  start := h.start
  offset := by simp [h.offset, Nat.add_assoc]

/-- The current piece ends before a separator, and the next one starts behind it. -/
theorem cut (h : WalkAt whole before piece (c :: rest) start offset) :
    WalkAt whole (before ++ (piece ++ [c])) [] rest (offset + c.utf8Size)
      (offset + c.utf8Size) where
  whole := by simp [h.whole]
  start := by simp [h.offset, Nat.add_assoc]
  offset := by simp [h.offset, Nat.add_assoc]

end WalkAt

theorem slices?_cons {r : ByteRange} {ranges : List ByteRange}
    (h : sliceBytes r.start r.stop whole = some piece) (hs : slices? whole ranges = some pieces) :
    slices? whole (r :: ranges) = some (piece :: pieces) := by
  rw [slices?, List.mapM_cons, h]
  exact congrArg (·.bind fun pieces => some (piece :: pieces)) hs

/-- From any place of the walk, the slices of the ranges to come are the pieces to come. -/
theorem exists_slices_topRangesFrom (sep : Char) (n : Nesting) {start offset : Nat}
    (h : WalkAt whole before piece rest start offset) (done : List (List Char)) :
    ∃ pieces, slices? whole (topRangesFrom sep n start offset rest) = some pieces ∧
      splitTopFrom sep n done piece.reverse rest = done.reverse ++ pieces := by
  induction rest generalizing n before piece start offset done with
  | nil =>
      refine ⟨[piece], slices?_cons h.sliceBytes_eq rfl, ?_⟩
      rw [splitTopFrom, List.reverse_reverse, List.reverse_cons]
  | cons c rest ih =>
      rw [topRangesFrom, splitTopFrom]
      by_cases hc : (n.atTop c && c == sep) = true
      · obtain ⟨pieces, hslices, hsplit⟩ := ih (n.feed c) h.cut (piece :: done)
        refine ⟨piece :: pieces, ?_, ?_⟩
        · rw [if_pos hc]
          exact slices?_cons h.sliceBytes_eq hslices
        · rw [if_pos hc, List.reverse_reverse]
          exact hsplit.trans (by simp)
      · obtain ⟨pieces, hslices, hsplit⟩ := ih (n.feed c) h.keep done
        rw [List.reverse_append] at hsplit
        exact ⟨pieces, by rw [if_neg hc]; exact hslices, by rw [if_neg hc]; exact hsplit⟩

/-- **The pieces between separators are slices of the text**, each from a character boundary to a
later one. -/
theorem slices_topRanges (sep : Char) (cs : List Char) :
    slices? cs (topRanges sep cs) = some (splitTop sep cs) := by
  obtain ⟨pieces, hslices, hsplit⟩ := exists_slices_topRangesFrom sep {} (.start_whole cs) []
  exact hslices.trans (congrArg some hsplit.symm)

theorem offset_add_one {n : Nesting} {offset : Nat} (hc : (n.atTop c && c == '|') = true) :
    offset + 1 = offset + c.utf8Size := by
  rw [eq_of_beq (Bool.and_eq_true_iff.mp hc).2]
  rfl

/-- From any place of the walk, the slices of the ranges to come are the segments to come. -/
theorem exists_slices_barRangesFrom (n : Nesting) {start offset : Nat}
    (h : WalkAt whole before piece rest start offset) (done : List (List Char)) :
    ∃ segments, slices? whole (barRangesFrom n start offset rest) = some segments ∧
      splitBarsFrom n done piece.reverse rest = done.reverse ++ segments := by
  fun_induction barRangesFrom n start offset rest generalizing before piece done with
  | case1 n start offset =>
      refine ⟨[piece], slices?_cons h.sliceBytes_eq rfl, ?_⟩
      rw [splitBarsFrom, List.reverse_reverse, List.reverse_cons]
  | case2 n start offset c hc =>
      refine ⟨[piece, []], ?_, ?_⟩
      · rw [offset_add_one hc]
        exact slices?_cons h.sliceBytes_eq (slices?_cons h.cut.sliceBytes_eq rfl)
      · rw [splitBarsFrom, if_pos hc]
        simp
  | case3 n start offset c hc =>
      refine ⟨[piece ++ [c]], slices?_cons h.keep.sliceBytes_eq rfl, ?_⟩
      rw [splitBarsFrom, if_neg hc]
      simp
  | case4 n start offset c cs hc ih =>
      -- the second of two bars is passed without a look at what is open
      obtain ⟨segments, hslices, hsplit⟩ := ih h.keep.keep done
      refine ⟨segments, hslices, ?_⟩
      rw [List.append_assoc, List.reverse_append] at hsplit
      rw [splitBarsFrom, if_pos hc, if_pos rfl]
      exact hsplit
  | case5 n start offset c d cs hc hd ih =>
      rw [offset_add_one hc] at ih ⊢
      obtain ⟨segments, hslices, hsplit⟩ := ih h.cut (piece :: done)
      refine ⟨piece :: segments, slices?_cons h.sliceBytes_eq hslices, ?_⟩
      rw [splitBarsFrom, if_pos hc, if_neg hd, List.reverse_reverse]
      exact hsplit.trans (by simp)
  | case6 n start offset c d cs hc ih =>
      obtain ⟨segments, hslices, hsplit⟩ := ih h.keep done
      rw [List.reverse_append] at hsplit
      refine ⟨segments, hslices, ?_⟩
      rw [splitBarsFrom, if_neg hc]
      exact hsplit

/-- **The segments between single bars are slices of the text.** -/
theorem slices_barRanges (cs : List Char) : slices? cs (barRanges cs) = some (splitBars cs) := by
  obtain ⟨segments, hslices, hsplit⟩ := exists_slices_barRangesFrom {} (.start_whole cs) []
  exact hslices.trans (congrArg some hsplit.symm)

end Blade
