import Blade.Proofs.Positions
import Mathlib.Data.List.DropRight

/-!
# Proofs — LineText

The text of a line, found by its number in the line table, and the place of a character in it.

A line of a source stands behind whole lines and before a newline or the end (`LineIn`); which one
it is, is the number of newlines before it.  The line table and the pieces of the source between its
newlines are both read off this.

* `LineIn.unique`: the number of a line tells where it stands.
* `line?_succ`: looking up a line gives the piece of the source with that number, without the
  carriage returns at its end.
* `LineIn.positionAt_eq`: a character is in the line and in the column that its position says.
* `precedes_positionAt`: a boundary further on has a later line, or a later column in its line.
* `lines_agree_with_positions`: both lookups together.
-/

namespace Blade

/-! ### Prefixes of a source -/

variable {cs : List Char}

/-- Of two starts of the same characters the one with more bytes has more characters. -/
theorem byteLength_lt_iff {u v : List Char} (hu : u <+: cs) (hv : v <+: cs) :
    byteLength u < byteLength v ↔ u.length < v.length := by
  have hpos (w : List Char) : 0 < byteLength w ↔ 0 < w.length := by
    rw [Nat.pos_iff_ne_zero, Nat.pos_iff_ne_zero, ne_eq, byteLength_eq_zero_iff, ne_eq,
      List.length_eq_zero_iff]
  rcases List.prefix_or_prefix_of_prefix hu hv with ⟨w, rfl⟩ | ⟨w, rfl⟩
  · rw [byteLength_append, List.length_append, Nat.lt_add_right_iff_pos, Nat.lt_add_right_iff_pos,
      hpos]
  · rw [byteLength_append, List.length_append]
    omega

/-- A character boundary says which characters are before it. -/
theorem eq_of_byteLength_eq {u v : List Char} (hu : u <+: cs) (hv : v <+: cs)
    (h : byteLength u = byteLength v) : u = v := by
  have hle := (byteLength_lt_iff hv hu).not.mp (Nat.not_lt_of_le (Nat.le_of_eq h))
  have hge := (byteLength_lt_iff hu hv).not.mp (Nat.not_lt_of_le (Nat.le_of_eq h.symm))
  exact (List.prefix_of_prefix_length_le hu hv (Nat.le_of_not_lt hle)).eq_of_length (by omega)

/-! ### Newlines -/

theorem length_lineStarts (offset : Nat) (cs : List Char) :
    (lineStarts offset cs).length = cs.count '\n' := by
  induction cs generalizing offset with
  | nil => rfl
  | cons c cs ih =>
      rw [lineStarts]
      split
      · next hc => rw [hc, List.length_cons, ih, List.count_cons_self]
      · next hc => rw [ih, List.count_cons_of_ne hc]

theorem length_splitOn_newline (cs : List Char) :
    (cs.splitOn '\n').length = cs.count '\n' + 1 := by
  induction cs with
  | nil => rfl
  | cons c cs ih =>
      rw [List.splitOn_cons_eq_if_modifyHead]
      by_cases hc : c = '\n'
      · rw [hc, if_pos (beq_self_eq_true _), List.length_cons, ih, List.count_cons_self]
      · rw [if_neg (by simpa using hc), List.length_modifyHead, ih, List.count_cons_of_ne hc]

/-! ### A line among the others -/

/-- `piece` is a line of `cs`, behind the lines `whole` and before `rest`. -/
structure LineIn (cs whole piece rest : List Char) : Prop where
  chars : cs = whole ++ (piece ++ rest)
  starts : whole = [] ∨ ∃ ds, whole = ds ++ ['\n']
  inside : '\n' ∉ piece
  stops : StopsAt (· != '\n') rest

variable {before after whole piece rest : List Char}

/-- Every boundary is in a line. -/
theorem exists_lineIn (before after : List Char) : ∃ whole current more rest,
    before = whole ++ current ∧ after = more ++ rest ∧
      LineIn (before ++ after) whole (current ++ more) rest := by
  obtain ⟨whole, current, rfl, hcurrent, hwhole⟩ := exists_lines before
  obtain ⟨more, rest, rfl, hmore, hstop⟩ := exists_run (· != '\n') after
  refine ⟨whole, current, more, rest, rfl, rfl, ?_, hwhole, ?_, hstop⟩
  · simp only [List.append_assoc]
  · rw [List.mem_append, not_or]
    exact ⟨hcurrent, fun hmem => by simpa using hmore _ hmem⟩

/-- There is a line behind each number of newlines. -/
theorem exists_lineIn_of_le {n : Nat} (h : n ≤ cs.count '\n') :
    ∃ whole piece rest, LineIn cs whole piece rest ∧ whole.count '\n' = n := by
  induction n generalizing cs with
  | zero =>
      obtain ⟨piece, rest, hcs, hpiece, hstop⟩ := exists_run (· != '\n') cs
      exact ⟨[], piece, rest, ⟨hcs, .inl rfl, fun hmem => by simpa using hpiece _ hmem, hstop⟩, rfl⟩
  | succ n ih =>
      have hmem : '\n' ∈ cs := List.count_pos_iff.mp (Nat.lt_of_lt_of_le n.succ_pos h)
      obtain ⟨first, others, rfl, hfirst⟩ := List.eq_append_cons_of_mem hmem
      rw [List.count_append, List.count_eq_zero.mpr hfirst, List.count_cons_self] at h
      have hle : n ≤ others.count '\n' := by omega
      obtain ⟨whole, piece, rest, hline, hcount⟩ := ih hle
      refine ⟨first ++ '\n' :: whole, piece, rest, ⟨?_, .inr ?_, hline.inside, hline.stops⟩, ?_⟩
      · rw [hline.chars, List.append_assoc, List.cons_append]
      · rcases hline.starts with rfl | ⟨ds, rfl⟩
        · exact ⟨first, rfl⟩
        · exact ⟨first ++ '\n' :: ds, by rw [List.append_assoc, List.cons_append]⟩
      · rw [List.count_append, List.count_eq_zero.mpr hfirst, List.count_cons_self, hcount]
        omega

namespace LineIn

variable (h : LineIn cs whole piece rest)
include h

/-- It is the piece between newlines that has its number. -/
theorem getElem?_splitOn : (cs.splitOn '\n')[whole.count '\n']? = some piece := by
  have hhead : (piece ++ rest).splitOn '\n' = piece :: ((piece ++ rest).splitOn '\n').tail := by
    cases hrest : rest with
    | nil => rw [List.append_nil, List.splitOn_eq_singleton h.inside, List.tail_cons]
    | cons c after =>
        have hc : c = '\n' := by simpa [hrest] using h.stops
        rw [hc, List.splitOn_append_cons_self_of_not_mem h.inside, List.tail_cons]
  rw [h.chars]
  rcases h.starts with rfl | ⟨ds, rfl⟩
  · rw [List.nil_append, hhead]
    rfl
  · have hlength : (ds ++ ['\n']).count '\n' = (ds.splitOn '\n').length := by
      rw [List.count_append, length_splitOn_newline]
      rfl
    rw [List.append_assoc, List.singleton_append, List.splitOn_append_cons_self, hlength,
      List.getElem?_append_right (Nat.le_refl _), Nat.sub_self, hhead]
    rfl

/-- The line table has the place where it starts. -/
theorem getElem?_starts : (0 :: lineStarts 0 cs)[whole.count '\n']? = some (byteLength whole) := by
  rw [h.chars, lineStarts_append, ← List.cons_append, ← length_lineStarts 0 whole,
    List.getElem?_append_left (Nat.lt_succ_self _)]
  exact getElem?_lineStarts h.starts

/-- Behind it comes the place where it ends, past its newline, unless it is the last line. -/
theorem getElem?_starts_succ : (0 :: lineStarts 0 cs)[whole.count '\n' + 1]? =
    if rest = [] then none else some (byteLength (whole ++ piece) + 1) := by
  have hsplit : lineStarts 0 cs =
      lineStarts 0 whole ++ lineStarts (byteLength (whole ++ piece)) rest := by
    rw [h.chars, ← List.append_assoc, lineStarts_append, lineStarts_append,
      lineStarts_of_not_mem h.inside, List.append_nil, Nat.zero_add]
  rw [List.getElem?_cons_succ, hsplit, ← length_lineStarts 0 whole,
    List.getElem?_append_right (Nat.le_refl _), Nat.sub_self]
  cases hrest : rest with
  | nil => rfl
  | cons c after =>
      have hc : c = '\n' := by simpa [hrest] using h.stops
      rw [lineStarts, if_pos hc]
      rfl

/-- What is left of it at a place starts with the character there, unless that is a newline. -/
theorem exists_cons {more : List Char} {c : Char} (hafter : c :: after = more ++ rest)
    (hc : c ≠ '\n') : ∃ later, more = c :: later ∧ after = later ++ rest := by
  cases more with
  | nil =>
      have hstop := h.stops
      rw [List.nil_append] at hafter
      rw [← hafter] at hstop
      exact absurd (by simpa using hstop) hc
  | cons d later =>
      rw [List.cons_append, List.cons.injEq] at hafter
      obtain ⟨rfl, hlater⟩ := hafter
      exact ⟨later, rfl, hlater⟩

/-- The number of a line tells where it stands. -/
theorem unique {whole' piece' rest' : List Char} (h' : LineIn cs whole' piece' rest')
    (hcount : whole'.count '\n' = whole.count '\n') : whole' = whole ∧ piece' = piece := by
  constructor
  · have hsame := h'.getElem?_starts
    rw [hcount, h.getElem?_starts, Option.some.injEq] at hsame
    exact eq_of_byteLength_eq ⟨_, h'.chars.symm⟩ ⟨_, h.chars.symm⟩ hsame.symm
  · have hsame := h'.getElem?_splitOn
    rw [hcount, h.getElem?_splitOn, Option.some.injEq] at hsame
    exact hsame.symm

end LineIn

/-! ### Looking up a line -/

variable {source : String}

/-- The characters without the carriage returns at their end. -/
def withoutReturns (cs : List Char) : List Char :=
  cs.rdropWhile (· == '\r')

theorem isPrefix_withoutReturns (cs : List Char) : withoutReturns cs <+: cs :=
  List.rdropWhile_prefix _ _

namespace LineIn

variable (h : LineIn source.toList whole piece rest)
include h

/-- **A line is found by its number.** -/
theorem line?_eq : (Lines.ofSource source).line? (whole.count '\n' + 1) =
    some (withoutReturns piece) := by
  have hfirst : (Lines.ofSource source).starts[whole.count '\n']? = some (byteLength whole) := by
    rw [← Array.getElem?_toList, toList_starts, h.getElem?_starts]
  have hnext : (Lines.ofSource source).starts[whole.count '\n' + 1]? =
      if rest = [] then none else some (byteLength (whole ++ piece) + 1) := by
    rw [← Array.getElem?_toList, toList_starts, h.getElem?_starts_succ]
  have htext : (Lines.ofSource source).text? (byteLength whole) (byteLength (whole ++ piece)) =
      some piece := by
    rw [Lines.text?, Lines.ofSource, h.chars]
    exact sliceBytes_append whole piece rest
  unfold Lines.line?
  simp only [hfirst, hnext, Option.bind_eq_bind, Option.bind_some]
  by_cases hrest : rest = []
  · have hend : (Lines.ofSource source).source.utf8ByteSize = byteLength (whole ++ piece) := by
      have hchars := h.chars
      rw [hrest, List.append_nil] at hchars
      rw [← hchars]
      exact (byteLength_toList source).symm
    simp only [if_pos hrest, hend, htext, Option.bind_some]
    rfl
  · simp only [if_neg hrest, Nat.add_sub_cancel, htext, Option.bind_some]
    rfl

end LineIn

/-- **Looking up a line gives the piece of the source with its number**, without the carriage
returns at its end. -/
theorem line?_succ (source : String) (n : Nat) : (Lines.ofSource source).line? (n + 1) =
    (source.toList.splitOn '\n')[n]?.map withoutReturns := by
  by_cases hn : n ≤ source.toList.count '\n'
  · obtain ⟨whole, piece, rest, hline, rfl⟩ := exists_lineIn_of_le hn
    rw [hline.line?_eq, hline.getElem?_splitOn, Option.map_some]
  · have hpieces : (source.toList.splitOn '\n')[n]? = none := by
      rw [List.getElem?_eq_none_iff, length_splitOn_newline]
      omega
    have hstarts : (Lines.ofSource source).starts[n]? = none := by
      rw [← Array.getElem?_toList, toList_starts, List.getElem?_eq_none_iff, List.length_cons,
        length_lineStarts]
      omega
    rw [hpieces, Lines.line?, hstarts]
    rfl

theorem isSome_line?_iff (source : String) (n : Nat) :
    ((Lines.ofSource source).line? n).isSome = true ↔
      1 ≤ n ∧ n ≤ 1 + source.toList.count '\n' := by
  cases n with
  | zero => simp [Lines.line?]
  | succ n =>
      rw [line?_succ, Option.isSome_map, ← Option.ne_none_iff_isSome, ne_eq,
        List.getElem?_eq_none_iff, length_splitOn_newline]
      omega

/-- A line holds no newline. -/
theorem not_mem_of_line? {n : Nat} {text : List Char}
    (h : (Lines.ofSource source).line? n = some text) : '\n' ∉ text := by
  obtain ⟨hn, hle⟩ := (isSome_line?_iff source n).mp (Option.isSome_of_eq_some h)
  obtain ⟨n, rfl⟩ := Nat.exists_eq_add_of_le' hn
  have hcount : n ≤ source.toList.count '\n' := by omega
  obtain ⟨whole, piece, rest, hline, rfl⟩ := exists_lineIn_of_le hcount
  rw [hline.line?_eq, Option.some.injEq] at h
  subst h
  exact fun hmem => hline.inside ((isPrefix_withoutReturns piece).mem hmem)

/-- No piece has a carriage return that the source has not. -/
theorem withoutReturns_piece {n : Nat} (hreturn : '\r' ∉ cs)
    (hpiece : (cs.splitOn '\n')[n]? = some piece) : withoutReturns piece = piece := by
  have hn : n ≤ cs.count '\n' := by
    have hlt := (List.getElem?_eq_some_iff.mp hpiece).1
    rw [length_splitOn_newline] at hlt
    exact Nat.le_of_lt_succ hlt
  obtain ⟨whole, piece', rest, hline, rfl⟩ := exists_lineIn_of_le hn
  rw [hline.getElem?_splitOn, Option.some.injEq] at hpiece
  subst hpiece
  refine List.rdropWhile_eq_self_iff.mpr fun hne hlast => hreturn ?_
  rw [beq_iff_eq] at hlast
  rw [hline.chars, ← hlast]
  exact List.mem_append_right _ (List.mem_append_left _ (List.getLast_mem hne))

theorem filterMap_getElem?_range {α : Type} (xs : List α) :
    (List.range xs.length).filterMap (xs[·]?) = xs := by
  induction xs with
  | nil => rfl
  | cons x xs ih =>
      rw [List.length_cons, List.range_succ_eq_map, List.filterMap_cons, List.filterMap_map]
      exact congrArg (x :: ·) ih

/-- Without carriage returns the lines joined are the source. -/
theorem intercalate_lines (hreturn : '\r' ∉ source.toList) :
    ['\n'].intercalate ((List.range' 1 (1 + source.toList.count '\n')).filterMap
      (Lines.ofSource source).line?) = source.toList := by
  have hlines : (List.range' 1 (1 + source.toList.count '\n')).filterMap
      (Lines.ofSource source).line? = source.toList.splitOn '\n' := by
    have hfound (n : Nat) : (Lines.ofSource source).line? (1 + n) =
        (source.toList.splitOn '\n')[n]? := by
      rw [Nat.add_comm, line?_succ]
      cases hpiece : (source.toList.splitOn '\n')[n]? with
      | none => rfl
      | some piece => rw [Option.map_some, withoutReturns_piece hreturn hpiece]
    rw [List.range'_eq_map_range, List.filterMap_map, Nat.add_comm, ← length_splitOn_newline]
    refine Eq.trans ?_ (filterMap_getElem?_range _)
    exact congrArg (List.filterMap · _) (funext hfound)
  rw [hlines, List.intercalate_splitOn]

/-! ### Looking up a position -/

namespace LineIn

/-- **A boundary is in the line and the column that its position says.** -/
theorem positionAt_eq {current more : List Char}
    (h : LineIn source.toList whole (current ++ more) rest) :
    (Lines.ofSource source).positionAt (byteLength (whole ++ current)) =
      ⟨byteLength (whole ++ current), whole.count '\n' + 1, current.length + 1⟩ := by
  have hchars : source.toList = (whole ++ current) ++ (more ++ rest) := by
    rw [h.chars]
    simp only [List.append_assoc]
  have hcurrent : '\n' ∉ current := fun hmem => h.inside (List.mem_append_left _ hmem)
  rw [positionAt_byteLength hchars, Position.advanceAll_append, advanceAll_whole h.starts,
    advanceAll_of_not_mem hcurrent, byteLength_append, length_lineStarts, Nat.add_comm 1]

end LineIn

/-- Characters further on, a position has advanced over them. -/
theorem positionAt_append {ds : List Char} (h : source.toList = before ++ (ds ++ after)) :
    (Lines.ofSource source).positionAt (byteLength (before ++ ds)) =
      ((Lines.ofSource source).positionAt (byteLength before)).advanceAll ds := by
  rw [positionAt_byteLength h, ← Position.advanceAll_append]
  rw [← List.append_assoc] at h
  exact positionAt_byteLength h

/-- A character is left unless it and all behind it are carriage returns. -/
theorem getElem?_withoutReturns {c : Char} {ds : List Char} :
    (withoutReturns (cs ++ c :: ds))[cs.length]? = some c ↔ ∃ d ∈ c :: ds, d ≠ '\r' := by
  constructor
  · intro hleft
    by_contra hno
    push Not at hno
    have hall : ∀ d ∈ (c :: ds).reverse, (d == '\r') = true := fun d hd =>
      beq_iff_eq.mpr (hno d (List.mem_reverse.mp hd))
    have hdropped : withoutReturns (cs ++ c :: ds) = withoutReturns cs := by
      rw [withoutReturns, List.rdropWhile, List.reverse_append, List.dropWhile_append_of_pos hall]
      rfl
    have hlt := (List.getElem?_eq_some_iff.mp hleft).1
    rw [hdropped] at hlt
    exact absurd (isPrefix_withoutReturns cs).length_le (Nat.not_le_of_lt hlt)
  · rintro ⟨d, hd, hne⟩
    have hsplit : withoutReturns (cs ++ c :: ds) ++ (cs ++ c :: ds).rtakeWhile (· == '\r') =
        cs ++ c :: ds := List.rdropWhile_append_rtakeWhile
    have hreturns : d ∉ (cs ++ c :: ds).rtakeWhile (· == '\r') := by
      intro hmem
      have hreturn := List.mem_rtakeWhile_imp hmem
      exact hne (beq_iff_eq.mp hreturn)
    rcases List.append_eq_append_iff.mp hsplit with ⟨es, -, htail⟩ | ⟨es, hkept, htail⟩
    · exact absurd (htail ▸ List.mem_append_right es hd) hreturns
    · cases es with
      | nil =>
          rw [htail, List.nil_append] at hd
          exact absurd hd hreturns
      | cons e es =>
          rw [hkept, List.getElem?_append_right (Nat.le_refl _), Nat.sub_self,
            (List.cons.inj htail).1]
          rfl

/-- From here to the end of the line there are only carriage returns, if anything. -/
def OnlyReturns (cs : List Char) : Prop :=
  ∀ d ∈ cs.takeWhile (· != '\n'), d = '\r'

/-- **A character is in the line and the column that its position says**, unless it is a newline or
one of the carriage returns before it. -/
theorem exists_line_at {c : Char} (hsource : source.toList = before ++ c :: after) :
    ∃ text, (Lines.ofSource source).line?
        ((Lines.ofSource source).positionAt (byteLength before)).line = some text ∧
      (text[((Lines.ofSource source).positionAt (byteLength before)).column - 1]? = some c ↔
        c ≠ '\n' ∧ ¬ OnlyReturns (c :: after)) := by
  obtain ⟨whole, current, more, rest, rfl, hafter, hline⟩ := exists_lineIn before (c :: after)
  rw [← hsource] at hline
  have hfound := hline.line?_eq
  rw [hline.positionAt_eq, Nat.add_sub_cancel]
  refine ⟨withoutReturns (current ++ more), hfound, ?_⟩
  by_cases hc : c = '\n'
  · have hno : '\n' ∉ withoutReturns (current ++ more) := not_mem_of_line? hfound
    exact iff_of_false (fun hat => hno (hc ▸ List.mem_of_getElem? hat)) fun h => h.1 hc
  · obtain ⟨later, rfl, rfl⟩ := hline.exists_cons hafter hc
    have hpiece : ∀ d ∈ c :: later, (d != '\n') = true := fun d hd =>
      bne_iff_ne.mpr fun hd' => hline.inside (hd' ▸ List.mem_append_right current hd)
    have htake : (c :: (later ++ rest)).takeWhile (· != '\n') = c :: later :=
      takeWhile_append_stop hpiece hline.stops
    rw [getElem?_withoutReturns, OnlyReturns, htake]
    push Not
    exact (and_iff_right hc).symm

/-- On an earlier line, or in an earlier column of the same line. -/
def Position.Precedes (p q : Position) : Prop :=
  p.line < q.line ∨ p.line = q.line ∧ p.column < q.column

theorem Position.Precedes.trans {p q r : Position} (h : p.Precedes q) (h' : q.Precedes r) :
    p.Precedes r := by
  unfold Precedes at *
  omega

theorem precedes_advance (p : Position) (c : Char) : p.Precedes (p.advance c) := by
  unfold Position.advance
  split
  · exact .inl (Nat.lt_succ_self _)
  · exact .inr ⟨rfl, Nat.lt_succ_self _⟩

theorem precedes_advanceAll (p : Position) (c : Char) (cs : List Char) :
    p.Precedes (p.advanceAll (c :: cs)) := by
  induction cs generalizing p c with
  | nil => exact precedes_advance p c
  | cons d cs ih => exact (precedes_advance p c).trans (ih _ d)

/-- An offset with a character, or an end of the source, on either side. -/
def IsBoundary (source : String) (offset : Nat) : Prop :=
  ∃ before, takeBytes offset source.toList = some before

theorem isBoundary_iff {offset : Nat} : IsBoundary source offset ↔
    ∃ before after, source.toList = before ++ after ∧ offset = byteLength before := by
  simp only [IsBoundary, takeBytes_eq_some_iff]

/-- Of two boundaries the later one is some characters further on. -/
theorem exists_between {m n : Nat} (hm : IsBoundary source m) (hn : IsBoundary source n)
    (hmn : m < n) : ∃ before c more after, source.toList = before ++ (c :: more ++ after) ∧
      m = byteLength before ∧ n = byteLength (before ++ c :: more) := by
  obtain ⟨first, afterFirst, hfirst, rfl⟩ := isBoundary_iff.mp hm
  obtain ⟨second, afterSecond, hsecond, rfl⟩ := isBoundary_iff.mp hn
  rw [byteLength_lt_iff ⟨_, hfirst.symm⟩ ⟨_, hsecond.symm⟩] at hmn
  obtain ⟨ds, rfl⟩ := List.prefix_of_prefix_length_le ⟨_, hfirst.symm⟩ ⟨_, hsecond.symm⟩
    (Nat.le_of_lt hmn)
  cases ds with
  | nil => simp at hmn
  | cons c more => exact ⟨first, c, more, afterSecond, by rw [hsecond, List.append_assoc], rfl, rfl⟩

/-- **A boundary further on has a later position.** -/
theorem precedes_positionAt {m n : Nat} (hm : IsBoundary source m) (hn : IsBoundary source n)
    (hmn : m < n) :
    ((Lines.ofSource source).positionAt m).Precedes ((Lines.ofSource source).positionAt n) := by
  obtain ⟨before, c, more, after, hsource, rfl, rfl⟩ := exists_between hm hn hmn
  rw [positionAt_append hsource]
  exact precedes_advanceAll _ c more

/-- An offset past the end stands for the end. -/
theorem positionAt_of_le {offset : Nat} (h : source.utf8ByteSize ≤ offset) :
    (Lines.ofSource source).positionAt offset = Position.start.afterText source := by
  have hsource : (Lines.ofSource source).source = source := rfl
  have hend : (Lines.ofSource source).positionAt offset =
      (Lines.ofSource source).positionAt source.utf8ByteSize := by
    simp only [Lines.positionAt, hsource, Nat.min_eq_right h, Nat.min_self]
  rw [hend, ← byteLength_toList, positionAt_byteLength (List.append_nil _).symm, Position.afterText]

/-- **Looking up lines and looking up positions agree.**  The lines are the pieces of the source
between its newlines, without the carriage returns at their ends; there is one more than there are
newlines, and without carriage returns they make up the source.  A character is in the line and the
column that its position says, exactly when it is no newline and none of the carriage returns before
one or before the end.  Positions grow from each boundary to the next, and past the end there is
only the position of the end. -/
theorem lines_agree_with_positions (source : String) :
    let t := Lines.ofSource source
    let cs := source.toList
    (∀ n, (t.line? n).isSome = true ↔ 1 ≤ n ∧ n ≤ 1 + cs.count '\n') ∧
      (∀ n, t.line? (n + 1) = (cs.splitOn '\n')[n]?.map (List.rdropWhile (· == '\r'))) ∧
      ('\r' ∉ cs →
        ['\n'].intercalate ((List.range' 1 (1 + cs.count '\n')).filterMap t.line?) = cs) ∧
      (∀ before c after, cs = before ++ c :: after →
        let p := t.positionAt (byteLength before)
        ∃ text, t.line? p.line = some text ∧
          (text[p.column - 1]? = some c ↔ c ≠ '\n' ∧ ¬ OnlyReturns (c :: after))) ∧
      (∀ m n, IsBoundary source m → IsBoundary source n → m < n →
        (t.positionAt m).Precedes (t.positionAt n)) ∧
      ∀ offset, source.utf8ByteSize ≤ offset →
        t.positionAt offset = Position.start.afterText source :=
  ⟨isSome_line?_iff source, line?_succ source, intercalate_lines,
    fun _ _ _ => exists_line_at, fun _ _ => precedes_positionAt, fun _ => positionAt_of_le⟩

end Blade
