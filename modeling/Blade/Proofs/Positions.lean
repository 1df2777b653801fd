import Blade.Location.Lines
import Blade.Proofs.Tracking

/-!
# Proofs — Positions

Two ways to compute a position: counting lines and columns from the start of a source, and looking
an offset up in the line table of the source.

* `search_cases`: the search in an increasing table ends where the entries pass the offset.
* `positionAt_byteLength`: at a character boundary both give the same position.
* `positions_agree`: so they do at every position that a lexer hands out, under any sequence of
  calls.
-/

namespace Blade

theorem byteLength_toList (s : String) : byteLength s.toList = s.utf8ByteSize := by
  have hsize (cs : List Char) : (String.ofList cs).utf8ByteSize = byteLength cs := by
    induction cs with
    | nil => simp
    | cons c cs ih =>
        rw [byteLength_cons, ← ih, ← List.singleton_append, String.ofList_append,
          String.utf8ByteSize_append]
        simp
  rw [← hsize, String.ofList_toList]

theorem exists_of_takeBytesFrom {n : Nat} {taken cs result : List Char}
    (h : takeBytesFrom taken n cs = some result) :
    ∃ before after, cs = before ++ after ∧ n = byteLength before ∧
      result = taken.reverse ++ before := by
  induction cs generalizing taken n with
  | nil =>
      rw [takeBytesFrom, Option.ite_none_right_eq_some, Option.some.injEq] at h
      exact ⟨[], [], rfl, h.1, by simp [h.2]⟩
  | cons c cs ih =>
      rw [takeBytesFrom] at h
      split at h
      · next hn =>
          rw [Option.some.injEq] at h
          exact ⟨[], c :: cs, rfl, hn, by simp [h]⟩
      · rw [Option.ite_none_right_eq_some] at h
        obtain ⟨hle, h⟩ := h
        obtain ⟨before, after, rfl, hn, rfl⟩ := ih h
        refine ⟨c :: before, after, rfl, ?_, by simp⟩
        rw [byteLength_cons]
        omega

/-- An offset is a character boundary where some first characters end. -/
theorem takeBytes_eq_some_iff {n : Nat} {cs before : List Char} :
    takeBytes n cs = some before ↔ ∃ after, cs = before ++ after ∧ n = byteLength before := by
  constructor
  · intro h
    obtain ⟨before', after, rfl, rfl, rfl⟩ := exists_of_takeBytesFrom h
    exact ⟨after, rfl, rfl⟩
  · rintro ⟨after, rfl, rfl⟩
    rw [takeBytes, takeBytesFrom_append]
    rfl

/-! ### Lines -/

/-- The offsets at which the lines after the first one start, in characters that start at an
offset. -/
def lineStarts (offset : Nat) : List Char → List Nat
  | [] => []
  | c :: cs =>
      if c = '\n' then (offset + 1) :: lineStarts (offset + 1) cs
      else lineStarts (offset + c.utf8Size) cs

theorem lineStarts_append (offset : Nat) (cs ds : List Char) :
    lineStarts offset (cs ++ ds) =
      lineStarts offset cs ++ lineStarts (offset + byteLength cs) ds := by
  induction cs generalizing offset with
  | nil => rfl
  | cons c cs ih =>
      rw [List.cons_append, lineStarts, lineStarts, byteLength_cons, ← Nat.add_assoc]
      split
      · next hc =>
          subst hc
          rw [ih]
          rfl
      · exact ih _

theorem toList_startsFrom (starts : Array Nat) (offset : Nat) (cs : List Char) :
    (Lines.startsFrom starts offset cs).toList = starts.toList ++ lineStarts offset cs := by
  induction cs generalizing starts offset with
  | nil => simp [Lines.startsFrom, lineStarts]
  | cons c cs ih =>
      rw [Lines.startsFrom, lineStarts]
      split
      · rw [ih, Array.toList_push, List.append_assoc]
        rfl
      · exact ih _ _

theorem le_of_mem_lineStarts {offset n : Nat} {cs : List Char} (h : n ∈ lineStarts offset cs) :
    offset < n ∧ n ≤ offset + byteLength cs := by
  induction cs generalizing offset with
  | nil => cases h
  | cons c cs ih =>
      have hpos := c.utf8Size_pos
      rw [lineStarts] at h
      rw [byteLength_cons]
      split at h
      · rcases List.mem_cons.mp h with rfl | h
        · omega
        · have := ih h
          omega
      · have := ih h
        omega

theorem lineStarts_of_not_mem {offset : Nat} {cs : List Char} (h : '\n' ∉ cs) :
    lineStarts offset cs = [] := by
  induction cs generalizing offset with
  | nil => rfl
  | cons c cs ih =>
      rw [List.mem_cons, not_or] at h
      rw [lineStarts, if_neg (Ne.symm h.1), ih h.2]

/-- Characters are some whole lines and the start of another. -/
theorem exists_lines (cs : List Char) :
    ∃ whole current, cs = whole ++ current ∧ '\n' ∉ current ∧
      (whole = [] ∨ ∃ ds, whole = ds ++ ['\n']) := by
  obtain ⟨xs, ys, hcs, hx, hy⟩ := exists_run (fun c => c != '\n') cs.reverse
  refine ⟨ys.reverse, xs.reverse, ?_, ?_, ?_⟩
  · rw [← List.reverse_append, ← hcs, List.reverse_reverse]
  · rw [List.mem_reverse]
    intro hmem
    simpa using hx '\n' hmem
  · cases ys with
    | nil => exact .inl rfl
    | cons c ys =>
        have hc : c = '\n' := by simpa using hy
        exact .inr ⟨ys.reverse, by rw [hc, List.reverse_cons]⟩

/-- The last line starts behind the whole lines. -/
theorem getElem?_lineStarts {whole : List Char} (h : whole = [] ∨ ∃ ds, whole = ds ++ ['\n']) :
    (0 :: lineStarts 0 whole)[(lineStarts 0 whole).length]? = some (byteLength whole) := by
  rcases h with rfl | ⟨ds, rfl⟩
  · rfl
  · have hlast : lineStarts 0 (ds ++ ['\n']) = lineStarts 0 ds ++ [byteLength ds + 1] := by
      rw [lineStarts_append, Nat.zero_add]
      rfl
    rw [hlast, List.length_append, List.length_singleton, List.getElem?_cons_succ,
      List.getElem?_concat_length, byteLength_append]
    rfl

/-! ### Counting -/

theorem advanceAll_of_not_mem {q : Position} {cs : List Char} (h : '\n' ∉ cs) :
    q.advanceAll cs = ⟨q.offset + byteLength cs, q.line, q.column + cs.length⟩ := by
  induction cs generalizing q with
  | nil => rfl
  | cons c cs ih =>
      rw [List.mem_cons, not_or] at h
      rw [Position.advanceAll_cons, ih h.2, Position.advance, if_neg (Ne.symm h.1), byteLength_cons,
        List.length_cons, Nat.add_assoc, Nat.add_assoc, Nat.add_comm 1]

theorem line_advanceAll (q : Position) (offset : Nat) (cs : List Char) :
    (q.advanceAll cs).line = q.line + (lineStarts offset cs).length := by
  induction cs generalizing q offset with
  | nil => rfl
  | cons c cs ih =>
      rw [Position.advanceAll_cons, lineStarts, Position.advance]
      split
      · rw [ih _ (offset + 1), List.length_cons, Nat.add_assoc, Nat.add_comm 1]
      · exact ih _ _

/-- Behind whole lines the column is the first one. -/
theorem advanceAll_whole {whole : List Char} (h : whole = [] ∨ ∃ ds, whole = ds ++ ['\n']) :
    Position.start.advanceAll whole =
      ⟨byteLength whole, (lineStarts 0 whole).length + 1, 1⟩ := by
  have hoffset : (Position.start.advanceAll whole).offset = byteLength whole :=
    (offset_advanceAll _ whole).trans (Nat.zero_add _)
  have hline : (Position.start.advanceAll whole).line = (lineStarts 0 whole).length + 1 :=
    (line_advanceAll _ 0 whole).trans (Nat.add_comm 1 _)
  have hcolumn : (Position.start.advanceAll whole).column = 1 := by
    rcases h with rfl | ⟨ds, rfl⟩
    · rfl
    · rw [Position.advanceAll_append]
      rfl
  rw [← hoffset, ← hline, ← hcolumn]

/-! ### Looking up -/

theorem toList_starts (source : String) :
    (Lines.ofSource source).starts.toList = 0 :: lineStarts 0 source.toList :=
  toList_startsFrom #[0] 0 source.toList

theorem pairwise_lineStarts (offset : Nat) (cs : List Char) :
    (lineStarts offset cs).Pairwise (· < ·) := by
  induction cs generalizing offset with
  | nil => exact .nil
  | cons c cs ih =>
      rw [lineStarts]
      split
      · exact .cons (fun _ hn => (le_of_mem_lineStarts hn).1) (ih _)
      · exact ih _

/-- The line table is increasing. -/
theorem pairwise_starts (source : String) :
    (Lines.ofSource source).starts.toList.Pairwise (· < ·) := by
  rw [toList_starts]
  exact .cons (fun _ hn => (le_of_mem_lineStarts hn).1) (pairwise_lineStarts 0 _)

/-- Where the first `n` entries of an increasing table are those up to an offset, the search finds
the offset at the last of them, or would put it behind them. -/
theorem search_cases {starts : Array Nat} {offset n lo hi : Nat} {h : hi ≤ starts.size}
    (hinc : starts.toList.Pairwise (· < ·))
    (hn : ∀ i, (hi : i < starts.size) → (starts[i] ≤ offset ↔ i < n)) (hlo : lo ≤ n)
    (hhi : n ≤ hi) :
    (∃ i, Lines.search starts offset lo hi h = .ok i ∧ i + 1 = n) ∨
      Lines.search starts offset lo hi h = .error n := by
  fun_induction Lines.search starts offset lo hi h with
  | case1 lo hi h hlt middle hcmp ih =>
      have hbelow := Nat.compare_eq_lt.mp hcmp
      have hmiddle := (hn middle (by omega)).mp (Nat.le_of_lt hbelow)
      exact ih hmiddle hhi
  | case2 lo hi h hlt middle hcmp =>
      have hat := Nat.compare_eq_eq.mp hcmp
      have hmiddle := (hn middle (by omega)).mp (Nat.le_of_eq hat)
      refine .inl ⟨middle, rfl, ?_⟩
      -- the entry behind it is greater
      by_contra hne
      have hnext := (hn (middle + 1) (by omega)).mpr (by omega)
      have hless := List.pairwise_iff_getElem.mp hinc middle (middle + 1) (by simp; omega)
        (by simp; omega) (Nat.lt_succ_self middle)
      simp only [Array.getElem_toList] at hless
      omega
  | case3 lo hi h hlt middle hcmp ih =>
      have habove := Nat.compare_eq_gt.mp hcmp
      have hmiddle := (hn middle (by omega)).not.mp (Nat.not_le_of_lt habove)
      exact ih hlo (Nat.le_of_not_lt hmiddle)
  | case4 lo hi h hlt =>
      have heq : lo = n := by omega
      exact .inr (heq ▸ rfl)

theorem getElem_append_le_iff {as bs : List Nat} {n i : Nat} (has : ∀ a ∈ as, a ≤ n)
    (hbs : ∀ b ∈ bs, n < b) (hi : i < (as ++ bs).length) :
    (as ++ bs)[i] ≤ n ↔ i < as.length := by
  rw [List.getElem_append]
  split
  · next hlt => exact iff_of_true (has _ (List.getElem_mem hlt)) hlt
  · next hge => exact iff_of_false (Nat.not_le_of_lt (hbs _ (List.getElem_mem _))) hge

/-- A boundary is on the last line that starts up to it. -/
theorem lineIndex_byteLength {source : String} {before after : List Char}
    (h : source.toList = before ++ after) :
    (Lines.ofSource source).lineIndex (byteLength before) = (lineStarts 0 before).length := by
  have hstarts := toList_starts source
  have hinc := pairwise_starts source
  generalize Lines.ofSource source = t at hstarts hinc ⊢
  rw [h, lineStarts_append, Nat.zero_add, ← List.cons_append] at hstarts
  have hbefore : ∀ n ∈ 0 :: lineStarts 0 before, n ≤ byteLength before := by
    refine List.forall_mem_cons.mpr ⟨Nat.zero_le _, fun n hn => ?_⟩
    have := (le_of_mem_lineStarts hn).2
    rwa [Nat.zero_add] at this
  have hafter : ∀ n ∈ lineStarts (byteLength before) after, byteLength before < n :=
    fun _ hn => (le_of_mem_lineStarts hn).1
  have hupto : ∀ i, (hi : i < t.starts.size) →
      (t.starts[i] ≤ byteLength before ↔ i < (lineStarts 0 before).length + 1) := by
    intro i hi
    simp only [← Array.getElem_toList, hstarts]
    exact getElem_append_le_iff hbefore hafter _
  have hsize : (lineStarts 0 before).length + 1 ≤ t.starts.size := by
    rw [← Array.length_toList, hstarts, List.length_append]
    exact Nat.le_add_right _ _
  rw [Lines.lineIndex]
  rcases search_cases hinc hupto (Nat.zero_le _) hsize with ⟨i, hfound, hi⟩ | hfound
  · rw [hfound]
    exact Nat.succ.inj hi
  · rw [hfound]
    rfl

theorem sliceBytes_append (cs ds es : List Char) :
    sliceBytes (byteLength cs) (byteLength (cs ++ ds)) (cs ++ (ds ++ es)) = some ds := by
  have hsize : byteLength (cs ++ ds) - byteLength cs = byteLength ds := by simp
  rw [sliceBytes, if_pos (by simp), dropBytes_append, Option.bind_some, hsize, takeBytes,
    takeBytesFrom_append]
  rfl

/-- **At a character boundary the line table gives the position that counting gives.** -/
theorem positionAt_byteLength {source : String} {before after : List Char}
    (h : source.toList = before ++ after) :
    (Lines.ofSource source).positionAt (byteLength before) = Position.start.advanceAll before := by
  have hindex := lineIndex_byteLength h
  obtain ⟨whole, current, rfl, hno, hwhole⟩ := exists_lines before
  have hmin : min (byteLength (whole ++ current)) source.utf8ByteSize =
      byteLength (whole ++ current) := by
    rw [← byteLength_toList, h, byteLength_append (whole ++ current)]
    omega
  have hstarts : lineStarts 0 (whole ++ current) = lineStarts 0 whole := by
    rw [lineStarts_append, lineStarts_of_not_mem hno, List.append_nil]
  have hstart : (Lines.ofSource source).starts.getD (lineStarts 0 whole).length 0 =
      byteLength whole := by
    rw [Array.getD_eq_getD_getElem?, ← Array.getElem?_toList, toList_starts, h, lineStarts_append,
      hstarts, ← List.cons_append, List.getElem?_append_left (by simp),
      getElem?_lineStarts hwhole, Option.getD_some]
  rw [hstarts] at hindex
  have hslice : (Lines.ofSource source).text? (byteLength whole)
      (byteLength (whole ++ current)) = some current := by
    rw [Lines.text?, Lines.ofSource, h, List.append_assoc]
    exact sliceBytes_append whole current after
  have hsource : (Lines.ofSource source).source = source := rfl
  rw [Position.advanceAll_append, advanceAll_whole hwhole, advanceAll_of_not_mem hno]
  simp only [Lines.positionAt, hsource, hmin, hindex, hstart, hslice, Option.getD_some]
  simp only [byteLength_append, Nat.add_comm 1]

/-- The offset of `q` is a character boundary of a source, and `q` is the position there, counted
from the start of the source and looked up in its line table. -/
structure Position.AgreesIn (q : Position) (source : String) : Prop where
  boundary : ∃ before, takeBytes q.offset source.toList = some before
  counted : ∀ before, takeBytes q.offset source.toList = some before →
    q = Position.start.afterText (String.ofList before)
  lookedUp : q = (Lines.ofSource source).positionAt q.offset

/-- At every character boundary, looking up gives what counting gives. -/
theorem positionAt_eq_afterText {source : String} {offset : Nat} {before : List Char}
    (h : takeBytes offset source.toList = some before) :
    (Lines.ofSource source).positionAt offset =
      Position.start.afterText (String.ofList before) := by
  obtain ⟨after, hsource, rfl⟩ := takeBytes_eq_some_iff.mp h
  rw [positionAt_byteLength hsource, Position.afterText, String.toList_ofList]

/-- Every place in a source agrees. -/
theorem Position.Within.agreesIn {q : Position} {source : String} (h : q.Within source) :
    q.AgreesIn source := by
  obtain ⟨before, ⟨after, hsource⟩, rfl⟩ := h
  have hoffset : (Position.start.advanceAll before).offset = byteLength before :=
    (offset_advanceAll _ before).trans (Nat.zero_add _)
  have hlookup := positionAt_byteLength hsource.symm
  have htake : takeBytes (byteLength before) source.toList = some before :=
    takeBytes_eq_some_iff.mpr ⟨after, hsource.symm, rfl⟩
  refine ⟨⟨before, hoffset ▸ htake⟩, fun before' h' => ?_, by rw [hoffset, hlookup]⟩
  rw [hoffset] at h'
  rw [← positionAt_eq_afterText h', hlookup]

/-- **Two ways to compute a position agree.**  Every end of the span of a token or an error that a
lexer hands out, under any sequence of calls, is a character boundary of the source, and counting
and looking up give this position for it; and they give the same position for every character
boundary. -/
theorem positions_agree [Limits] (source : String) (p : Preferences) (calls : List Call) :
    (∀ r ∈ (Lexer.ofSource source p).replies calls,
      (∀ t ∈ r.delivered, t.span.start.AgreesIn source ∧ t.span.stop.AgreesIn source) ∧
        ∀ e ∈ r.error?, e.span.start.AgreesIn source ∧ e.span.stop.AgreesIn source) ∧
      ∀ offset before, takeBytes offset source.toList = some before →
        (Lines.ofSource source).positionAt offset =
          Position.start.afterText (String.ofList before) := by
  refine ⟨fun r hr => ?_, fun offset before => positionAt_eq_afterText⟩
  have hall : Upheld p (fun _ _ => True) (fun _ => True) := upheld_trivial p
  obtain ⟨htokens, herror⟩ := hall.replies trivial calls r hr
  refine ⟨fun t ht => ?_, fun e he => ?_⟩
  · obtain ⟨-, hstart, hstop⟩ := htokens t ht
    exact ⟨hstart.agreesIn, hstop.agreesIn⟩
  · obtain ⟨hstart, hstop⟩ := herror e he
    exact ⟨hstart.agreesIn, hstop.agreesIn⟩

end Blade
