import Blade.Limits.Development
import Blade.Proofs.Progress

/-!
# Proofs — Merging

What merging the spans of neighbouring tokens gives.

Merging keeps the least start and the greatest end, by their offsets; where two spans have the same
offset at one end, which of the two positions is kept depends on the order.  For neighbouring tokens
it does not: their spans lie behind each other, so each offset belongs to one position only.

* `Merging.exists_start`, `Merging.exists_stop`: what is kept, for any spans.
* `Merging.result_of_place`: for the spans of placed cuts, that is the span of all slices.
* `Lexer.exists_run`: neighbouring tokens that a lexer hands out are placed cuts of its source.
* `merging_covers_run`: so their merged spans cover just them, in whatever order they are merged.
-/

namespace Blade

/-- A way to merge some spans, two at a time. -/
inductive Merging where
  | one (span : Span)
  | both (left right : Merging)
  deriving DecidableEq, Repr

namespace Merging

/-- The spans that are merged, from left to right. -/
def spans : Merging → List Span
  | .one span => [span]
  | .both left right => left.spans ++ right.spans

/-- The span that comes out. -/
def result : Merging → Span
  | .one span => span
  | .both left right => left.result.merge right.result

/-- The start that is kept is one of the starts, and none is before it. -/
theorem exists_start (m : Merging) : ∃ s ∈ m.spans, m.result.start = s.start ∧
    ∀ t ∈ m.spans, s.start.offset ≤ t.start.offset := by
  induction m with
  | one span => exact ⟨span, List.mem_singleton_self _, rfl, by simp [spans]⟩
  | both left right ihl ihr =>
      obtain ⟨s, hs, hstart, hleast⟩ := ihl
      obtain ⟨s', hs', hstart', hleast'⟩ := ihr
      simp only [spans, result, Span.merge, List.forall_mem_append, hstart, hstart']
      by_cases hlt : s.start.offset < s'.start.offset
      · rw [if_pos hlt]
        exact ⟨s, List.mem_append_left _ hs, rfl, hleast, fun t ht =>
          (Nat.le_of_lt hlt).trans (hleast' t ht)⟩
      · rw [if_neg hlt]
        exact ⟨s', List.mem_append_right _ hs', rfl, fun t ht =>
          (Nat.le_of_not_lt hlt).trans (hleast t ht), hleast'⟩

/-- The end that is kept is one of the ends, and none is behind it. -/
theorem exists_stop (m : Merging) : ∃ s ∈ m.spans, m.result.stop = s.stop ∧
    ∀ t ∈ m.spans, t.stop.offset ≤ s.stop.offset := by
  induction m with
  | one span => exact ⟨span, List.mem_singleton_self _, rfl, by simp [spans]⟩
  | both left right ihl ihr =>
      obtain ⟨s, hs, hstop, hgreatest⟩ := ihl
      obtain ⟨s', hs', hstop', hgreatest'⟩ := ihr
      simp only [spans, result, Span.merge, List.forall_mem_append, hstop, hstop']
      by_cases hlt : s'.stop.offset < s.stop.offset
      · rw [if_pos hlt]
        exact ⟨s, List.mem_append_left _ hs, rfl, hgreatest, fun t ht =>
          (hgreatest' t ht).trans (Nat.le_of_lt hlt)⟩
      · rw [if_neg hlt]
        exact ⟨s', List.mem_append_right _ hs', rfl, fun t ht =>
          (hgreatest t ht).trans (Nat.le_of_not_lt hlt), hgreatest'⟩

end Merging

/-! ### The spans of placed cuts -/

variable {start : Position} {cuts : List Cut} {t : LocatedToken}

/-- The first token starts where the first slice does. -/
theorem exists_head?_place (start : Position) (hc : cuts ≠ []) :
    ∃ first, (place start cuts).head? = some first ∧ first.span.start = start := by
  cases cuts with
  | nil => exact absurd rfl hc
  | cons cut cuts => exact ⟨_, rfl, rfl⟩

/-- The last token ends where the last slice does. -/
theorem exists_getLast?_place (start : Position) (hc : cuts ≠ []) :
    ∃ last, (place start cuts).getLast? = some last ∧
      last.span.stop = start.advanceAll (slices cuts) := by
  obtain ⟨cuts, cut, rfl⟩ := (List.eq_nil_or_concat' cuts).resolve_left hc
  have hlast : (place start (cuts ++ [cut])).getLast? = some ⟨cut.token,
      start.advanceAll (slices cuts), (start.advanceAll (slices cuts)).advanceAll cut.slice⟩ := by
    rw [place_append]
    exact List.getLast?_concat
  refine ⟨_, hlast, ?_⟩
  rw [slices_append, Position.advanceAll_append, slices_cons, slices_nil, List.append_nil]

/-- A position lies in the slices exactly if it lies in one of the tokens. -/
theorem contains_place_iff (start pos : Position) (cuts : List Cut) :
    (Span.mk start (start.advanceAll (slices cuts))).contains pos = true ↔
      ∃ t ∈ place start cuts, t.span.contains pos = true := by
  induction cuts generalizing start with
  | nil =>
      rw [Span.contains_iff]
      constructor
      · rintro ⟨hle, hlt⟩
        exact absurd hlt (Nat.not_lt_of_le hle)
      · rintro ⟨_, hmem, -⟩
        cases hmem
  | cons cut cuts ih =>
      rw [place, List.exists_mem_cons_iff, ← ih]
      simp only [Span.contains_iff, slices_cons, Position.advanceAll_append, offset_advanceAll]
      omega

/-- **Merging the spans of placed cuts gives the span of all slices**, in whatever order. -/
theorem Merging.result_of_place {m : Merging}
    (hm : m.spans.Perm ((place start cuts).map (·.span))) :
    m.result = ⟨start, start.advanceAll (slices cuts)⟩ := by
  obtain ⟨s, hs, hstart, hleast⟩ := m.exists_start
  obtain ⟨s', hs', hstop, hgreatest⟩ := m.exists_stop
  have hmem {u : Span} : u ∈ m.spans ↔ ∃ t ∈ place start cuts, t.span = u := by
    rw [hm.mem_iff, List.mem_map]
  obtain ⟨t, ht, rfl⟩ := hmem.mp hs
  obtain ⟨t', ht', rfl⟩ := hmem.mp hs'
  have hne : cuts ≠ [] := by
    rintro rfl
    cases ht
  obtain ⟨first, hfirst, hfirstStart⟩ := exists_head?_place start hne
  obtain ⟨last, hlast, hlastStop⟩ := exists_getLast?_place start hne
  obtain ⟨before, slice, after, -, hspan⟩ := exists_span_of_mem_place ht
  obtain ⟨before', slice', after', hslices, hspan'⟩ := exists_span_of_mem_place ht'
  -- no start is before that of the first token, and no end behind that of the last
  have hbefore : before = [] := by
    have hle := hleast _ (hmem.mpr ⟨first, List.mem_of_mem_head? hfirst, rfl⟩)
    rw [hspan, hfirstStart, offset_advanceAll] at hle
    exact byteLength_eq_zero_iff.mp (by omega)
  have hafter : after' = [] := by
    have hle := hgreatest _ (hmem.mpr ⟨last, List.mem_of_mem_getLast? hlast, rfl⟩)
    rw [hspan', hlastStop, offset_advanceAll, offset_advanceAll, hslices, byteLength_append] at hle
    exact byteLength_eq_zero_iff.mp (by omega)
  have hresult : m.result = ⟨t.span.start, t'.span.stop⟩ := by rw [← hstart, ← hstop]
  rw [hresult, hspan, hspan', hbefore, hslices, hafter, List.append_nil]
  rfl

/-! ### Neighbouring tokens of a lexer -/

variable {source : String} {p : Preferences} {calls : List Call} {run : List LocatedToken}

/-- Neighbouring tokens that are handed out are placed cuts of the source.  Where no tokens are
lost, nothing lies between them. -/
theorem Lexer.exists_run [Limits] (hloss : (ofSource source p).Lossless calls)
    (hrun : run <:+: (ofSource source p).taken calls) (hne : ∀ t ∈ run, t.value ≠ .eof) :
    ∃ before cuts after, source.toList = before ++ slices cuts ++ after ∧
      run = place (Position.start.advanceAll before) cuts := by
  obtain ⟨_, -, heq, hafter⟩ :=
    (tallied_filled source p).after (balanced_ofSource source p) calls
  cases heq hloss
  obtain ⟨cuts, hledger, hfilled⟩ := hafter
  obtain ⟨earlier, later, htaken⟩ := hrun
  -- the ends of input that were handed out too are no part of the run
  rw [List.nil_append, ← htaken, contents_append, contents_append, contents_of_ne_eof hne,
    List.append_assoc, List.append_assoc] at hledger
  obtain ⟨before, cuts', rfl, -, hrest⟩ := exists_of_place_eq_append hledger.symm
  obtain ⟨middle, _, rfl, hmiddle, -⟩ := exists_of_place_eq_append hrest.symm
  obtain ⟨after, hsource⟩ := hfilled.inSource
  rw [slices_append, slices_append, ← List.append_assoc, List.append_assoc] at hsource
  exact ⟨slices before, middle, _, hsource.symm, hmiddle⟩

/-- **Merged spans of neighbouring tokens cover just the tokens.**  Whatever calls have handed them
out, before or after an error, and in whatever order and grouping their spans are merged, the result
goes from the start of the first token to the end of the last, covers what the tokens cover one
behind the other, and contains a position exactly if one of the tokens does. -/
theorem merging_covers_run [Limits] (hloss : (Lexer.ofSource source p).Lossless calls)
    (hrun : run <:+: (Lexer.ofSource source p).taken calls) (hne : ∀ t ∈ run, t.value ≠ .eof)
    {m : Merging} (hm : m.spans.Perm (run.map (·.span))) :
    run.head?.map (·.span.start) = some m.result.start ∧
      run.getLast?.map (·.span.stop) = some m.result.stop ∧
      (m.result.slice source).toList = run.flatMap (fun t => (t.span.slice source).toList) ∧
      ∀ pos : Position, m.result.contains pos = true ↔
        ∃ t ∈ run, t.span.contains pos = true := by
  obtain ⟨before, cuts, after, hsource, rfl⟩ := Lexer.exists_run hloss hrun hne
  have hcuts : cuts ≠ [] := by
    rintro rfl
    obtain ⟨s, hs, -⟩ := m.exists_start
    rw [hm.eq_nil] at hs
    cases hs
  obtain ⟨first, hfirst, hstart⟩ := exists_head?_place (.advanceAll .start before) hcuts
  obtain ⟨last, hlast, hstop⟩ := exists_getLast?_place (.advanceAll .start before) hcuts
  rw [Merging.result_of_place hm, hfirst, hlast]
  refine ⟨congrArg some hstart, congrArg some hstop, ?_, fun pos => contains_place_iff _ pos cuts⟩
  have hslices := congrArg slices (slice_place hsource)
  rw [← Position.advanceAll_append, slice_advanceAll hsource .start rfl, String.toList_ofList,
    ← hslices]
  simp [slices, List.flatMap_map]

/-- In `{{a}}x@js(}` the text is handed out after the error of the bracket behind it; its span and
that of the output expression are merged with the later one first. -/
theorem merging_covers_data_text :
    let source := "\x7b\x7ba\x7d\x7dx@js(\x7d"
    let calls := [Call.next, .peek, .next]
    let run : List LocatedToken :=
      [⟨dataToken true ['a'], ⟨⟨0, 1, 1⟩, ⟨5, 1, 6⟩⟩⟩, ⟨.text "x", ⟨⟨5, 1, 6⟩, ⟨6, 1, 7⟩⟩⟩]
    let m := Merging.both (.one ⟨⟨5, 1, 6⟩, ⟨6, 1, 7⟩⟩) (.one ⟨⟨0, 1, 1⟩, ⟨5, 1, 6⟩⟩)
    (Lexer.ofSource source {}).Lossless calls ∧ run <:+: (Lexer.ofSource source {}).taken calls ∧
      (∀ t ∈ run, t.value ≠ .eof) ∧ m.spans.Perm (run.map (·.span)) ∧
      run.head?.map (·.span.start) = some m.result.start ∧
      run.getLast?.map (·.span.stop) = some m.result.stop ∧
      (m.result.slice source).toList = run.flatMap (fun t => (t.span.slice source).toList) ∧
      ∀ pos : Position, m.result.contains pos = true ↔
        ∃ t ∈ run, t.span.contains pos = true := by
  intro source calls run m
  have hloss : (Lexer.ofSource source {}).Lossless calls :=
    Lexer.lossless_of_not_mem (by decide) _
  have hrun : run <:+: (Lexer.ofSource source {}).taken calls := by
    have htaken : (Lexer.ofSource source {}).taken calls = run := by decide +kernel
    exact htaken ▸ List.infix_refl _
  have hne : ∀ t ∈ run, t.value ≠ .eof := by decide
  have hm : m.spans.Perm (run.map (·.span)) := List.Perm.swap _ _ _
  exact ⟨hloss, hrun, hne, hm, merging_covers_run hloss hrun hne hm⟩

end Blade
