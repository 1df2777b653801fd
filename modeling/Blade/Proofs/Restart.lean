import Blade.Limits.Development
import Blade.Proofs.Outcome
import Blade.Proofs.Spans

/-!
# Proofs — Restart

Lexing can start again where a token ends.  Nothing of what came before that place is left in the
lexer: the rest of the source, lexed on its own, gives the tokens and the ending that follow, each
position moved to where the rest starts.

* `LexesTo.restart`: the cuts after a cut are those of the characters after it.
* `movedBy_advanceAll`: moving the start of some characters moves the place past them.
* `runs_restart`: a run from the end of a token is a run of the rest of the source.
-/

namespace Blade

/-! ### The characters after a cut -/

variable {p : Preferences} {h : Held} {cut : Cut} {before after : List Cut}

/-- An element of two lists, one behind the other, is in the second one or in the first one. -/
theorem append_eq_append_cons_cases {α : Type} {xs ys before after : List α} {a : α}
    (h : xs ++ ys = before ++ a :: after) :
    (∃ zs, before = xs ++ zs ∧ ys = zs ++ a :: after) ∨
      ∃ zs, xs = before ++ a :: zs ∧ after = zs ++ ys := by
  rcases List.append_eq_append_iff.mp h with ⟨zs, hbefore, hys⟩ | ⟨zs, hxs, hrest⟩
  · exact .inl ⟨zs, hbefore, hys⟩
  · cases zs with
    | nil => exact .inl ⟨[], by simp [hxs], hrest.symm⟩
    | cons z zs =>
        obtain ⟨rfl, rfl⟩ := List.cons.inj hrest
        exact .inr ⟨zs, hxs, rfl⟩

namespace Held

/-- What is cut off where text is flushed is one cut, of all that is held back. -/
theorem flushed_eq_append_cons (hf : h.flushed = before ++ cut :: after) :
    before = [] ∧ after = [] ∧ cut.slice = h.chars ∧ h.kept = [] := by
  have hkept := h.kept_of_flushed_ne_nil (by simp [hf])
  have hslices := h.slices_flushed
  unfold flushed at hf hslices
  split at hf
  · cases before <;> cases hf
  · next ht =>
      rw [if_neg ht, hkept] at hslices
      cases before with
      | nil =>
          obtain ⟨rfl, rfl⟩ := List.cons.inj hf
          exact ⟨rfl, rfl, rfl, hkept⟩
      | cons _ before => cases before <;> cases hf

/-- What closing a block cuts off is one cut, of all that is held back. -/
theorem closed_eq_append_cons (hc : h.closed p = before ++ cut :: after) :
    before = [] ∧ after = [] ∧ cut.slice = h.chars ∧ h.left p = [] := by
  have hne : h.closed p ≠ [] := by simp [hc]
  have hleft := h.left_of_closed_ne_nil hne
  unfold closed at hc
  split at hc
  · split at hc
    · obtain ⟨hbefore, hafter, hslice, -⟩ := flushed_eq_append_cons hc
      exact ⟨hbefore, hafter, hslice, hleft⟩
    · cases before with
      | nil =>
          obtain ⟨rfl, rfl⟩ := List.cons.inj hc
          exact ⟨rfl, rfl, rfl, hleft⟩
      | cons _ before => cases before <;> cases hc
  · obtain ⟨hbefore, hafter, hslice, -⟩ := flushed_eq_append_cons hc
    exact ⟨hbefore, hafter, hslice, hleft⟩

/-- **A cut ends before the piece that is read, or behind it.**  Either way nothing is held back
there. -/
theorem cuts_eq_append_cons [Limits] {chunk rest : List Char} {e : Effect}
    (hp : Piece p h.openName? chunk rest e) (hc : h.cuts p chunk e = before ++ cut :: after) :
    (slices (before ++ [cut]) = h.chars ++ chunk ∧ after = [] ∧ h.perform p chunk e = {}) ∨
      (slices (before ++ [cut]) = h.chars ∧ h.openName? = none ∧
        after = ({} : Held).cuts p chunk e ∧ h.perform p chunk e = ({} : Held).perform p chunk e) := by
  cases e with
  | hold value => cases before <;> cases hc
  | token token list =>
      have hopen := hp.block_of_token
      have hb := openName?_eq_none_iff.mp hopen
      have hperform : h.perform p chunk (.token token list) = {} := by simp [perform, hb]
      rcases append_eq_append_cons_cases hc with ⟨zs, rfl, hlast⟩ | ⟨zs, hflushed, rfl⟩
      · cases zs with
        | nil =>
            obtain ⟨rfl, rfl⟩ := List.cons.inj hlast
            refine .inl ⟨?_, rfl, hperform⟩
            simp [← List.append_assoc, h.slices_flushed]
        | cons _ zs => cases zs <;> cases hlast
      · obtain ⟨rfl, rfl, hslice, hkept⟩ := flushed_eq_append_cons hflushed
        refine .inr ⟨by simp [hslice], hopen, ?_, hperform⟩
        rw [hkept]
        rfl
  | enter name list =>
      obtain ⟨rfl, rfl, hslice, hkept⟩ := flushed_eq_append_cons hc
      refine .inr ⟨by simp [hslice], hp.block_of_enter, rfl, ?_⟩
      rw [perform, hkept]
      rfl
  | leave =>
      obtain ⟨rfl, rfl, hslice, hleft⟩ := closed_eq_append_cons hc
      exact .inl ⟨by simp [hslice], rfl, by simp [perform, hleft]⟩

end Held

/-- **The cuts after a cut are those of the characters after it**, read with nothing held back. -/
theorem LexesTo.restart [Limits] {rest : List Char} {flaw? : Option Flaw}
    (hl : LexesTo p h rest (before ++ cut :: after) flaw?) :
    ∃ suffix, h.chars ++ rest = slices (before ++ [cut]) ++ suffix ∧
      LexesTo p {} suffix after flaw? := by
  generalize hcuts : before ++ cut :: after = cuts at hl
  induction hl generalizing before with
  | @done h hs =>
      obtain ⟨rfl, rfl, hslice, -⟩ := Held.closed_eq_append_cons hcuts.symm
      exact ⟨[], by simp [hslice], .done (.inl rfl)⟩
  | cutOff => cases before <;> cases hcuts
  | @unclosed h name chunk body list hs hb hpiece hno =>
      obtain ⟨rfl, rfl, hslice, hkept⟩ := Held.flushed_eq_append_cons hcuts.symm
      refine ⟨chunk ++ body, by simp [hslice], ?_⟩
      rw [hkept]
      exact .unclosed hs rfl hpiece hno
  | mismatched => cases before <;> cases hcuts
  | @more h chunk rest e cuts flaw? hpiece hlex ih =>
      rcases append_eq_append_cons_cases hcuts.symm with ⟨zs, rfl, hys⟩ | ⟨zs, hxs, rfl⟩
      · -- the cut is made later
        obtain ⟨suffix, hsuffix, hrest⟩ := ih hys.symm
        refine ⟨suffix, ?_, hrest⟩
        rw [← List.append_assoc, ← h.slices_cuts p chunk e, List.append_assoc, hsuffix]
        simp only [slices_append, List.append_assoc]
      · rcases Held.cuts_eq_append_cons hpiece hxs with
          ⟨hslices, rfl, hperform⟩ | ⟨hslices, hopen, rfl, hperform⟩
        · rw [hperform] at hlex
          exact ⟨rest, by rw [hslices, List.append_assoc], hlex⟩
        · rw [hopen] at hpiece
          rw [hperform] at hlex
          exact ⟨chunk ++ rest, by rw [hslices], .more hpiece hlex⟩

/-! ### Positions moved -/

/-- The position `q` of a text that starts at `d`. -/
def Position.movedBy (q d : Position) : Position where
  offset := q.offset + d.offset
  line := q.line + (d.line - 1)
  column := if q.line = 1 then q.column + (d.column - 1) else q.column

/-- Both ends of a span moved. -/
def Span.movedBy (s : Span) (d : Position) : Span :=
  ⟨s.start.movedBy d, s.stop.movedBy d⟩

/-- The value where its span is moved. -/
def Located.movedBy {α : Type} (a : Located α) (d : Position) : Located α :=
  ⟨a.value, a.span.movedBy d⟩

/-- The error in the source in which its own text starts at `d`. -/
def LexError.movedTo (e : LexError) (source : String) (d : Position) : LexError :=
  ⟨e.fault, e.span.movedBy d, source⟩

/-- How a run of `source` ends where the run of the text at `d` ends. -/
def movedEnding (source : String) (d : Position) :
    Except LexError LocatedToken → Except LexError LocatedToken
  | .ok eof => .ok (eof.movedBy d)
  | .error e => .error (e.movedTo source d)

namespace Position

variable {d q : Position}

theorem one_le_line_advanceAll (hq : 1 ≤ q.line) (cs : List Char) : 1 ≤ (q.advanceAll cs).line := by
  induction cs generalizing q with
  | nil => exact hq
  | cons c cs ih =>
      refine ih ?_
      unfold advance
      split
      · exact Nat.le_succ_of_le hq
      · exact hq

theorem one_le_column_advanceAll (hq : 1 ≤ q.column) (cs : List Char) :
    1 ≤ (q.advanceAll cs).column := by
  induction cs generalizing q with
  | nil => exact hq
  | cons c cs ih =>
      refine ih ?_
      unfold advance
      split
      · exact Nat.le_refl 1
      · exact Nat.le_succ_of_le hq

theorem movedBy_advance (hq : 1 ≤ q.line) (c : Char) :
    (q.advance c).movedBy d = (q.movedBy d).advance c := by
  unfold advance
  split
  · simp only [movedBy, Position.mk.injEq]
    refine ⟨by omega, by omega, if_neg (by omega)⟩
  · simp only [movedBy, Position.mk.injEq]
    refine ⟨by omega, trivial, ?_⟩
    split <;> omega

/-- **Moving the start of some characters moves the place past them.** -/
theorem movedBy_advanceAll (hq : 1 ≤ q.line) (cs : List Char) :
    (q.advanceAll cs).movedBy d = (q.movedBy d).advanceAll cs := by
  induction cs generalizing q with
  | nil => rfl
  | cons c cs ih =>
      have hline : 1 ≤ (q.advance c).line := one_le_line_advanceAll hq [c]
      rw [advanceAll_cons, ih hline, movedBy_advance hq, ← advanceAll_cons]

/-- The start of a text moves to where the text starts. -/
theorem start_movedBy (cs : List Char) :
    start.movedBy (start.advanceAll cs) = start.advanceAll cs := by
  have hline : 1 ≤ (start.advanceAll cs).line := one_le_line_advanceAll (Nat.le_refl 1) cs
  have hcolumn : 1 ≤ (start.advanceAll cs).column := one_le_column_advanceAll (Nat.le_refl 1) cs
  generalize start.advanceAll cs = d at hline hcolumn
  obtain ⟨offset, line, column⟩ := d
  dsimp only at hline hcolumn
  simp only [movedBy, start, if_true, Position.mk.injEq]
  omega

end Position

theorem place_movedBy {d q : Position} (hq : 1 ≤ q.line) (cuts : List Cut) :
    place (q.movedBy d) cuts = (place q cuts).map (·.movedBy d) := by
  induction cuts generalizing q with
  | nil => rfl
  | cons cut cuts ih =>
      have hline := Position.one_le_line_advanceAll hq cut.slice
      rw [place, place, List.map_cons, ← Position.movedBy_advanceAll hq, ih hline]
      rfl

theorem endingAt_movedBy {source suffix : String} {d q r : Position} (hq : 1 ≤ q.line)
    (flaw? : Option Flaw) :
    endingAt source (q.movedBy d) (r.movedBy d) flaw? =
      movedEnding source d (endingAt suffix q r flaw?) := by
  cases flaw? with
  | none => rfl
  | some flaw =>
      simp only [endingAt, movedEnding, Flaw.error, LexError.movedTo, Span.movedBy,
        Position.movedBy_advanceAll hq]

/-! ### A run from the end of a token -/

theorem place_eq_append_cons {start : Position} {cuts : List Cut}
    {before after : List LocatedToken} {t : LocatedToken}
    (h : place start cuts = before ++ t :: after) :
    ∃ cuts₁ cut cuts₂, cuts = cuts₁ ++ cut :: cuts₂ ∧
      t.span.stop = start.advanceAll (slices (cuts₁ ++ [cut])) ∧
      after = place t.span.stop cuts₂ := by
  obtain ⟨cuts₁, rest, rfl, -, hrest⟩ := exists_of_place_eq_append h
  cases rest with
  | nil => cases hrest
  | cons cut cuts₂ =>
      obtain ⟨rfl, rfl⟩ := List.cons.inj hrest
      exact ⟨cuts₁, cut, cuts₂, rfl, by simp [Position.advanceAll_append], rfl⟩

namespace Lexer

/-- **Lexing can start again where a token ends.**  From there on, a run delivers the tokens of the
rest of the source and ends as the rest does, with each position moved to where the rest starts.
The rest has no other run (`Runs.unique`). -/
theorem runs_restart [Limits] {source : String} {p : Preferences} {before after : List LocatedToken}
    {t : LocatedToken} {ending : Except LexError LocatedToken} {m : Lexer}
    (hrun : (ofSource source p).Runs (before ++ t :: after) ending m) :
    ∃ suffix tokens ending' m',
      dropBytes t.span.stop.offset source.toList = some suffix ∧
        (ofSource (String.ofList suffix) p).Runs tokens ending' m' ∧
        after = tokens.map (·.movedBy t.span.stop) ∧
        ending = movedEnding source t.span.stop ending' := by
  obtain ⟨cuts, flaw?, hlex, htokens, rfl⟩ := runs_ofSource_iff.mp ⟨m, hrun⟩
  obtain ⟨cuts₁, cut, cuts₂, rfl, hstop, rfl⟩ := place_eq_append_cons htokens.symm
  obtain ⟨suffix, hsource, hrest⟩ := hlex.restart
  rw [List.nil_append] at hsource
  generalize t.span.stop = d at *
  have hline : 1 ≤ Position.start.line := Nat.le_refl 1
  have hmoved : Position.start.movedBy d = d := by rw [hstop, Position.start_movedBy]
  have hplaced (cs : List Char) : d.advanceAll cs = (Position.start.advanceAll cs).movedBy d := by
    rw [Position.movedBy_advanceAll hline, hmoved]
  rw [← String.toList_ofList (l := suffix)] at hrest
  obtain ⟨m', hrun'⟩ := runs_ofSource_iff.mpr ⟨cuts₂, flaw?, hrest, rfl, rfl⟩
  refine ⟨suffix, _, _, m', ?_, hrun', ?_, ?_⟩
  · rw [hstop, offset_advanceAll, hsource]
    exact (Nat.zero_add _).symm ▸ dropBytes_append _ suffix
  · rw [← place_movedBy hline, hmoved]
  · have hbase : Position.start.advanceAll (slices (cuts₁ ++ cut :: cuts₂)) =
        (Position.start.advanceAll (slices cuts₂)).movedBy d := by
      rw [← hplaced, hstop, ← Position.advanceAll_append, ← slices_append, List.append_assoc]
      rfl
    have hend : Position.start.afterText source =
        (Position.start.afterText (String.ofList suffix)).movedBy d := by
      rw [Position.afterText, Position.afterText, String.toList_ofList, ← hplaced, hstop,
        ← Position.advanceAll_append, hsource]
    rw [hbase, hend]
    exact endingAt_movedBy (Position.one_le_line_advanceAll hline _) flaw?

/-- Two output expressions with text between them, and a bracket that does not fit behind them. -/
theorem exists_runs_data_text_data [Limits] :
    ∃ m, (ofSource "\x7b\x7ba\x7d\x7d\nx\x7b\x7bb\x7d\x7d@if(]" {}).Runs
      ([⟨dataToken true ['a'], ⟨⟨0, 1, 1⟩, ⟨5, 1, 6⟩⟩⟩] ++
        ⟨.text "\nx", ⟨⟨5, 1, 6⟩, ⟨7, 2, 2⟩⟩⟩ ::
        [⟨dataToken true ['b'], ⟨⟨7, 2, 2⟩, ⟨12, 2, 7⟩⟩⟩])
      (.error ⟨.bracketMismatch ')' ']', .point ⟨16, 2, 11⟩,
        "\x7b\x7ba\x7d\x7d\nx\x7b\x7bb\x7d\x7d@if(]"⟩) m := by
  have hdata (c : Char) (rest : List Char) (hc : c ≠ '\x7d' ∧ c ≠ '-') :
      Piece {} none (dataOpener true ++ ([c] ++ terminator true)) rest
        (.token (dataToken true [c]) none) :=
    .data (.closed ⟨by simp [terminator, hc.1.symm], trivial⟩) (fun _ => by simp [hc.2.symm])
  have hplain (c : Char) (rest : List Char) (hc : c ≠ '@' ∧ c ≠ '\x7b') :
      Piece {} none [c] rest (.hold [c]) := .plain hc.1 (fun h => hc.2 h.1)
  have hname : NameBefore ['i', 'f'] ('(' :: ([] ++ [']'])) :=
    ⟨by simp, by simp [Text.isAsciiLetter], by simp [Text.isAsciiLetter]⟩
  have hbracket : Mismatched {} (.bracketMismatch ')' ']')
      ('@' :: (['i', 'f'] ++ ([] ++ '(' :: []))) (']' :: []) :=
    .intro hname (by simp) rfl rfl
  have hend : LexesTo {} {} _ [] _ := .mismatched rfl hbracket
  have hsecond := LexesTo.more (h := { chars := ['\n', 'x'], text := ['\n', 'x'] })
    (hdata 'b' _ (by decide)) hend
  have hx := LexesTo.more (h := { chars := ['\n'], text := ['\n'] })
    (hplain 'x' _ (by decide)) hsecond
  have hnewline := LexesTo.more (h := {}) (hplain '\n' _ (by decide)) hx
  have hlex := LexesTo.more (h := {}) (hdata 'a' _ (by decide)) hnewline
  exact runs_ofSource_iff.mpr ⟨_, _, hlex, rfl, rfl⟩

/-- There, what follows the text is read the same on its own. -/
theorem runs_restart_text :
    ∃ suffix tokens ending m',
      dropBytes 7 "\x7b\x7ba\x7d\x7d\nx\x7b\x7bb\x7d\x7d@if(]".toList = some suffix ∧
        (ofSource (String.ofList suffix) {}).Runs tokens ending m' ∧
        [⟨dataToken true ['b'], ⟨⟨7, 2, 2⟩, ⟨12, 2, 7⟩⟩⟩] = tokens.map (·.movedBy ⟨7, 2, 2⟩) ∧
        .error ⟨.bracketMismatch ')' ']', .point ⟨16, 2, 11⟩,
            "\x7b\x7ba\x7d\x7d\nx\x7b\x7bb\x7d\x7d@if(]"⟩ =
          movedEnding "\x7b\x7ba\x7d\x7d\nx\x7b\x7bb\x7d\x7d@if(]" ⟨7, 2, 2⟩ ending := by
  obtain ⟨m, hrun⟩ := exists_runs_data_text_data
  exact runs_restart hrun

end Lexer

end Blade
