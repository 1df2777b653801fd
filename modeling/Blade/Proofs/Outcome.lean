import Blade.Proofs.Cut
import Blade.Proofs.Flaw
import Blade.Proofs.Run

/-!
# Proofs — Outcome

The grammar of a whole source, right or wrong.  `Lexes` with the flaws: `LexesTo p h rest cuts flaw?`
says that with `h` held back, the characters `rest` are cut into `cuts`, up to the end of input or up
to a flaw.  No position occurs in it.

* `exists_lexesTo`: every source is cut up to its end or up to a flaw.
* `runs_ofSource_iff`: a lexer delivers the tokens of the cuts, each one placed where its slice lies,
  and then the end of input or the error of the flaw.
* `exists_runs`: so every lexer comes to the end of input or to an error.
-/

namespace Blade

/-- Something that ends lexing before the end of input. -/
structure Flaw where
  fault : Fault
  /-- The characters between the last token and the span of the error. -/
  before : List Char
  /-- The characters that the span covers. -/
  covered : List Char

/-- The error that reports a flaw, when the last token ended at `base`. -/
def Flaw.error (f : Flaw) (source : String) (base : Position) : LexError :=
  ⟨f.fault, ⟨base.advanceAll f.before, base.advanceAll (f.before ++ f.covered)⟩, source⟩

/-- With `h` held back, `rest` is cut into `cuts`, up to the end of input or to a flaw. -/
inductive LexesTo [Limits] (p : Preferences) :
    Held → List Char → List Cut → Option Flaw → Prop where
  | done {h : Held} : (h.block = none ∨ p.strict = false) → LexesTo p h [] (h.closed p) none
  | cutOff {h : Held} {construct : Construct} {rest : List Char} :
      p.strict = true → h.block = none → CutOff p construct rest →
        LexesTo p h rest [] (some ⟨.unterminatedBlock construct, h.chars, rest⟩)
  | unclosed {h : Held} {name chunk body : List Char} {list : Option ArgumentList} :
      p.strict = true → h.block = none → Piece p none chunk body (.enter name list) →
        ¬ HoldsEnd (String.ofList name) body →
        LexesTo p h (chunk ++ body) h.flushed
          (some ⟨.unterminatedBlock (.rawBlock (String.ofList name)), h.kept, chunk ++ body⟩)
  | mismatched {h : Held} {fault : Fault} {before rest : List Char} :
      h.block = none → Mismatched p fault before rest →
        LexesTo p h (before ++ rest) [] (some ⟨fault, h.chars ++ before, []⟩)
  | more {h : Held} {chunk after : List Char} {e : Effect} {cuts : List Cut}
      {flaw? : Option Flaw} :
      Piece p h.openName? chunk after e → LexesTo p (h.perform p chunk e) after cuts flaw? →
        LexesTo p h (chunk ++ after) (h.cuts p chunk e ++ cuts) flaw?

/-! ### Every source is cut up -/

variable {p : Preferences} {h : Held} {rest : List Char} {cuts : List Cut} {flaw? : Option Flaw}

/-- The rest is cut up, unless it is in a raw block that nothing ends. -/
def CutUp [Limits] (p : Preferences) (h : Held) (rest : List Char) : Prop :=
  (∃ cuts flaw?, LexesTo p h rest cuts flaw?) ∨
    ∃ block args, h.block = some (block, args) ∧ p.strict = true ∧ ¬ HoldsEnd block rest

theorem cutUp_of_flawed [Limits] (hb : h.block = none) (hf : Flawed p rest) : CutUp p h rest := by
  cases hf with
  | cutOff hs hcut => exact .inl ⟨_, _, .cutOff hs hb hcut⟩
  | mismatched heq hm =>
      subst heq
      exact .inl ⟨_, _, .mismatched hb hm⟩

theorem cutUp_of_piece [Limits] {chunk after : List Char} {e : Effect}
    (hp : Piece p h.openName? chunk after e) (hc : CutUp p (h.perform p chunk e) after) :
    CutUp p h (chunk ++ after) := by
  rcases hc with ⟨cuts, flaw?, hl⟩ | ⟨block, args, hb, hs, hno⟩
  · exact .inl ⟨_, _, .more hp hl⟩
  · cases e with
    | hold value =>
        simp only [Held.perform] at hb
        rw [Held.openName?, hb] at hp
        exact .inr ⟨block, args, hb, hs, (holdsEnd_hold_iff hp).not.mpr hno⟩
    | token token list =>
        have hnone := Held.openName?_eq_none_iff.mp hp.block_of_token
        simp only [Held.perform, hnone] at hb
        cases hb
    | enter name list =>
        have hnone := Held.openName?_eq_none_iff.mp hp.block_of_enter
        rw [hp.block_of_enter] at hp
        simp only [Held.perform, Option.some.injEq, Prod.mk.injEq] at hb
        obtain ⟨rfl, rfl⟩ := hb
        exact .inl ⟨_, _, .unclosed hs hnone hp hno⟩
    | leave => cases hb

theorem cutUp [Limits] (p : Preferences) (h : Held) (rest : List Char) : CutUp p h rest := by
  -- on the number of characters, since no piece is empty
  induction hn : rest.length using Nat.strong_induction_on generalizing h rest with
  | _ n ih =>
    have hpiece : ∀ {chunk after e}, rest = chunk ++ after → Piece p h.openName? chunk after e →
        CutUp p h rest := by
      rintro chunk after e rfl hp
      have hpos := List.length_pos_iff.mpr hp.ne_nil
      rw [List.length_append] at hn
      exact cutUp_of_piece hp (ih after.length (by omega) _ after rfl)
    cases rest with
    | nil =>
        cases hb : h.block with
        | none => exact .inl ⟨_, _, .done (.inl hb)⟩
        | some block =>
            cases hs : p.strict with
            | false => exact .inl ⟨_, _, .done (.inr hs)⟩
            | true => exact .inr ⟨block.1, block.2, hb, hs, not_holdsEnd_nil _⟩
    | cons c rest =>
        cases hb : h.block with
        | none =>
            have hopen := Held.openName?_eq_none_iff.mpr hb
            rcases exists_piece_or_flaw p c rest with ⟨chunk, after, e, heq, hp⟩ | hf
            · exact hpiece heq (hopen ▸ hp)
            · exact cutUp_of_flawed hb hf
        | some block =>
            obtain ⟨chunk, after, e, heq, hp⟩ := Lexer.exists_piece_raw p block.1 c rest
            have hp' : Piece p h.openName? chunk after e := by rwa [Held.openName?, hb]
            exact hpiece heq hp'

/-- **Every source is cut up to its end or to a flaw.** -/
theorem exists_lexesTo [Limits] (p : Preferences) (rest : List Char) :
    ∃ cuts flaw?, LexesTo p {} rest cuts flaw? := by
  rcases cutUp p {} rest with hl | ⟨block, args, hb, -⟩
  · exact hl
  · cases hb

/-- How a run ends when its last token ended at `base`: in the end of input at `stop`, or in the
error of a flaw. -/
def endingAt (source : String) (base stop : Position) :
    Option Flaw → Except LexError LocatedToken
  | none => .ok (Lexer.eofToken stop)
  | some flaw => .error (flaw.error source base)

/-! ### A lexer runs to the outcome -/

namespace Lexer

variable {l m : Lexer} {tokens : List LocatedToken} {ending : Except LexError LocatedToken}

theorem mode_of_holds (hh : Holds l h) (hb : h.block = none) : l.mode = .template :=
  mode_of_openName?_none
    ((openName?_of_block? hh.block).trans (Held.openName?_eq_none_iff.mpr hb))

variable [Limits]

/-- **A run goes on past a piece**, once what it cuts off is delivered. -/
theorem runs_of_piece {chunk after : List Char} {e : Effect} (hl : Ready l h)
    (hp : Piece l.preferences h.openName? chunk after e) (hr : l.cursor.rest = chunk ++ after)
    (hrun : { l.step with queue := [] }.Runs tokens ending m) :
    l.Runs (place l.lastFlush (h.cuts l.preferences chunk e) ++ tokens) ending m := by
  have hpast := past_step hl.idle hl.holds hp hr
  have hne := value_ne_eof_of_step hl.idle
  rw [← hpast.queue]
  exact runs_of_step hl.peeked hl.idle (hpast.frame.error.trans hl.idle.error)
    (runs_of_queue (hpast.ready hl).peeked hne hrun)

/-- Where the input ends, what is held back is delivered, and then the end of input. -/
theorem exists_runs_end (hl : Ready l h) (hr : l.cursor.rest = [])
    (hs : h.block = none ∨ l.preferences.strict = false) :
    ∃ m, l.Runs (place l.lastFlush (h.closed l.preferences))
      (.ok (eofToken l.cursor.position)) m := by
  obtain ⟨hq, he, hf⟩ := step_end hl.idle hl.holds hr hs
  have hp := (peeked_step l).trans hl.peeked
  have hrest : ({ l.step with queue := [] } : Lexer).Runs [] _ _ := runs_of_finished hp rfl he hf
  have hrun := runs_of_queue hp (value_ne_eof_of_step hl.idle) hrest
  rw [List.append_nil] at hrun
  exact ⟨_, hq ▸ runs_of_step hl.peeked hl.idle he hrun⟩

/-- A raw block that nothing ends fails the run, from its opener to the end of input. -/
theorem exists_runs_unclosed {block : RawBlock} (hl : Ready l h) (hm : l.mode = .raw block)
    (hs : l.preferences.strict = true) (hno : ¬ HoldsEnd block.name l.cursor.rest) :
    ∃ m, l.Runs [] (.error (.unterminated (.rawBlock block.name) block.openedAt l.cursor)) m := by
  induction hn : l.cursor.rest.length using Nat.strong_induction_on generalizing l h with
  | _ n ih =>
    cases hr : l.cursor.rest with
    | nil =>
        refine ⟨_, runs_of_fail hl.peeked hl.idle ?_⟩
        simp only [step_nil hr, finish, hm, hs, if_true, error_fail]
    | cons c rest =>
        rw [hr] at hno
        obtain ⟨chunk, after, value, hchunk, hp, hno'⟩ :=
          exists_hold_of_not_holdsEnd l.preferences hno
        rw [hchunk] at hr
        have hopen : l.openName? = some block.name := by rw [openName?, hm]
        have hp' : Piece l.preferences h.openName? chunk after (.hold value) := by
          rwa [← openName?_of_block? hl.holds.block, hopen]
        have hstep := step_of_piece (hopen.symm ▸ hp) hr
        have hpast := past_step hl.idle hl.holds hp' hr
        have hpos := List.length_pos_iff.mpr hp.ne_nil
        rw [hr, List.length_append] at hn
        obtain ⟨m, hrun⟩ := ih after.length (by omega) (hpast.ready hl)
          (by rw [hstep]; exact hm) (by rw [hpast.frame.preferences]; exact hs)
          (by rw [hpast.cursor]; exact hno') (by rw [hpast.cursor])
        have herror : LexError.unterminated (.rawBlock block.name) block.openedAt
            l.step.cursor = .unterminated (.rawBlock block.name) block.openedAt l.cursor := by
          rw [hpast.cursor, ← Cursor.skip_append hr, LexError.unterminated_skip]
        rw [herror] at hrun
        exact ⟨m, runs_of_piece hl hp' hr hrun⟩

/-- So does one that is not open yet: the text before it is delivered first. -/
theorem exists_runs_opener {name chunk body : List Char} {list : Option ArgumentList}
    (hl : Ready l h) (hs : l.preferences.strict = true) (hb : h.block = none)
    (hp : Piece l.preferences none chunk body (.enter name list))
    (hr : l.cursor.rest = chunk ++ body) (hno : ¬ HoldsEnd (String.ofList name) body) :
    ∃ m, l.Runs (place l.lastFlush h.flushed)
      (.error (Flaw.error ⟨.unterminatedBlock (.rawBlock (String.ofList name)), h.kept,
        chunk ++ body⟩ l.cursor.source (l.lastFlush.advanceAll (slices h.flushed)))) m := by
  rw [← Held.openName?_eq_none_iff.mpr hb] at hp
  have hpast := past_step hl.idle hl.holds hp hr
  have hopen := (openName?_of_block? hl.holds.block).symm ▸ hp
  have hmode : l.step.mode = .raw ⟨String.ofList name, list.map ArgumentList.args,
      l.cursor.position⟩ := by rw [step_of_piece hopen hr]; rfl
  obtain ⟨m, hrun⟩ := exists_runs_unclosed (hpast.ready hl) hmode
    (by rw [hpast.frame.preferences]; exact hs) (by rw [hpast.cursor]; exact hno)
  have hrun := runs_of_piece hl hp hr hrun
  rw [List.append_nil] at hrun
  -- the block was opened where the text before it ended
  have hstart : l.cursor.position =
      (l.lastFlush.advanceAll (slices h.flushed)).advanceAll h.kept := by
    rw [← Position.advanceAll_append, h.slices_flushed, hl.holds.position]
  have herror : LexError.unterminated (.rawBlock (String.ofList name)) l.cursor.position
      l.step.cursor = Flaw.error ⟨.unterminatedBlock (.rawBlock (String.ofList name)), h.kept,
        chunk ++ body⟩ l.cursor.source (l.lastFlush.advanceAll (slices h.flushed)) := by
    rw [hpast.cursor, LexError.unterminated, Flaw.error, Cursor.skipAll, hstart]
    simp only [← Position.advanceAll_append, List.append_assoc]
  rw [herror] at hrun
  exact ⟨m, hrun⟩

theorem exists_runs_fail {e : LexError} (hl : Ready l h) (hf : l.FailsWith e) :
    ∃ m, l.Runs [] (.error e) m :=
  ⟨_, runs_of_fail hl.peeked hl.idle hf.error⟩

/-- **A lexer runs to the outcome of its source.** -/
theorem exists_runs_of_lexesTo (hlex : LexesTo p h rest cuts flaw?) (hl : Ready l h)
    (hp : l.preferences = p) (hr : l.cursor.rest = rest) :
    ∃ m, l.Runs (place l.lastFlush cuts)
      (endingAt l.cursor.source (l.lastFlush.advanceAll (slices cuts))
        (l.lastFlush.advanceAll (h.chars ++ rest)) flaw?) m := by
  induction hlex generalizing l with
  | @done h hs =>
      subst hp
      rw [List.append_nil, ← hl.holds.position]
      exact exists_runs_end hl hr hs
  | @cutOff h construct rest hs hb hcut =>
      subst hp hr
      have hfail := step_of_cutOff (mode_of_holds hl.holds hb) hs hcut
      rw [LexError.unterminated, Cursor.skipAll, hl.holds.position,
        ← Position.advanceAll_append] at hfail
      exact exists_runs_fail hl hfail
  | @unclosed h name chunk body list hs hb hpiece hno =>
      subst hp
      exact exists_runs_opener hl hs hb hpiece hr hno
  | @mismatched h fault before rest hb hm =>
      subst hp
      have hfail := step_of_mismatched (mode_of_holds hl.holds hb) hr hm
      rw [hl.holds.position, ← Position.advanceAll_append] at hfail
      rw [endingAt, Flaw.error, List.append_nil]
      exact exists_runs_fail hl hfail
  | @more h chunk after e cuts flaw? hpiece _ ih =>
      subst hp
      have hpast := past_step hl.idle hl.holds hpiece hr
      obtain ⟨m, hrun⟩ := ih (hpast.ready hl) hpast.frame.preferences (by rw [hpast.cursor])
      have hrun := runs_of_piece hl hpiece hr hrun
      simp only [hpast.lastFlush, hpast.cursor, ← Position.advanceAll_append, ← slices_append,
        ← place_append, ← List.append_assoc, h.slices_cuts] at hrun
      rw [← List.append_assoc]
      exact ⟨m, hrun⟩

/-- **A run of a source delivers the tokens of its cuts**, and then the end of input or the error of
the flaw. -/
theorem runs_ofSource_iff {source : String} :
    (∃ m, (ofSource source p).Runs tokens ending m) ↔ ∃ cuts flaw?,
      LexesTo p {} source.toList cuts flaw? ∧ tokens = place .start cuts ∧
        ending = endingAt source (Position.start.advanceAll (slices cuts))
          (Position.start.afterText source) flaw? := by
  have hruns : ∀ {cuts flaw?}, LexesTo p {} source.toList cuts flaw? → ∃ m,
      (ofSource source p).Runs (place .start cuts) (endingAt source
        (Position.start.advanceAll (slices cuts)) (Position.start.afterText source) flaw?) m :=
    fun hlex => exists_runs_of_lexesTo hlex (ready_ofSource source p) rfl rfl
  constructor
  · rintro ⟨m, hrun⟩
    obtain ⟨cuts, flaw?, hlex⟩ := exists_lexesTo p source.toList
    obtain ⟨m', hrun'⟩ := hruns hlex
    obtain ⟨htokens, hending, -⟩ := hrun'.unique hrun
    exact ⟨cuts, flaw?, hlex, htokens, hending⟩
  · rintro ⟨cuts, flaw?, hlex, rfl, rfl⟩
    exact hruns hlex

/-- **Every lexer comes to the end of input or to an error.** -/
theorem exists_runs (source : String) (p : Preferences) :
    ∃ tokens ending m, (ofSource source p).Runs tokens ending m := by
  obtain ⟨cuts, flaw?, hlex⟩ := exists_lexesTo p source.toList
  obtain ⟨m, hrun⟩ := runs_ofSource_iff.mpr ⟨cuts, flaw?, hlex, rfl, rfl⟩
  exact ⟨_, _, m, hrun⟩

end Lexer

end Blade
