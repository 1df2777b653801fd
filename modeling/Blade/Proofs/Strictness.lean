import Blade.Proofs.Outcome

/-!
# Proofs — Strictness

Strict termination refuses constructs that are open at the end of input.  It changes nothing else.

* `LexesTo.lenient_cases`: without strict termination a source is cut up as with it, unless a
  construct is open at its end; there it is cut up to the end.
* `Runs.lenient`: a lexer that comes to the end of input with strict termination goes through the
  same states without it.
* `strict_and_lenient_runs`: what both runs of a source deliver, and how they end.
-/

namespace Blade

/-- The preferences without strict termination. -/
def Preferences.lenient (p : Preferences) : Preferences := { p with strict := false }

variable {p : Preferences} {h : Held} {rest : List Char} {cuts : List Cut}

/-! ### What is read with strict termination is read without it -/

theorem Enclosed.lenient {strict : Bool} {terminator chunk after interior : List Char}
    (he : Enclosed strict terminator chunk after interior) :
    Enclosed false terminator chunk after interior := by
  cases he with
  | closed hfree => exact .closed hfree
  | cut _ hno => exact .cut rfl hno

section
variable [Limits]

theorem ListRead.lenient {strict : Bool} {gap : Char → Bool} {chunk after : List Char}
    {list : Option ArgumentList} (hl : ListRead strict gap chunk after list) :
    ListRead false gap chunk after list := by
  cases hl with
  | absent hno => exact .absent hno
  | closed hb hc => exact .closed hb hc
  | cut _ hb hc => exact .cut rfl hb hc

theorem Piece.lenient {block : Option String} {chunk after : List Char} {e : Effect}
    (hp : Piece p block chunk after e) : Piece p.lenient block chunk after e := by
  cases hp with
  | plain hat hopen => exact .plain hat hopen
  | escape hs hrun hstop => exact .escape hs hrun hstop
  | comment he => exact .comment he.lenient
  | data he hno => exact .data he.lenient hno
  | function hn hraw hl => exact .function hn hraw hl.lenient
  | enter hn hraw hl => exact .enter hn hraw hl.lenient
  | body hc => exact .body hc
  | lone hs => exact .lone hs
  | other hn hne => exact .other hn hne
  | leave hn heq => exact .leave hn heq

theorem Mismatched.lenient {fault : Fault} {before : List Char}
    (hm : Mismatched p fault before rest) : Mismatched p.lenient fault before rest := by
  cases hm with
  | intro hn hb hw hc => exact .intro hn hb hw hc

end

theorem Held.cuts_lenient (h : Held) (chunk : List Char) (e : Effect) :
    h.cuts p.lenient chunk e = h.cuts p chunk e := by
  cases e <;> rfl

theorem Held.perform_lenient (h : Held) (chunk : List Char) (e : Effect) :
    h.perform p.lenient chunk e = h.perform p chunk e := by
  cases e <;> rfl

/-! ### What nothing closes is read to the end -/

section
variable [Limits]

/-- A construct that nothing closes is a piece without strict termination. -/
theorem piece_of_cutOff {construct : Construct} (hc : CutOff p construct rest) :
    ∃ e, Piece p.lenient none rest [] e := by
  cases hc with
  | comment hno => exact ⟨_, .comment (.cut rfl hno)⟩
  | data hno hdash => exact ⟨_, .data (.cut rfl hno) (by rwa [List.append_nil])⟩
  | list hn hb hw => exact piece_of_listRead (by rwa [List.append_nil]) (.cut rfl hb hw)

theorem exists_lexesTo_of_piece {e : Effect} (hp : Piece p.lenient h.openName? rest [] e) :
    ∃ cuts, LexesTo p.lenient h rest cuts none := by
  have hend := LexesTo.more hp (.done (.inr rfl))
  rw [List.append_nil] at hend
  exact ⟨_, hend⟩

/-- A body that nothing ends is read to the end. -/
theorem exists_lexesTo_body {block : String} (hopen : h.openName? = some block)
    (hno : ¬ HoldsEnd block rest) : ∃ cuts, LexesTo p.lenient h rest cuts none := by
  induction hn : rest.length using Nat.strong_induction_on generalizing h rest with
  | _ n ih =>
    cases rest with
    | nil => exact ⟨_, .done (.inr rfl)⟩
    | cons c rest =>
        obtain ⟨chunk, after, value, hchunk, hp, hno'⟩ :=
          exists_hold_of_not_holdsEnd p.lenient hno
        have hpos := List.length_pos_iff.mpr hp.ne_nil
        rw [hchunk, List.length_append] at hn
        have hopen' : (h.perform p.lenient chunk (.hold value)).openName? = some block := hopen
        obtain ⟨cuts, hl⟩ := ih after.length (by omega) hopen' hno' rfl
        rw [← hopen] at hp
        rw [hchunk]
        exact ⟨_, .more hp hl⟩

/-! ### Where the template is open -/

/-- The raw block that is open after a piece. -/
def Effect.opens (block : Option String) : Effect → Option String
  | .hold _ => block
  | .token _ _ => block
  | .enter name _ => some (String.ofList name)
  | .leave => none

/-- From one raw block, or none, to another, `before` is read piece by piece in front of `rest`. -/
inductive Reads (p : Preferences) : Option String → List Char → List Char → Option String → Prop where
  | nil {block : Option String} {rest : List Char} : Reads p block [] rest block
  | cons {block block' : Option String} {chunk before rest : List Char} {e : Effect} :
      Piece p block chunk (before ++ rest) e → Reads p (e.opens block) before rest block' →
        Reads p block (chunk ++ before) rest block'

end

theorem Held.openName?_perform (h : Held) (p : Preferences) (chunk : List Char) (e : Effect) :
    (h.perform p chunk e).openName? = e.opens h.openName? := by
  cases e <;> rfl

/-- **Without strict termination a source is cut up as with it**, unless a construct is open at the
end.  The construct starts where the template is open, and the source is cut up to the end. -/
theorem LexesTo.lenient_cases [Limits] {flaw? : Option Flaw} (hl : LexesTo p h rest cuts flaw?) :
    (LexesTo p.lenient h rest cuts flaw? ∧ ∀ flaw ∈ flaw?,
      (∃ expected found, flaw.fault = .bracketMismatch expected found) ∨
        ∃ depth max, flaw.fault = .nestingTooDeep depth max) ∨
    ∃ construct before covered read more,
      flaw? = some ⟨.unterminatedBlock construct, before, covered⟩ ∧ rest = read ++ covered ∧
        h.chars ++ read = slices cuts ++ before ∧ Reads p h.openName? read covered none ∧
        Unterminated p construct covered ∧ LexesTo p.lenient h rest (cuts ++ more) none := by
  induction hl with
  | @done h hs => exact .inl ⟨.done (.inr rfl), by simp⟩
  | @cutOff h construct rest hs hb hcut =>
      have hopen := Held.openName?_eq_none_iff.mpr hb
      obtain ⟨e, hp⟩ := piece_of_cutOff hcut
      rw [← hopen] at hp
      obtain ⟨more, hmore⟩ := exists_lexesTo_of_piece hp
      exact .inr ⟨construct, h.chars, rest, [], more, rfl, rfl, by simp, hopen ▸ .nil,
        .cutOff hcut, hmore⟩
  | @unclosed h name chunk body list hs hb hp hno =>
      have hopen := Held.openName?_eq_none_iff.mpr hb
      have hpl := hp.lenient
      rw [← hopen] at hpl
      obtain ⟨more, hmore⟩ := exists_lexesTo_body
        (h := h.perform p.lenient chunk (.enter name list)) rfl hno
      exact .inr ⟨_, h.kept, chunk ++ body, [], more, rfl, rfl, by simp [h.slices_flushed],
        hopen ▸ .nil, .block hp hno, .more hpl hmore⟩
  | @mismatched h fault before rest hb hm =>
      refine .inl ⟨.mismatched hb hm.lenient, fun flaw hflaw => ?_⟩
      cases hflaw
      exact hm.fault_cases
  | @more h chunk after e cuts flaw? hp _ ih =>
      rw [← h.perform_lenient, h.openName?_perform] at ih
      rcases ih with ⟨hl, hfault⟩ | ⟨construct, before, covered, read, more, rfl, rfl, hslices,
        hreads, hun, hl⟩
      · refine .inl ⟨?_, hfault⟩
        rw [← h.cuts_lenient]
        exact .more hp.lenient hl
      · refine .inr ⟨construct, before, covered, chunk ++ read, more, rfl, by simp, ?_,
          .cons hp hreads, hun, ?_⟩
        · rw [slices_append, List.append_assoc, ← hslices, ← List.append_assoc,
            ← h.slices_cuts p.lenient chunk e, h.cuts_lenient, List.append_assoc]
        · rw [← h.cuts_lenient, List.append_assoc]
          exact .more hp.lenient hl

/-! ### The states a lexer goes through -/

namespace Lexer

variable {l l' m : Lexer} {tokens : List LocatedToken} {eof token : LocatedToken}

/-- The lexer without strict termination. -/
def lenient (l : Lexer) : Lexer := { l with preferences := l.preferences.lenient }

theorem lenient_flushText (l : Lexer) (stop : Position) :
    (l.flushText stop).lenient = l.lenient.flushText stop := by
  by_cases ht : l.text.isEmpty
  · simp only [flushText, lenient, ht, if_true]
  · simp only [flushText, lenient, ht]
    rfl

theorem lenient_closeRaw (l : Lexer) (block : RawBlock) :
    (l.closeRaw block).lenient = l.lenient.closeRaw block := by
  have htransparent : l.lenient.preferences.isTransparent block.name =
      l.preferences.isTransparent block.name := rfl
  simp only [closeRaw, htransparent]
  by_cases ht : l.preferences.isTransparent block.name
  · simp only [ht, if_true]
    exact lenient_flushText { l with mode := .template } l.cursor.position
  · simp only [ht]
    rfl

section
variable [Limits]

theorem lenient_perform (l : Lexer) (n : Nat) (e : Effect) :
    (l.perform n e).lenient = l.lenient.perform n e := by
  cases e with
  | hold value => rfl
  | token token list =>
      have hflush := lenient_flushText ({ l with cursor := l.cursor.skip n }.noteList list)
        l.cursor.position
      have hlist : ({ l with cursor := l.cursor.skip n }.noteList list).lenient =
          { l.lenient with cursor := l.cursor.skip n }.noteList list := by cases list <;> rfl
      rw [hlist] at hflush
      exact congrArg (Lexer.emit · token) hflush
  | enter name list =>
      have hflush : _ = l.lenient.flushText l.lenient.cursor.position :=
        lenient_flushText l l.cursor.position
      simp only [perform, ← hflush]
      cases list <;> rfl
  | leave =>
      simp only [perform]
      cases hm : l.mode with
      | template => simp only [lenient, hm]
      | raw block =>
          have := lenient_closeRaw { l with cursor := l.cursor.skip n } block
          simp only [lenient, hm] at this ⊢
          exact this

theorem lenient_finish (he : l.finish.error = none) : l.lenient.finish = l.finish.lenient := by
  cases hm : l.mode with
  | template =>
      have hflush : _ = l.lenient.flushText l.lenient.cursor.position :=
        lenient_flushText l l.cursor.position
      have hm' : l.lenient.mode = .template := hm
      simp only [finish, hm, hm', ← hflush]
      rfl
  | raw block =>
      have hstrict : l.preferences.strict = false := by
        by_contra hs
        rw [Bool.not_eq_false] at hs
        simp [finish, hm, hs] at he
      have hclose := lenient_closeRaw l block
      have hflush := lenient_flushText (l.closeRaw block) l.cursor.position
      have hm' : l.lenient.mode = .raw block := hm
      have hstrict' : l.lenient.preferences.strict = false := rfl
      rw [hclose] at hflush
      simp only [finish, hm, hm', hstrict, hstrict', Bool.false_eq_true, if_false]
      rw [show l.lenient.cursor = l.cursor from rfl, ← hflush]
      rfl

/-- **A step that does not fail is the same without strict termination.** -/
theorem lenient_step (he : l.step.error = none) : l.lenient.step = l.step.lenient := by
  by_cases hr : l.cursor.rest = []
  · have hr' : l.lenient.cursor.rest = [] := hr
    rw [step_nil hr] at he ⊢
    rw [step_nil hr', lenient_finish he]
  · rcases step_cases l hr with ⟨chunk, after, e, hchunk, hp, hstep⟩ | ⟨-, e, hstep⟩ | ⟨-, e, hstep⟩
    · have hp' : Piece l.lenient.preferences l.lenient.openName? chunk after e := hp.lenient
      have hchunk' : l.lenient.cursor.rest = chunk ++ after := hchunk
      rw [hstep, lenient_perform, step_of_piece hp' hchunk']
    · rw [hstep, error_fail] at he
      cases he
    · rw [hstep, error_fail] at he
      cases he

end

theorem Idle.lenient (h : l.Idle) : l.lenient.Idle := ⟨h.queue, h.error, h.finished⟩

variable [Limits]

theorem Advance.lenient (ha : Advance l m) : Advance l.lenient m.lenient := by
  induction ha with
  | refl => exact .refl
  | @step l m hidle he _ ih =>
      have hstep := lenient_step he
      refine .step hidle.lenient ?_ ?_
      · rw [hstep]; exact he
      · rw [hstep]; exact ih

theorem Gives.lenient (hg : Gives l (.ok token) l') : Gives l.lenient (.ok token) l'.lenient := by
  cases hg with
  | queued hq => exact .queued (l := l.lenient) hq
  | finished hq he hf => exact .finished (l := l.lenient) hq he hf

theorem lenient_next (hn : l.next = (.ok token, l')) :
    l.lenient.next = (.ok token, l'.lenient) := by
  cases hp : l.peeked with
  | some t =>
      rw [next_of_peeked hp, Prod.mk.injEq] at hn
      obtain ⟨htoken, rfl⟩ := hn
      rw [← htoken]
      exact next_of_peeked (l := l.lenient) hp
  | none =>
      rw [next_of_not_peeked hp] at hn
      obtain ⟨m, ha, hg⟩ := produce_cases l
      rw [hn] at hg
      rw [next_of_not_peeked (l := l.lenient) hp]
      exact produce_of_gives ha.lenient hg.lenient

/-- **A lexer that comes to the end of input with strict termination goes through the same states
without it.** -/
theorem Runs.lenient (hr : l.Runs tokens (.ok eof) m) :
    l.lenient.Runs tokens (.ok eof) m.lenient := by
  generalize hending : Except.ok eof = ending at hr
  induction hr with
  | eof hn he => exact .eof (lenient_next hn) he
  | failed => cases hending
  | more hn hne _ ih => exact .more (lenient_next hn) hne (ih hending)

/-! ### Two runs of a source -/

/-- **Strict termination refuses what is open at the end of input, and changes nothing else.**
Every source has one run with it and one without it (`Runs.unique`).

Where the run with it comes to the end of input, the run without it delivers the same tokens and
metrics.  Where it fails on a bracket, the run without it delivers the same tokens and the same
error.  Where it fails on a construct that nothing closes, the run without it delivers the same
tokens and comes to the end of input; and the error's span goes from the opener of the construct, in
the template, to the end of the source. -/
theorem strict_and_lenient_runs (source : String) (p : Preferences) :
    ∃ tokens ending m,
      (ofSource source { p with strict := true }).Runs tokens ending m ∧
        match ending with
        | .ok eof => ∃ m',
            (ofSource source { p with strict := false }).Runs tokens (.ok eof) m' ∧
              m'.metrics = m.metrics
        | .error ⟨.unterminatedBlock construct, span, _⟩ =>
            (∃ more eof m',
              (ofSource source { p with strict := false }).Runs (tokens ++ more) (.ok eof) m') ∧
            ∃ before rest, source.toList = before ++ rest ∧
              Reads { p with strict := true } none before rest none ∧
              Unterminated { p with strict := true } construct rest ∧
              span = ⟨Position.start.advanceAll before, Position.start.afterText source⟩
        | .error ⟨.tooManyTokens _ _, _, _⟩ => False
        | .error e => ∃ m',
            (ofSource source { p with strict := false }).Runs tokens (.error e) m' := by
  obtain ⟨cuts, flaw?, hlex⟩ := exists_lexesTo { p with strict := true } source.toList
  obtain ⟨m, hrun⟩ := runs_ofSource_iff.mpr ⟨cuts, flaw?, hlex, rfl, rfl⟩
  refine ⟨_, _, m, hrun, ?_⟩
  rcases hlex.lenient_cases with ⟨hlenient, hfault⟩ | ⟨construct, before, covered, read, more, rfl,
    hsource, hslices, hreads, hun, hlenient⟩
  · obtain ⟨m', hrun'⟩ := runs_ofSource_iff.mpr ⟨cuts, flaw?, hlenient, rfl, rfl⟩
    cases flaw? with
    | none => exact ⟨m.lenient, hrun.lenient, rfl⟩
    | some flaw =>
        obtain ⟨fault, before, covered⟩ := flaw
        rcases hfault _ rfl with ⟨expected, found, hf⟩ | ⟨depth, max, hf⟩
        · dsimp only at hf
          subst hf
          exact ⟨m', hrun'⟩
        · dsimp only at hf
          subst hf
          exact ⟨m', hrun'⟩
  · obtain ⟨m', hrun'⟩ := runs_ofSource_iff.mpr ⟨_, none, hlenient, rfl, rfl⟩
    rw [List.nil_append] at hslices
    refine ⟨⟨_, _, m', place_append .start cuts more ▸ hrun'⟩, read, covered, hsource, hreads,
      hun, ?_⟩
    rw [Position.afterText, hsource, hslices]
    simp only [Position.advanceAll_append]

end Lexer

end Blade
