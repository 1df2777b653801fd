import Blade.Proofs.Deliveries
import Blade.Proofs.Flaw
import Blade.Proofs.Spans

/-!
# Proofs — Tracking

Where a lexer stands in its source, in every state that calls lead to.

`Tracks source p l done h` says that `l` has cut off `done`, holds back `h` and has the rest of
`source` before it.

* `Tracks.stepped`: what a step can do from there (`Stepped`): read a piece, end the input or fail.
* `Upheld.replies`: a property of tokens that pieces uphold holds of all tokens handed out, under any
  sequence of calls; and all positions handed out are places in the source.
-/

namespace Blade

/-- The position is where some first characters of a source end. -/
def Position.Within (q : Position) (source : String) : Prop :=
  ∃ before, before <+: source.toList ∧ q = start.advanceAll before

/-- Both ends of the span are places in a source. -/
def Span.Within (s : Span) (source : String) : Prop :=
  s.start.Within source ∧ s.stop.Within source

namespace Lexer

variable {source : String} {p : Preferences} {l : Lexer} {done chunk after : List Char} {h : Held}
  {e : Effect}

/-- `l` has cut off `done`, holds back `h` and has the rest of `source` before it. -/
structure Tracks (source : String) (p : Preferences) (l : Lexer) (done : List Char) (h : Held) :
    Prop where
  preferences : l.preferences = p
  chars : source.toList = done ++ (h.chars ++ l.cursor.rest)
  lastFlush : l.lastFlush = Position.start.advanceAll done
  holds : Holds l h
  opened : ∀ block, l.mode = .raw block → block.openedAt.Within source

theorem tracks_ofSource (source : String) (p : Preferences) :
    Tracks source p (ofSource source p) [] {} :=
  ⟨rfl, rfl, rfl, ⟨rfl, rfl, rfl⟩, nofun⟩

namespace Tracks

variable (ht : Tracks source p l done h)
include ht

/-- What is queued and looked at does not matter. -/
theorem pulled (queue : List LocatedToken) (peeked : Option LocatedToken) :
    Tracks source p { l with queue, peeked } done h :=
  ⟨ht.preferences, ht.chars, ht.lastFlush, ⟨ht.holds.block, ht.holds.text, ht.holds.position⟩,
    ht.opened⟩

theorem position_eq : l.cursor.position = Position.start.advanceAll (done ++ h.chars) := by
  rw [ht.holds.position, ht.lastFlush, ← Position.advanceAll_append]

/-- Every place up to the end of input is in the source. -/
theorem within_position (hr : l.cursor.rest = chunk ++ after) :
    (l.cursor.position.advanceAll chunk).Within source := by
  refine ⟨done ++ h.chars ++ chunk, ⟨after, ?_⟩, ?_⟩
  · rw [ht.chars, hr]
    simp only [List.append_assoc]
  · rw [ht.position_eq, ← Position.advanceAll_append]

theorem within_cursor : l.cursor.position.Within source := by
  have hr : l.cursor.rest = [] ++ l.cursor.rest := rfl
  exact ht.within_position hr

/-- At the end of input the position is the end of the source. -/
theorem position_eq_afterText (hr : l.cursor.rest = []) :
    l.cursor.position = Position.start.afterText source := by
  rw [ht.position_eq, Position.afterText, ht.chars, hr, List.append_nil]

/-- The tokens of cuts, placed behind what is cut off, lie in the source. -/
theorem within_place {cuts : List Cut} (hs : slices cuts <+: h.chars ++ l.cursor.rest) :
    ∀ t ∈ place l.lastFlush cuts, t.span.Within source := by
  intro t htoken
  obtain ⟨before, slice, after, hslices, hspan⟩ := exists_span_of_mem_place htoken
  have hwithin : ∀ cs, cs <+: slices cuts → (l.lastFlush.advanceAll cs).Within source := by
    intro cs hcs
    obtain ⟨rest, hrest⟩ := hcs.trans hs
    refine ⟨done ++ cs, ⟨rest, ?_⟩, ?_⟩
    · rw [ht.chars, ← hrest, List.append_assoc]
    · rw [ht.lastFlush, Position.advanceAll_append]
  rw [hspan]
  refine ⟨hwithin _ ⟨slice ++ after, ?_⟩, hwithin _ ⟨after, hslices.symm⟩⟩
  rw [hslices, List.append_assoc]

end Tracks

/-! ### Steps -/

theorem mode_closeRaw (l : Lexer) (block : RawBlock) : (l.closeRaw block).mode = .template := by
  simp only [closeRaw]
  split
  · exact mode_flushText _ _
  · rfl

variable [Limits]

/-- A raw block that is open after a piece was open before it, or is opened where the piece starts. -/
theorem openedAt_perform {n : Nat} {block : RawBlock} (hm : (l.perform n e).mode = .raw block) :
    l.mode = .raw block ∨ block.openedAt = l.cursor.position := by
  cases e with
  | hold value => exact .inl hm
  | token token list =>
      have hmode : (l.perform n (.token token list)).mode = l.mode := by
        simp only [perform, emit, emitTo, mode_flushText, mode_noteList]
      exact .inl (hmode.symm.trans hm)
  | enter name list =>
      simp only [perform, Mode.raw.injEq] at hm
      exact .inr (hm ▸ rfl)
  | leave =>
      cases hl : l.mode with
      | template =>
          simp only [perform, hl] at hm
          cases hm
      | raw opened =>
          simp only [perform, hl, mode_closeRaw] at hm
          cases hm

/-- What a step can do to a lexer that has cut off `done` and holds back `h`. -/
inductive Stepped (source : String) (p : Preferences) (l : Lexer) (done : List Char) (h : Held) :
    Prop where
  | piece {chunk after : List Char} {e : Effect} :
      l.cursor.rest = chunk ++ after → Piece p h.openName? chunk after e → l.step.error = none →
        l.step.finished = none → l.step.cursor.rest = after →
        l.step.queue = place l.lastFlush (h.cuts p chunk e) →
        Tracks source p l.step (done ++ slices (h.cuts p chunk e)) (h.perform p chunk e) →
        Stepped source p l done h
  | ended :
      l.cursor.rest = [] → l.step.error = none →
        l.step.finished = some (Position.start.afterText source) →
        l.step.queue = place l.lastFlush (h.closed p) → Stepped source p l done h
  | failed {e : LexError} :
      l.step.error = some e → e.span.Within source →
        l.step.queue = [] ∨ l.step.queue = place l.lastFlush h.flushed → Stepped source p l done h

namespace Tracks

variable (ht : Tracks source p l done h) (hi : l.Idle)
include ht hi

theorem stepped_piece (hr : l.cursor.rest = chunk ++ after) (hp : Piece p h.openName? chunk after e) :
    Stepped source p l done h := by
  have hpref := ht.preferences
  subst hpref
  have hpast := past_step hi ht.holds hp hr
  refine .piece hr hp (hpast.frame.error.trans hi.error) (hpast.frame.finished.trans hi.finished)
    (congrArg Cursor.rest hpast.cursor) hpast.queue ⟨hpast.frame.preferences, ?_, ?_, hpast.holds, ?_⟩
  · rw [ht.chars, hr, hpast.cursor]
    simp only [List.append_assoc]
    rw [← List.append_assoc (slices _), h.slices_cuts, List.append_assoc]
  · rw [hpast.lastFlush, ht.lastFlush, Position.advanceAll_append]
  · intro block hm
    have hp' := openName?_of_block? ht.holds.block ▸ hp
    rw [step_of_piece hp' hr] at hm
    rcases openedAt_perform hm with hm | hat
    · exact ht.opened block hm
    · rw [hat]
      exact ht.within_cursor

theorem stepped_end (hr : l.cursor.rest = []) : Stepped source p l done h := by
  have hpref := ht.preferences
  subst hpref
  have hstop := ht.position_eq_afterText hr
  by_cases hs : h.block = none ∨ l.preferences.strict = false
  · obtain ⟨hq, he, hf⟩ := step_end hi ht.holds hr hs
    exact .ended hr he (hstop ▸ hf) hq
  · rw [not_or, Bool.not_eq_false] at hs
    cases hm : l.mode with
    | template => exact absurd (by rw [← ht.holds.block, block?, hm]) hs.1
    | raw block =>
        have hstep : l.step = l.fail (.unterminated (.rawBlock block.name) block.openedAt l.cursor) := by
          simp only [step_nil hr, finish, hm, hs.2, if_true]
        have hend : (l.cursor.position.advanceAll l.cursor.rest).Within source :=
          ht.within_position (List.append_nil _).symm
        refine .failed (by rw [hstep, error_fail]) ⟨ht.opened block hm, hend⟩ (.inl ?_)
        rw [hstep]
        exact hi.queue

theorem stepped_flawed (hm : l.mode = .template) (hf : Flawed p l.cursor.rest) :
    Stepped source p l done h := by
  have hpref := ht.preferences
  subst hpref
  obtain ⟨e, hfails, hspan⟩ : ∃ e, l.FailsWith e ∧ e.span.Within source := by
    cases hf with
    | cutOff hs hcut =>
        exact ⟨_, step_of_cutOff hm hs hcut, ht.within_cursor,
          ht.within_position (List.append_nil _).symm⟩
    | mismatched hr hmis =>
        exact ⟨_, step_of_mismatched hm hr hmis, ht.within_position hr, ht.within_position hr⟩
  refine .failed hfails.error hspan ?_
  rcases hfails with hstep | hstep
  · rw [hstep]
    exact .inl hi.queue
  · have hflush := (emitted_flushText ht.holds.text ht.holds.position).1
    refine .inr ?_
    rw [hstep]
    exact hflush.queue.trans (by rw [hi.queue, List.nil_append])

/-- **What a step can do**: read a piece, end the input or fail. -/
theorem stepped : Stepped source p l done h := by
  cases hr : l.cursor.rest with
  | nil => exact ht.stepped_end hi hr
  | cons c rest =>
      cases hm : l.mode with
      | template =>
          have hb : h.openName? = none := by
            rw [← openName?_of_block? ht.holds.block, openName?, hm]
          rcases exists_piece_or_flaw p c rest with ⟨chunk, after, e, heq, hp⟩ | hf
          · exact ht.stepped_piece hi (hr.trans heq) (hb ▸ hp)
          · exact ht.stepped_flawed hi hm (hr ▸ hf)
      | raw block =>
          have hb : h.openName? = some block.name := by
            rw [← openName?_of_block? ht.holds.block, openName?, hm]
          obtain ⟨chunk, after, e, heq, hp⟩ := exists_piece_raw p block.name c rest
          exact ht.stepped_piece hi (hr.trans heq) (hb ▸ hp)

end Tracks

end Lexer

/-! ### Under any sequence of calls -/

/-- `K`, about what is held back and the rest, is upheld by pieces, and by it `T` holds of all tokens
that are cut off. -/
structure Upheld [Limits] (p : Preferences) (K : Held → List Char → Prop) (T : Token → Prop) :
    Prop where
  perform : ∀ {h : Held} {chunk after : List Char} {e : Effect}, K h (chunk ++ after) →
    Piece p h.openName? chunk after e → K (h.perform p chunk e) after
  cuts : ∀ {h : Held} {chunk after : List Char} {e : Effect}, K h (chunk ++ after) →
    Piece p h.openName? chunk after e → ∀ cut ∈ h.cuts p chunk e, T cut.token
  flushed : ∀ {h : Held} {rest : List Char}, K h rest → ∀ cut ∈ h.flushed, T cut.token
  closed : ∀ {h : Held}, K h [] → ∀ cut ∈ h.closed p, T cut.token
  eof : T .eof

variable {source : String} {p : Preferences} {K : Held → List Char → Prop} {T : Token → Prop}

/-- Nothing is said about what is held back or cut off. -/
theorem upheld_trivial [Limits] (p : Preferences) : Upheld p (fun _ _ => True) (fun _ => True) := by
  constructor <;> simp

theorem forall_mem_place {start : Position} {cuts : List Cut} (h : ∀ cut ∈ cuts, T cut.token) :
    ∀ t ∈ place start cuts, T t.value := by
  intro t ht
  have hmem : t.value ∈ (place start cuts).map (·.value) := List.mem_map_of_mem ht
  rw [map_value_place] at hmem
  obtain ⟨cut, hcut, heq⟩ := List.mem_map.mp hmem
  exact heq ▸ h cut hcut

namespace Lexer

variable {l l' : Lexer} {done : List Char} {h : Held}

/-- The lexer tracks the source and `K` holds, or the input has ended where the source does. -/
def Standing (source : String) (p : Preferences) (K : Held → List Char → Prop) (l : Lexer) : Prop :=
  (l.finished = none ∧ ∃ done h, Tracks source p l done h ∧ K h l.cursor.rest) ∨
    l.finished = some (Position.start.afterText source)

theorem Standing.tracks (hs : Standing source p K l) (hi : l.Idle) :
    ∃ done h, Tracks source p l done h ∧ K h l.cursor.rest := by
  rcases hs with ⟨-, ht⟩ | hf
  · exact ht
  · rw [hi.finished] at hf
    cases hf

theorem Standing.pulled (hs : Standing source p K l) (queue : List LocatedToken)
    (peeked : Option LocatedToken) : Standing source p K { l with queue, peeked } := by
  rcases hs with ⟨hf, done, h, ht, hk⟩ | hf
  · exact .inl ⟨hf, done, h, ht.pulled queue peeked, hk⟩
  · exact .inr hf

section
variable [Limits]

/-- The tokens that a step queues, by the cuts they come from. -/
theorem Tracks.queued (hK : Upheld p K T) (ht : Tracks source p l done h) (hi : l.Idle)
    (hk : K h l.cursor.rest) : ∀ t ∈ l.step.queue, T t.value ∧ t.span.Within source := by
  have hplaced {cuts : List Cut} (hT : ∀ cut ∈ cuts, T cut.token)
      (hs : slices cuts <+: h.chars ++ l.cursor.rest) :
      ∀ t ∈ place l.lastFlush cuts, T t.value ∧ t.span.Within source :=
    fun t hmem => ⟨forall_mem_place hT t hmem, ht.within_place hs t hmem⟩
  cases ht.stepped hi with
  | @piece chunk after e hr hp _ _ _ hq _ =>
      rw [hr] at hk
      rw [hq]
      refine hplaced (hK.cuts hk hp) ⟨(h.perform p chunk e).chars ++ after, ?_⟩
      rw [hr, ← List.append_assoc, h.slices_cuts, List.append_assoc]
  | ended hr _ _ hq =>
      rw [hr] at hk
      rw [hq]
      refine hplaced (hK.closed hk) ⟨h.left p, ?_⟩
      rw [hr, h.slices_closed, List.append_nil]
  | failed _ _ hq =>
      rcases hq with hq | hq
      · simp [hq]
      · rw [hq]
        refine hplaced (hK.flushed hk) ⟨h.kept ++ l.cursor.rest, ?_⟩
        rw [← List.append_assoc, h.slices_flushed]

theorem Tracks.standing_step (hK : Upheld p K T) (ht : Tracks source p l done h) (hi : l.Idle)
    (hk : K h l.cursor.rest) (he : l.step.error = none) : Standing source p K l.step := by
  cases ht.stepped hi with
  | piece hr hp _ hf hr' _ ht' =>
      rw [hr] at hk
      exact .inl ⟨hf, _, _, ht', hr' ▸ hK.perform hk hp⟩
  | ended _ _ hf _ => exact .inr hf
  | failed hfail _ _ =>
      rw [hfail] at he
      cases he

theorem Tracks.within_error {e : LexError} (ht : Tracks source p l done h) (hi : l.Idle)
    (he : l.step.error = some e) : e.span.Within source := by
  cases ht.stepped hi with
  | piece _ _ hno _ _ _ _ =>
      rw [hno] at he
      cases he
  | ended _ hno _ _ =>
      rw [hno] at he
      cases he
  | failed hfail hspan _ =>
      rw [hfail, Option.some.injEq] at he
      exact he ▸ hspan

end

theorem within_eofToken (hs : Standing source p K l) {stop : Position}
    (hf : l.finished = some stop) : (eofToken stop).span.Within source := by
  rcases hs with ⟨hno, -⟩ | hend
  · rw [hno] at hf
    cases hf
  · rw [hend, Option.some.injEq] at hf
    have hstop : stop.Within source := ⟨source.toList, List.prefix_refl _, hf.symm⟩
    exact ⟨hstop, hstop⟩

theorem preserved_of_upheld [Limits] (hK : Upheld p K T) :
    Preserved (Standing source p K) (fun t => T t.value ∧ t.span.Within source)
      (fun e => e.span.Within source) where
  pop queue hs := hs.pulled queue _
  look peeked hs := hs.pulled _ peeked
  step hs hi he := by
    obtain ⟨done, h, ht, hk⟩ := hs.tracks hi
    exact ht.standing_step hK hi hk he
  queued hs hi := by
    obtain ⟨done, h, ht, hk⟩ := hs.tracks hi
    exact ht.queued hK hi hk
  failed hs hi he := by
    obtain ⟨done, h, ht, -⟩ := hs.tracks hi
    exact ht.within_error hi he
  finished hs hf := ⟨hK.eof, within_eofToken hs hf⟩
  limit _ _ ht := ht.2

end Lexer

/-- **What pieces uphold holds of all tokens handed out**, under any sequence of calls; and every
token and every error has its place in the source. -/
theorem Upheld.replies [Limits] (hK : Upheld p K T) (hstart : K {} source.toList)
    (calls : List Call) :
    ∀ r ∈ (Lexer.ofSource source p).replies calls,
      (∀ t ∈ r.delivered, T t.value ∧ t.span.Within source) ∧
        ∀ e ∈ r.error?, e.span.Within source := by
  have hstanding : Lexer.Standing source p K (.ofSource source p) :=
    .inl ⟨rfl, [], {}, Lexer.tracks_ofSource source p, hstart⟩
  exact (Lexer.preserved_of_upheld hK).replies (Lexer.keeps_ofSource hstanding) calls

end Blade
