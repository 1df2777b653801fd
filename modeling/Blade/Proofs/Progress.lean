import Blade.Proofs.Failure
import Blade.Proofs.Ledger
import Blade.Proofs.Outcome
import Blade.Proofs.Tracking

/-!
# Proofs — Progress

Lexing comes to an end, and the source bounds how many tokens there are.

* `step_progress`: a step reads something, fails or ends the input.
* `error_of_step`: what a step fails with.
* `exists_stepsTo`: so a pull takes no more steps than there is work left.
* `tallied_filled`: all tokens that were ever queued lie behind each other in the source, on one
  character or more each; what is held back does not stand for anything unless it was read from
  some character (`Held.Solid`).
* `lexing_bounded`: what follows for pulls, spans, runs and the limit on the number of tokens.
-/

namespace Blade

/-! ### Steps -/

section
variable [Limits]

namespace Lexer

variable {l l' m : Lexer}

/-- **A step reads something, fails or ends the input.** -/
theorem step_progress (hi : l.Idle) :
    (∃ chunk, chunk ≠ [] ∧ l.cursor.rest = chunk ++ l.step.cursor.rest ∧ l.step.finished = none) ∨
      (∃ e, l.step.error = some e) ∨
      (l.cursor.rest = [] ∧ l.step.finished = some l.cursor.position) := by
  by_cases hr : l.cursor.rest = []
  · refine .inr ?_
    rw [step_nil hr]
    simp only [finish]
    split
    · split
      · exact .inl ⟨_, rfl⟩
      · exact .inr ⟨hr, rfl⟩
    · exact .inr ⟨hr, rfl⟩
  · rcases step_cases l hr with ⟨chunk, after, e, hrest, hp, hstep⟩ | ⟨-, e, hstep⟩ | ⟨-, e, hstep⟩
    · refine .inl ⟨chunk, hp.ne_nil, ?_, ?_⟩
      · rw [hstep, cursor_perform hp, Cursor.skip_append hrest, hrest]
      · rw [hstep, (frame_perform l chunk.length e).finished, hi.finished]
    · exact .inr (.inl ⟨e, by rw [hstep, error_fail]⟩)
    · exact .inr (.inl ⟨e, by rw [hstep, error_fail]⟩)

/-- `m` is reached from `l` by `n` steps that a pull takes. -/
inductive StepsTo : Nat → Lexer → Lexer → Prop where
  | refl {l : Lexer} : StepsTo 0 l l
  | step {n : Nat} {l m : Lexer} :
      l.Idle → l.step.error = none → StepsTo n l.step m → StepsTo (n + 1) l m

/-- Each step takes some of the work that is left. -/
theorem Advance.exists_stepsTo (ha : Advance l m) :
    ∃ n, StepsTo n l m ∧ n + m.workLeft ≤ l.workLeft := by
  induction ha with
  | @refl l => exact ⟨0, .refl, by rw [Nat.zero_add]⟩
  | step hi he _ ih =>
      obtain ⟨n, hsteps, hle⟩ := ih
      have hlt := workLeft_step_lt hi.finished he
      exact ⟨n + 1, .step hi he hsteps, by omega⟩

/-- **A pull returns** after no more steps than there are characters left, and one more. -/
theorem exists_stepsTo (l : Lexer) : ∃ n m, n ≤ l.cursor.rest.length + 1 ∧ StepsTo n l m ∧
    Gives m l.produce.1 l.produce.2 := by
  obtain ⟨m, ha, hg⟩ := produce_cases l
  obtain ⟨n, hsteps, hle⟩ := ha.exists_stepsTo
  have hwork : l.workLeft ≤ l.cursor.rest.length + 1 := by
    unfold workLeft
    split <;> omega
  exact ⟨n, m, by omega, hsteps, hg⟩

/-- **A step fails on a construct that nothing closes, or at a bracket that does not fit.**  The
construct starts at the cursor, or is the raw block that is open. -/
theorem error_of_step {e : LexError} (he : l.error = none) (hs : l.step.error = some e) :
    (∃ construct start, e = .unterminated construct start l.cursor ∧
        (start = l.cursor.position ∨ ∃ block, l.mode = .raw block ∧ start = block.openedAt)) ∨
      ∃ fault before rest, l.cursor.rest = before ++ rest ∧
        Mismatched l.preferences fault before rest ∧
        e = ⟨fault, .point (l.cursor.position.advanceAll before), l.cursor.source⟩ := by
  have hpiece : ∀ {chunk after eff}, l.cursor.rest = chunk ++ after →
      Piece l.preferences l.openName? chunk after eff → l.step.error ≠ some e := by
    intro chunk after eff hr hp
    rw [step_of_piece hp hr, (frame_perform l chunk.length eff).error, he]
    nofun
  cases hr : l.cursor.rest with
  | nil =>
      simp only [step_nil hr, finish] at hs
      split at hs
      · next block hm =>
          split at hs
          · rw [error_fail, Option.some.injEq] at hs
            exact .inl ⟨_, _, hs.symm, .inr ⟨block, hm, rfl⟩⟩
          · rw [((frame_closeRaw l block).trans (frame_flushText _ _)).error, he] at hs
            cases hs
      · rw [(frame_flushText l _).error, he] at hs
        cases hs
  | cons c rest =>
      cases hm : l.mode with
      | raw block =>
          obtain ⟨chunk, after, eff, hchunk, hp⟩ := exists_piece_raw l.preferences block.name c rest
          have hopen : l.openName? = some block.name := by rw [openName?, hm]
          exact absurd hs (hpiece (hr.trans hchunk) (hopen ▸ hp))
      | template =>
          have hopen : l.openName? = none := by rw [openName?, hm]
          rcases exists_piece_or_flaw l.preferences c rest with ⟨chunk, after, eff, hchunk, hp⟩ | hf
          · exact absurd hs (hpiece (hr.trans hchunk) (hopen ▸ hp))
          · rw [← hr] at hf ⊢
            cases hf with
            | cutOff hstrict hcut =>
                rw [(step_of_cutOff hm hstrict hcut).error, Option.some.injEq] at hs
                exact .inl ⟨_, _, hs.symm, .inl rfl⟩
            | mismatched hrest hmis =>
                rw [(step_of_mismatched hm hrest hmis).error, Option.some.injEq] at hs
                exact .inr ⟨_, _, _, hrest, hmis, hs.symm⟩

/-- So it never fails on the number of tokens. -/
theorem fault_of_step {e : LexError} (he : l.error = none) (hs : l.step.error = some e)
    (count max : Nat) : e.fault ≠ .tooManyTokens count max := by
  rcases error_of_step he hs with ⟨_, _, rfl, -⟩ | ⟨fault, before, rest, -, hmis, rfl⟩
  · exact Fault.noConfusion
  · rcases hmis.fault_cases with ⟨_, _, rfl⟩ | ⟨_, _, rfl⟩
    · exact Fault.noConfusion
    · exact Fault.noConfusion

end Lexer

end

/-! ### Every token covers some characters -/

namespace Held

variable {p : Preferences} {h : Held} {chunk after : List Char} {e : Effect}

/-- What is held back as text, or in a raw block, was read from some character. -/
def Solid (h : Held) : Prop := h.text ≠ [] ∨ h.block ≠ none → h.chars ≠ []

/-- Where nothing is held back as text in a template, nothing needs to have been read. -/
theorem solid_of_template (ht : h.text = []) (hb : h.block = none) : h.Solid :=
  fun hno => hno.elim (absurd ht) (absurd hb)

variable (h)

theorem slice_ne_nil_of_flushed (hs : h.Solid) : ∀ cut ∈ h.flushed, cut.slice ≠ [] := by
  unfold flushed
  split
  · exact List.forall_mem_nil _
  · next ht => exact List.forall_mem_singleton.mpr (hs (.inl ht))

theorem slice_ne_nil_of_closed (hs : h.Solid) : ∀ cut ∈ h.closed p, cut.slice ≠ [] := by
  unfold closed
  split
  · next name args hb =>
      split
      · exact h.slice_ne_nil_of_flushed hs
      · exact List.forall_mem_singleton.mpr (hs (.inr (by simp [hb])))
  · exact h.slice_ne_nil_of_flushed hs

theorem solid_append (hc : chunk ≠ []) : { h with chars := h.chars ++ chunk }.Solid :=
  fun _ => List.append_ne_nil_of_right_ne_nil _ hc

variable [Limits]

/-- **Every token that a piece cuts off covers some characters.** -/
theorem slice_ne_nil_of_cuts (hs : h.Solid) (hp : Piece p h.openName? chunk after e) :
    ∀ cut ∈ h.cuts p chunk e, cut.slice ≠ [] := by
  cases e with
  | hold value => exact List.forall_mem_nil _
  | token token list =>
      refine List.forall_mem_append.mpr ⟨h.slice_ne_nil_of_flushed hs, ?_⟩
      exact List.forall_mem_singleton.mpr (List.append_ne_nil_of_right_ne_nil _ hp.ne_nil)
  | enter name list => exact h.slice_ne_nil_of_flushed hs
  | leave => exact slice_ne_nil_of_closed _ (h.solid_append hp.ne_nil)

theorem solid_perform (hp : Piece p h.openName? chunk after e) : (h.perform p chunk e).Solid := by
  cases e with
  | hold value => exact fun _ => List.append_ne_nil_of_right_ne_nil _ hp.ne_nil
  | token token list =>
      have hb := openName?_eq_none_iff.mp hp.block_of_token
      exact solid_of_template rfl hb
  | enter name list => exact fun _ => List.append_ne_nil_of_right_ne_nil _ hp.ne_nil
  | leave => exact solid_of_template rfl rfl

end Held

/-! ### All tokens that were queued -/

theorem length_le_slices {cuts : List Cut} (h : ∀ cut ∈ cuts, cut.slice ≠ []) :
    cuts.length ≤ (slices cuts).length := by
  induction cuts with
  | nil => exact Nat.le_refl 0
  | cons cut cuts ih =>
      rw [List.forall_mem_cons] at h
      have hpos := List.length_pos_iff.mpr h.1
      have hle := ih h.2
      rw [slices_cons, List.length_append, List.length_cons]
      omega

namespace Lexer

variable {source : String} {p : Preferences} {l : Lexer} {cuts : List Cut}

/-- The cuts lie behind each other in the source, each on some characters.  While the lexer goes on
it has cut off just these; where it has failed on too many tokens, the source is long enough. -/
structure Filled [Limits] (source : String) (p : Preferences) (cuts : List Cut) (l : Lexer) :
    Prop where
  slice_ne_nil : ∀ cut ∈ cuts, cut.slice ≠ []
  inSource : slices cuts <+: source.toList
  tracks : l.error = none → l.finished = none →
    ∃ h, Tracks source p l (slices cuts) h ∧ h.Solid
  limit : ∀ e ∈ l.error, ∀ count max, e.fault = .tooManyTokens count max →
    Limits.tokenCount < source.length

/-- There are no more tokens than characters. -/
theorem Filled.length_le [Limits] (h : Filled source p cuts l) : cuts.length ≤ source.length := by
  have hle := h.inSource.length_le
  rw [String.length_toList] at hle
  exact (length_le_slices h.slice_ne_nil).trans hle

theorem filled_ofSource [Limits] (source : String) (p : Preferences) :
    Filled source p [] (ofSource source p) where
  slice_ne_nil := List.forall_mem_nil _
  inSource := List.nil_prefix
  tracks _ _ := ⟨{}, tracks_ofSource source p, Held.solid_of_template rfl rfl⟩
  limit := nofun

/-- **A step queues cuts that lie behind the ones before.** -/
theorem Filled.step [Limits] (h : Filled source p cuts l) (hi : l.Idle) :
    ∃ more, l.step.queue = place (Position.start.advanceAll (slices cuts)) more ∧
      Filled source p (cuts ++ more) l.step := by
  obtain ⟨held, ht, hsolid⟩ := h.tracks hi.error hi.finished
  have hchars := ht.chars
  rw [← ht.lastFlush]
  cases ht.stepped hi with
  | @piece chunk after e hr hp he hf hr' hq ht' =>
      refine ⟨held.cuts p chunk e, hq, ?_, ?_, fun _ _ => ⟨_, ?_, held.solid_perform hp⟩, ?_⟩
      · exact List.forall_mem_append.mpr ⟨h.slice_ne_nil, held.slice_ne_nil_of_cuts hsolid hp⟩
      · rw [slices_append]
        exact ⟨_, ht'.chars.symm⟩
      · rw [slices_append]
        exact ht'
      · rw [he]
        nofun
  | ended hr he hf hq =>
      refine ⟨held.closed p, hq, ?_, ⟨held.left p, ?_⟩, fun _ hno => ?_, ?_⟩
      · exact List.forall_mem_append.mpr ⟨h.slice_ne_nil, held.slice_ne_nil_of_closed hsolid⟩
      · rw [slices_append, List.append_assoc, held.slices_closed, hchars, hr, List.append_nil]
      · rw [hf] at hno
        cases hno
      · rw [he]
        nofun
  | @failed e he _ hq =>
      have hfilled : ∀ {more : List Cut}, (∀ cut ∈ more, cut.slice ≠ []) →
          slices more <+: held.chars → Filled source p (cuts ++ more) l.step := by
        rintro more hmore ⟨kept, hkept⟩
        refine ⟨List.forall_mem_append.mpr ⟨h.slice_ne_nil, hmore⟩,
          ⟨kept ++ l.cursor.rest, ?_⟩, fun hno => ?_, fun e' he' => ?_⟩
        · rw [slices_append, hchars, ← hkept]
          simp only [List.append_assoc]
        · rw [he] at hno
          cases hno
        · rw [he] at he'
          cases he'
          exact fun count max hfault => absurd hfault (fault_of_step hi.error he count max)
      rcases hq with hq | hq
      · exact ⟨[], hq, hfilled (List.forall_mem_nil _) List.nil_prefix⟩
      · exact ⟨held.flushed, hq, hfilled (held.slice_ne_nil_of_flushed hsolid)
          ⟨held.kept, held.slices_flushed⟩⟩

theorem tallied_filled [Limits] (source : String) (p : Preferences) :
    Tallied fun ledger l => ∃ cuts, ledger = place .start cuts ∧ Filled source p cuts l where
  pulled := by
    rintro ledger l queue peeked ⟨cuts, hledger, h⟩
    refine ⟨cuts, hledger, h.slice_ne_nil, h.inSource, fun he hf => ?_, h.limit⟩
    obtain ⟨held, ht, hsolid⟩ := h.tracks he hf
    exact ⟨held, ht.pulled queue peeked, hsolid⟩
  step := by
    rintro ledger l ⟨cuts, rfl, h⟩ hi
    obtain ⟨more, hq, hfilled⟩ := h.step hi
    exact ⟨cuts ++ more, by rw [place_append, hq], hfilled⟩
  limit := by
    rintro ledger l e ⟨cuts, rfl, h⟩ hlimit
    refine ⟨cuts, rfl, h.slice_ne_nil, h.inSource, nofun, fun _ _ _ _ _ => ?_⟩
    rw [length_place] at hlimit
    exact hlimit.trans_le h.length_le

/-! ### What the source bounds -/

variable {I : List LocatedToken → Lexer → Prop} {gone tokens : List LocatedToken} {m : Lexer}

/-- A run takes the tokens that it delivers. -/
theorem Tallied.runs [Limits] {ending : Except LexError LocatedToken} (hI : Tallied I)
    (h : Balanced I gone l) (hr : l.Runs tokens ending m) : Balanced I (gone ++ tokens) m := by
  induction hr generalizing gone with
  | eof hn he =>
      rw [List.append_nil]
      exact hI.next_eof h hn he
  | failed hn =>
      rw [List.append_nil]
      exact hI.next_error h hn
  | more hn hne _ ih =>
      have htokens := ih (hI.next_token h hn hne)
      rwa [List.append_assoc] at htokens

/-- Every error that a call returns is the one recorded. -/
theorem Tallied.errors [Limits] {E : LexError → Prop} (hI : Tallied I)
    (hE : ∀ {ledger l e}, I ledger l → l.error = some e → E e) (h : Balanced I gone l)
    (hl : Reached source p l) (calls : List Call) :
    ∀ e, Reply.failed e ∈ l.replies calls → E e := by
  induction calls generalizing l gone with
  | nil => exact fun e he => absurd he (List.not_mem_nil)
  | cons c calls ih =>
      intro e he
      obtain ⟨gone', -, -, hcall⟩ := hI.call h c
      rcases List.mem_cons.mp he with hreply | hlater
      · obtain ⟨_, -, hstuck, -⟩ := (failed_call_cases hl (Prod.ext hreply.symm rfl)).stuck
        exact hE hcall hstuck.error
      · exact ih hcall (.call c hl) e hlater

theorem balanced_ofSource [Limits] (source : String) (p : Preferences) :
    Balanced (fun ledger l => ∃ cuts, ledger = place .start cuts ∧ Filled source p cuts l) []
      (ofSource source p) :=
  ⟨[], rfl, filled_ofSource source p⟩

/-- Placed cuts lie behind each other. -/
theorem pairwise_place (start : Position) (cuts : List Cut) :
    (∀ t ∈ place start cuts, start.offset ≤ t.span.start.offset) ∧
      (place start cuts).Pairwise fun t t' => t.span.stop.offset ≤ t'.span.start.offset := by
  induction cuts generalizing start with
  | nil => exact ⟨List.forall_mem_nil _, .nil⟩
  | cons cut cuts ih =>
      obtain ⟨hstart, hpairs⟩ := ih (start.advanceAll cut.slice)
      refine ⟨List.forall_mem_cons.mpr ⟨Nat.le_refl _, fun t ht => ?_⟩, .cons hstart hpairs⟩
      have hle := hstart t ht
      rw [offset_advanceAll] at hle
      omega

/-- Where cuts lie in a source, each on some characters, their tokens' spans do. -/
theorem covers_place {cuts : List Cut} (hne : ∀ cut ∈ cuts, cut.slice ≠ [])
    (hs : slices cuts <+: source.toList) :
    ∀ t ∈ place .start cuts, t.span.Within source ∧ t.span.slice source ≠ "" := by
  obtain ⟨after, hafter⟩ := hs
  have hsource : source.toList = [] ++ slices cuts ++ after := hafter.symm
  have hplace : (place .start cuts).map
      (fun t => (⟨t.value, (t.span.slice source).toList⟩ : Cut)) = cuts := slice_place hsource
  intro t ht
  have hmem :=
    List.mem_map_of_mem (f := fun t => (⟨t.value, (t.span.slice source).toList⟩ : Cut)) ht
  rw [hplace] at hmem
  refine ⟨(tracks_ofSource source {}).within_place ⟨after, hafter⟩ t ht, fun hempty => ?_⟩
  refine hne _ hmem ?_
  rw [hempty]
  rfl

/-- **Lexing comes to an end, and the source bounds it.**

A step reads something, fails or ends the input; and after any calls a pull returns, at the latest
when every character left has been read and the end noticed.  The tokens that were taken and those
that wait each cover some characters of the source, and lie behind each other.  Taking tokens one at
a time comes to the end of input or to an error with at most one pull for each character and one
more, so that only a source with more characters than there may be tokens can have too many. -/
theorem lexing_bounded [Limits] (source : String) (p : Preferences) :
    (∀ l : Lexer, l.Idle →
      (∃ chunk, chunk ≠ [] ∧ l.cursor.rest = chunk ++ l.step.cursor.rest ∧
          l.step.finished = none) ∨
        (∃ e, l.step.error = some e) ∨
        (l.cursor.rest = [] ∧ l.step.finished = some l.cursor.position)) ∧
    (∀ calls, ∃ n m, n ≤ ((ofSource source p).after calls).cursor.rest.length + 1 ∧
      StepsTo n ((ofSource source p).after calls) m ∧
      Gives m ((ofSource source p).after calls).produce.1
        ((ofSource source p).after calls).produce.2) ∧
    (∀ calls,
      (∀ t ∈ (ofSource source p).ledger calls,
        t.span.Within source ∧ t.span.slice source ≠ "") ∧
      ((ofSource source p).ledger calls).Pairwise fun t t' =>
        t.span.stop.offset ≤ t'.span.start.offset) ∧
    (∃ tokens ending m, (ofSource source p).Runs tokens ending m ∧
      tokens.length + 1 ≤ source.length + 1) ∧
    ∀ calls e count max, Reply.failed e ∈ (ofSource source p).replies calls →
      e.fault = .tooManyTokens count max → Limits.tokenCount < source.length := by
  have hI := tallied_filled source p
  have hstart := balanced_ofSource source p
  refine ⟨fun l => step_progress, fun calls => exists_stepsTo _, ?_, ?_, ?_⟩
  · intro calls
    obtain ⟨_, hsub, -, cuts, rfl, hfilled⟩ := hI.ledger hstart calls
    have hcovers := covers_place hfilled.slice_ne_nil hfilled.inSource
    exact ⟨fun t ht => hcovers t (hsub.subset ht), (pairwise_place .start cuts).2.sublist hsub⟩
  · obtain ⟨tokens, ending, m, hrun⟩ := exists_runs source p
    obtain ⟨cuts, hledger, hfilled⟩ := hI.runs hstart hrun
    have hlength := congrArg List.length hledger
    have hle := hfilled.length_le
    rw [length_place, List.nil_append, List.length_append] at hlength
    exact ⟨tokens, ending, m, hrun, by omega⟩
  · intro calls e count max he hfault
    exact hI.errors (E := fun e => e.fault = .tooManyTokens count max → _)
      (fun ⟨_, _, hfilled⟩ herror hfault => hfilled.limit _ herror count max hfault) hstart .start
      calls e he hfault

end Lexer

end Blade
