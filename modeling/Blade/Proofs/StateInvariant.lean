import Blade.Limits.Development
import Blade.Proofs.Progress

/-!
# Proofs — State invariant

How the positions and the text that a lexer keeps belong together, in every state before it fails.

The last token ended at the cursor or before it, and before it where text is held back; an open raw
block was opened at an `@` between the two (`Ordered`).  A step moves the cursor, and moves the end
of the last token only to where it queues one, so it upholds this.  Therefore no token and no error
ends before it starts.

* `Ordered.of_holds`: the order of what a lexer keeps, from what it holds back.
* `preserved_ordered`: a step upholds it, and all spans that it makes are `Forward`.
* `traced`, `entered`: the states in which some calls enter a step; noting them changes no pull.
* `ordered_throughout`: the invariant between calls and wherever a step is entered.
-/

namespace Blade

/-- What is read lies behind the position where reading starts. -/
theorem Position.isLE_order_advanceAll (q : Position) (cs : List Char) :
    (q.order (q.advanceAll cs)).isLE := by
  cases cs with
  | nil => simp [order]
  | cons c cs =>
      have hc := c.utf8Size_pos
      have hlt : compare q.offset (q.advanceAll (c :: cs)).offset = .lt := by
        rw [Nat.compare_eq_lt, offset_advanceAll, byteLength_cons]
        omega
      rw [order, hlt]
      rfl

/-- The span does not end before it starts. -/
def Span.Forward (s : Span) : Prop := s.start.offset ≤ s.stop.offset

theorem forward_place (start : Position) (cuts : List Cut) :
    ∀ t ∈ place start cuts, t.span.Forward := by
  intro t ht
  obtain ⟨before, slice, _, -, hspan⟩ := exists_span_of_mem_place ht
  rw [Span.Forward, hspan, Position.advanceAll_append, offset_advanceAll _ slice]
  exact Nat.le_add_right _ _

/-- A raw block is opened by an `@`. -/
theorem Piece.exists_at_of_enter [Limits] {p : Preferences} {outer : Option String}
    {chunk after name : List Char} {list : Option ArgumentList}
    (hp : Piece p outer chunk after (.enter name list)) : ∃ opener, chunk = '@' :: opener := by
  cases hp with
  | enter => exact ⟨_, rfl⟩

/-- The raw block was opened at an `@` of the source, not before `start` and before `stop`. -/
structure RawBlock.OpenIn (block : RawBlock) (source : String) (start stop : Position) : Prop where
  start_le : (start.order block.openedAt).isLE
  lt_stop : block.openedAt.offset < stop.offset
  atSign : ∃ before after, source.toList = before ++ '@' :: after ∧
    block.openedAt = Position.start.advanceAll before

namespace Lexer

variable {source : String} {p : Preferences} {l m : Lexer} {done chunk after : List Char} {h : Held}

/-- What a lexer keeps comes in the order in which it stands in the source. -/
structure Ordered (source : String) (l : Lexer) : Prop where
  lastFlush_le : l.lastFlush.offset ≤ l.cursor.position.offset
  lastFlush_lt : l.text ≠ "" → l.lastFlush.offset < l.cursor.position.offset
  opened : ∀ block, l.mode = .raw block → block.OpenIn source l.lastFlush l.cursor.position

/-! ### One step -/

/-- What is held back lies between the last token and the cursor. -/
theorem Ordered.of_holds (hh : Holds l h) (hs : h.Solid)
    (ho : ∀ block, l.mode = .raw block → block.OpenIn source l.lastFlush l.cursor.position) :
    l.Ordered source := by
  have hpos : l.cursor.position.offset = l.lastFlush.offset + byteLength h.chars := by
    rw [hh.position, offset_advanceAll]
  refine ⟨by omega, fun ht => ?_, ho⟩
  have htext : h.text ≠ [] := by
    intro hnil
    exact ht (by rw [hh.text, hnil])
  have hne := mt byteLength_eq_zero_iff.mp (hs (.inl htext))
  omega

theorem Ordered.pulled (ho : l.Ordered source) (queue : List LocatedToken)
    (peeked : Option LocatedToken) : Ordered source { l with queue, peeked } :=
  ⟨ho.lastFlush_le, ho.lastFlush_lt, ho.opened⟩

section
variable [Limits]

/-- What opens a raw block leaves it open at its `@`: the text before it is cut off, and what is
left of what was held back lies between. -/
theorem Tracks.openIn_enter {name : List Char} {list : Option ArgumentList} {block : RawBlock}
    (ht : Tracks source p l done h) (hr : l.cursor.rest = chunk ++ after)
    (hp : Piece p h.openName? chunk after (.enter name list))
    (hpast : Past l m h chunk after (.enter name list))
    (hat : block.openedAt = l.cursor.position) :
    block.OpenIn source m.lastFlush m.cursor.position := by
  obtain ⟨opener, rfl⟩ := hp.exists_at_of_enter
  refine ⟨?_, ?_, done ++ h.chars, opener ++ after, ?_, hat.trans ht.position_eq⟩
  · have hkept : block.openedAt = m.lastFlush.advanceAll h.kept := by
      rw [hat, ht.holds.position, hpast.lastFlush, ← Position.advanceAll_append, Held.cuts,
        h.slices_flushed]
    rw [hkept]
    exact Position.isLE_order_advanceAll _ _
  · have hc := Char.utf8Size_pos '@'
    rw [hat, hpast.cursor, offset_advanceAll, byteLength_cons]
    omega
  · rw [ht.chars, hr, List.append_assoc, List.cons_append]

/-- **Past a piece, a raw block that is open was opened at an `@`** behind the last token. -/
theorem Tracks.opened_step {e : Effect} (ht : Tracks source p l done h) (ho : l.Ordered source)
    (hi : l.Idle) (hr : l.cursor.rest = chunk ++ after) (hp : Piece p h.openName? chunk after e) :
    ∀ block, l.step.mode = .raw block →
      block.OpenIn source l.step.lastFlush l.step.cursor.position := by
  have hpref := ht.preferences
  subst hpref
  have hpast := past_step hi ht.holds hp hr
  have hp' := openName?_of_block? ht.holds.block ▸ hp
  intro block hm
  have hblock : l.step.block? ≠ none := by
    rw [block?, hm]
    exact Option.some_ne_none _
  rw [hpast.holds.block] at hblock
  -- a block stays open while more is held back, or is opened; tokens are read where none is open
  cases e with
  | hold value =>
      rw [step_of_piece hp' hr] at hm
      have hopen := ho.opened block hm
      have hlast : l.step.lastFlush = l.lastFlush := hpast.lastFlush
      refine ⟨hlast ▸ hopen.start_le, hopen.lt_stop.trans_le ?_, hopen.atSign⟩
      rw [hpast.cursor, offset_advanceAll]
      exact Nat.le_add_right _ _
  | token token list => exact absurd (Held.openName?_eq_none_iff.mp hp.block_of_token) hblock
  | enter name list =>
      rw [step_of_piece hp' hr, perform, Mode.raw.injEq] at hm
      exact ht.openIn_enter hr hp hpast (hm ▸ rfl)
  | leave => exact absurd rfl hblock

/-- Past the end of input nothing is held back but what stands for no text. -/
theorem Tracks.holds_ended (ht : Tracks source p l done h) (hr : l.cursor.rest = [])
    (he : l.step.error = none) : Holds l.step ⟨none, h.left l.preferences, []⟩ := by
  have hs := closable_of_step_end ht.holds hr he
  obtain ⟨l', hfinish, -, hholds, -⟩ := exists_finish ht.holds hs
  rw [step_nil hr, hfinish]
  exact ⟨hholds.block, hholds.text, hholds.position⟩

/-- **A step that does not fail keeps the order.** -/
theorem Tracks.ordered_step (ht : Tracks source p l done h) (ho : l.Ordered source) (hi : l.Idle)
    (he : l.step.error = none) : l.step.Ordered source := by
  cases ht.stepped hi with
  | piece hr hp _ _ _ _ ht' =>
      exact .of_holds ht'.holds (h.solid_perform hp) (ht.opened_step ho hi hr hp)
  | ended hr _ _ _ =>
      have hholds := ht.holds_ended hr he
      refine .of_holds hholds (Held.solid_of_template rfl rfl) fun block hm => ?_
      have hblock := hholds.block
      rw [block?, hm] at hblock
      cases hblock
  | failed hfail _ _ =>
      rw [hfail] at he
      cases he

/-- The tokens that a step queues lie behind each other from the last token on. -/
theorem Stepped.exists_place (hs : Stepped source p l done h) :
    ∃ cuts, l.step.queue = place l.lastFlush cuts := by
  cases hs with
  | piece _ _ _ _ _ hq _ => exact ⟨_, hq⟩
  | ended _ _ _ hq => exact ⟨_, hq⟩
  | failed _ _ hq =>
      rcases hq with hq | hq
      · exact ⟨[], hq⟩
      · exact ⟨_, hq⟩

/-- What nothing closes starts at the cursor or where the open raw block was opened, and reaches to
the end of the source. -/
theorem Ordered.forward_error {e : LexError} (ho : l.Ordered source) (he : l.error = none)
    (hs : l.step.error = some e) : e.span.Forward := by
  rcases error_of_step he hs with ⟨construct, start, rfl, hstart⟩ | ⟨fault, before, rest, -, -, rfl⟩
  · have hle : start.offset ≤ l.cursor.position.offset := by
      rcases hstart with rfl | ⟨block, hm, rfl⟩
      · exact Nat.le_refl _
      · exact (ho.opened block hm).lt_stop.le
    refine hle.trans ?_
    change _ ≤ (l.cursor.position.advanceAll l.cursor.rest).offset
    rw [offset_advanceAll]
    exact Nat.le_add_right _ _
  · exact Nat.le_refl _

/-- **Every step keeps the order**, and what it queues or fails on does not end before it starts. -/
theorem preserved_ordered (source : String) (p : Preferences) :
    Preserved (fun l => Standing source p (fun _ _ => True) l ∧ l.Ordered source)
      (fun t => t.span.Forward) (fun e => e.span.Forward) := by
  have hstanding : Preserved (Standing source p fun _ _ => True) _ _ :=
    preserved_of_upheld (upheld_trivial p)
  refine
    { pop := fun queue hl => ⟨hstanding.pop queue hl.1, hl.2.pulled queue _⟩
      look := fun peeked hl => ⟨hstanding.look peeked hl.1, hl.2.pulled _ peeked⟩
      step := fun hl hi he => ?_
      queued := fun hl hi => ?_
      failed := fun hl hi he => hl.2.forward_error hi.error he
      finished := fun _ _ => Nat.le_refl _
      limit := fun _ _ ht => ht }
  · obtain ⟨done, h, ht, -⟩ := hl.1.tracks hi
    exact ⟨hstanding.step hl.1 hi he, ht.ordered_step hl.2 hi he⟩
  · obtain ⟨done, h, ht, -⟩ := hl.1.tracks hi
    obtain ⟨cuts, hq⟩ := (ht.stepped hi).exists_place
    rw [hq]
    exact forward_place _ _

/-! ### Where steps are entered -/

/-- A pull, and before its result the states in which it enters a step. -/
def traced (l : Lexer) : List Lexer × Except LexError LocatedToken × Lexer :=
  match l.queue with
  | token :: queue => ([], .ok token, { l with queue })
  | [] =>
      match l.error with
      | some e => ([], .error e, l)
      | none =>
          match _hf : l.finished with
          | some stop => ([], .ok (eofToken stop), l)
          | none =>
              let stepped := l.step
              match _he : stepped.error with
              | some e => ([l], .error e, stepped)
              | none =>
                  let pulled := traced stepped
                  (l :: pulled.1, pulled.2)
termination_by l.workLeft
decreasing_by exact workLeft_step_lt _hf _he

/-- The states in which looking at the next token, or taking it, enters a step. -/
def enteredByPull (l : Lexer) : List Lexer :=
  match l.peeked with
  | some _ => []
  | none => l.traced.1

/-- The states in which taking all tokens enters a step, with an allowance for their number. -/
def enteredByCollect (l : Lexer) (allowance : Nat) : List Lexer :=
  l.enteredByPull ++
    match l.next with
    | (.error _, _) => []
    | (.ok token, l) =>
        if token.value.isEof then []
        else
          match allowance with
          | 0 => []
          | allowance + 1 => enteredByCollect l allowance

/-- The states in which a call enters a step. -/
def enteredBy (l : Lexer) : Call → List Lexer
  | .peek => l.enteredByPull
  | .next => l.enteredByPull
  | .collect => l.enteredByCollect Limits.tokenCount

/-- The states in which some calls enter a step, one call after the other. -/
def entered (l : Lexer) : List Call → List Lexer
  | [] => []
  | c :: calls => l.enteredBy c ++ (l.call c).2.entered calls

/-- **Noting the states changes no pull.** -/
theorem traced_snd (l : Lexer) : l.traced.2 = l.produce := by
  fun_induction traced l with
  | case1 l token queue hq => exact (produce_queue hq).symm
  | case2 l hq e he => exact (produce_error hq he).symm
  | case3 l hq he stop hf => exact (produce_finished hq he hf).symm
  | case4 l hq he hf stepped e hs => exact (produce_fail ⟨hq, he, hf⟩ hs).symm
  | case5 l hq he hf stepped hs pulled ih => exact ih.trans (produce_step ⟨hq, he, hf⟩ hs).symm

namespace Preserved

variable {I : Lexer → Prop} {Q : LocatedToken → Prop} {E : LexError → Prop}
variable (hI : Preserved I Q E)
include hI

theorem enter_traced (h : Keeps I Q E l) : ∀ m ∈ l.traced.1, I m ∧ m.Idle := by
  fun_induction traced l with
  | case1 | case2 | case3 => exact List.forall_mem_nil _
  | case4 l hq he hf => exact List.forall_mem_singleton.mpr ⟨h.invariant he, hq, he, hf⟩
  | case5 l hq he hf stepped hs pulled ih =>
      have hidle : l.Idle := ⟨hq, he, hf⟩
      exact List.forall_mem_cons.mpr ⟨⟨h.invariant he, hidle⟩, ih (hI.keeps_step h hidle)⟩

theorem enter_pull (h : Keeps I Q E l) : ∀ m ∈ l.enteredByPull, I m ∧ m.Idle := by
  unfold enteredByPull
  split
  · exact List.forall_mem_nil _
  · exact hI.enter_traced h

theorem enter_collect (h : Keeps I Q E l) (allowance : Nat) :
    ∀ m ∈ l.enteredByCollect allowance, I m ∧ m.Idle := by
  induction allowance generalizing l with
  | zero =>
      rw [enteredByCollect]
      refine List.forall_mem_append.mpr ⟨hI.enter_pull h, ?_⟩
      split
      · exact List.forall_mem_nil _
      · split <;> exact List.forall_mem_nil _
  | succ allowance ih =>
      have hnext := (hI.next h).2
      rw [enteredByCollect]
      refine List.forall_mem_append.mpr ⟨hI.enter_pull h, ?_⟩
      split
      · exact List.forall_mem_nil _
      · next token l' hn =>
          rw [hn] at hnext
          split
          · exact List.forall_mem_nil _
          · exact ih hnext

/-- **Every step is entered where `I` holds**, with nothing queued, by any calls. -/
theorem enter (h : Keeps I Q E l) (calls : List Call) : ∀ m ∈ l.entered calls, I m ∧ m.Idle := by
  induction calls generalizing l with
  | nil => exact List.forall_mem_nil _
  | cons c calls ih =>
      refine List.forall_mem_append.mpr ⟨?_, ih (hI.call h c).2.2⟩
      cases c with
      | peek => exact hI.enter_pull h
      | next => exact hI.enter_pull h
      | collect => exact hI.enter_collect h _

end Preserved

/-- **The invariant of a lexer's state**, under any calls.

Before the lexer fails, what it keeps is in order between the calls and wherever a step is entered.
A step is entered only where nothing is queued; it queues at most two tokens, and neither they nor
the error that it fails with end before they start.  These are all spans that a step makes: it
starts with an empty queue, and makes an error only to fail with it. -/
theorem ordered_throughout (source : String) (p : Preferences) (calls : List Call) :
    (∀ l : Lexer, l.traced.2 = l.produce) ∧
    (((ofSource source p).after calls).error = none →
      ((ofSource source p).after calls).Ordered source) ∧
    ∀ m ∈ (ofSource source p).entered calls, m.Ordered source ∧ m.queue = [] ∧
      m.step.queue.length ≤ 2 ∧ (∀ t ∈ m.step.queue, t.span.start.offset ≤ t.span.stop.offset) ∧
      ∀ e, m.step.error = some e → e.span.start.offset ≤ e.span.stop.offset := by
  have hI := preserved_ordered source p
  have htracks := tracks_ofSource source p
  have hstart : Standing source p (fun _ _ => True) (ofSource source p) ∧
      (ofSource source p).Ordered source :=
    ⟨.inl ⟨rfl, [], {}, htracks, trivial⟩,
      .of_holds htracks.holds (Held.solid_of_template rfl rfl) nofun⟩
  refine ⟨traced_snd, fun he => ((hI.keeps_after (keeps_ofSource hstart) calls).invariant he).2,
    fun m hm => ?_⟩
  obtain ⟨hstate, hidle⟩ := hI.enter (keeps_ofSource hstart) calls m hm
  exact ⟨hstate.2, hidle.queue, (sound_step hidle.queue).length_le, hI.queued hstate hidle,
    fun e he => hI.failed hstate hidle he⟩

end

/-- Looking at the text before a raw block steps past the block's opener, so that taking it steps no
further; taking the next token steps past the body and its end. -/
example : (((ofSource "a@js b@endjs" { rawFunctions := ["js"] }).entered [.peek, .next, .next]).map
    fun m => (m.cursor.position.offset, m.lastFlush.offset, m.inRaw)) =
      [(0, 0, false), (1, 0, false), (4, 1, true), (5, 1, true), (6, 1, true)] := by
  decide +kernel

end Lexer

end Blade
