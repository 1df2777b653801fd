import Blade.Proofs.Drain

/-!
# Proofs — Cut

The grammar of a whole source.  Lexing cuts the source into slices and reads a token off each one.
Characters that have been read but belong to no token yet are held back, with the text they stand
for (`Held`); a piece adds to what is held back or cuts tokens off.

`Lexes p h rest cuts tail` says that with `h` held back, the characters `rest` are cut into `cuts`,
and `tail` is left over at the end of input.

* `holds_perform`: a lexer's text, positions and queue follow what is held back and cut.
* `drains_ofSource_iff`: draining a lexer delivers the tokens of the cuts, each one placed where its
  slice lies.
-/

namespace Blade

/-- What has been read and belongs to no token yet. -/
structure Held where
  /-- The raw block that is open, with its arguments. -/
  block : Option (String × Option (List String)) := none
  /-- The characters that were read. -/
  chars : List Char := []
  /-- The text that they stand for. -/
  text : List Char := []

/-- A token and the characters it was read from. -/
structure Cut where
  token : Token
  slice : List Char

namespace Held

/-- The name of the raw block that is open. -/
def openName? (h : Held) : Option String := h.block.map Prod.fst

/-- The text held back, cut off as a token unless it is empty. -/
def flushed (h : Held) : List Cut :=
  if h.text = [] then [] else [⟨.text (String.ofList h.text), h.chars⟩]

/-- The characters that flushing the text leaves. -/
def kept (h : Held) : List Char := if h.text = [] then h.chars else []

/-- What closing the raw block cuts off. -/
def closed (h : Held) (p : Preferences) : List Cut :=
  match h.block with
  | some (name, args) =>
      if p.isTransparent name then h.flushed
      else [⟨.rawFunction name args (String.ofList h.text), h.chars⟩]
  | none => h.flushed

/-- The characters that closing the raw block leaves. -/
def left (h : Held) (p : Preferences) : List Char :=
  match h.block with
  | some (name, _) => if p.isTransparent name then h.kept else []
  | none => h.kept

/-- What reading a piece cuts off. -/
def cuts (h : Held) (p : Preferences) (chunk : List Char) : Effect → List Cut
  | .hold _ => []
  | .token token _ => h.flushed ++ [⟨token, h.kept ++ chunk⟩]
  | .enter _ _ => h.flushed
  | .leave => { h with chars := h.chars ++ chunk }.closed p

/-- What is held back after a piece. -/
def perform (h : Held) (p : Preferences) (chunk : List Char) : Effect → Held
  | .hold value => { h with chars := h.chars ++ chunk, text := h.text ++ value }
  | .token _ _ => { h with chars := [], text := [] }
  | .enter name list =>
      ⟨some (String.ofList name, list.map ArgumentList.args), h.kept ++ chunk, []⟩
  | .leave => ⟨none, { h with chars := h.chars ++ chunk }.left p, []⟩

end Held

/-- With `h` held back, `rest` is cut into `cuts`, and `tail` is left at the end of input. -/
inductive Lexes [Limits] (p : Preferences) : Held → List Char → List Cut → List Char → Prop where
  | done {h : Held} : (h.block = none ∨ p.strict = false) → Lexes p h [] (h.closed p) (h.left p)
  | more {h : Held} {chunk after : List Char} {e : Effect} {cuts : List Cut} {tail : List Char} :
      Piece p h.openName? chunk after e → Lexes p (h.perform p chunk e) after cuts tail →
        Lexes p h (chunk ++ after) (h.cuts p chunk e ++ cuts) tail

/-- The characters of all slices. -/
def slices (cuts : List Cut) : List Char := cuts.flatMap Cut.slice

@[simp] theorem slices_nil : slices [] = [] := rfl

@[simp] theorem slices_cons (cut : Cut) (cuts : List Cut) :
    slices (cut :: cuts) = cut.slice ++ slices cuts := rfl

@[simp] theorem slices_append (cuts cuts' : List Cut) :
    slices (cuts ++ cuts') = slices cuts ++ slices cuts' := List.flatMap_append

/-- The tokens of some cuts, the first slice of which starts at a position. -/
def place (start : Position) : List Cut → List LocatedToken
  | [] => []
  | cut :: cuts =>
      ⟨cut.token, ⟨start, start.advanceAll cut.slice⟩⟩ :: place (start.advanceAll cut.slice) cuts

theorem place_append (start : Position) (cuts cuts' : List Cut) :
    place start (cuts ++ cuts') =
      place start cuts ++ place (start.advanceAll (slices cuts)) cuts' := by
  induction cuts generalizing start with
  | nil => rfl
  | cons cut cuts ih =>
      simp only [List.cons_append, place, ih, slices_cons, Position.advanceAll_append]

theorem length_place (start : Position) (cuts : List Cut) :
    (place start cuts).length = cuts.length := by
  induction cuts generalizing start with
  | nil => rfl
  | cons cut cuts ih => rw [place, List.length_cons, List.length_cons, ih]

theorem map_value_place (start : Position) (cuts : List Cut) :
    (place start cuts).map (·.value) = cuts.map Cut.token := by
  induction cuts generalizing start with
  | nil => rfl
  | cons cut cuts ih => rw [place, List.map_cons, List.map_cons, ih]

/-- The tokens of placed cuts lie where the slices do. -/
theorem exists_span_of_mem_place {start : Position} {cuts : List Cut} {t : LocatedToken}
    (h : t ∈ place start cuts) : ∃ before slice after,
    slices cuts = before ++ slice ++ after ∧
      t.span = ⟨start.advanceAll before, start.advanceAll (before ++ slice)⟩ := by
  induction cuts generalizing start with
  | nil => cases h
  | cons cut cuts ih =>
      rcases List.mem_cons.mp h with rfl | h
      · exact ⟨[], cut.slice, slices cuts, rfl, rfl⟩
      · obtain ⟨before, slice, after, hs, hspan⟩ := ih h
        refine ⟨cut.slice ++ before, slice, after, ?_, ?_⟩
        · rw [slices_cons, hs, List.append_assoc, List.append_assoc, List.append_assoc]
        · rw [hspan, List.append_assoc, Position.advanceAll_append _ cut.slice,
            Position.advanceAll_append _ cut.slice]

/-- Cutting placed cuts in two places the second part behind the first. -/
theorem exists_of_place_eq_append {start : Position} {cuts : List Cut}
    {before after : List LocatedToken} (h : place start cuts = before ++ after) :
    ∃ cuts₁ cuts₂, cuts = cuts₁ ++ cuts₂ ∧
      before = place start cuts₁ ∧ after = place (start.advanceAll (slices cuts₁)) cuts₂ := by
  have hlen := congrArg List.length h
  rw [length_place, List.length_append] at hlen
  have hparts := h
  rw [← List.take_append_drop before.length cuts, place_append] at hparts
  obtain ⟨hbefore, hafter⟩ := List.append_inj hparts (by rw [length_place, List.length_take]; omega)
  exact ⟨_, _, (List.take_append_drop before.length cuts).symm, hbefore.symm, hafter.symm⟩

/-! ### Nothing is lost -/

namespace Held

variable {p : Preferences} (h : Held)

theorem slices_flushed : slices h.flushed ++ h.kept = h.chars := by
  unfold flushed kept
  split <;> simp

theorem openName?_eq_none_iff {h : Held} : h.openName? = none ↔ h.block = none := by
  simp [openName?]

theorem flushed_eq_nil_iff : h.flushed = [] ↔ h.text = [] := by
  unfold flushed; split <;> simp_all

theorem kept_of_flushed_ne_nil (hf : h.flushed ≠ []) : h.kept = [] :=
  if_neg (mt h.flushed_eq_nil_iff.mpr hf)

/-- Closing cuts nothing off only where no text is held back and the block is transparent. -/
theorem closed_eq_nil_iff : h.closed p = [] ↔
    h.text = [] ∧ ∀ name args, h.block = some (name, args) → p.isTransparent name = true := by
  unfold closed
  split
  · next name args hb =>
      by_cases ht : p.isTransparent name
      · simp [ht, hb, flushed_eq_nil_iff]
      · simp [ht, hb]
  · next hb => simp [hb, flushed_eq_nil_iff]

theorem left_of_closed_ne_nil (hc : h.closed p ≠ []) : h.left p = [] := by
  unfold closed left at *
  split at hc
  · split at hc
    · next ht => rw [if_pos ht]; exact h.kept_of_flushed_ne_nil hc
    · next ht => rw [if_neg ht]
  · exact h.kept_of_flushed_ne_nil hc

theorem slices_closed (p : Preferences) : slices (h.closed p) ++ h.left p = h.chars := by
  unfold closed left
  split
  · split
    · exact h.slices_flushed
    · simp
  · exact h.slices_flushed

theorem slices_cuts (p : Preferences) (chunk : List Char) (e : Effect) :
    slices (h.cuts p chunk e) ++ (h.perform p chunk e).chars = h.chars ++ chunk := by
  cases e with
  | hold value => simp [cuts, perform]
  | token token list => simp [cuts, perform, ← List.append_assoc, slices_flushed]
  | enter name list => simp [cuts, perform, ← List.append_assoc, slices_flushed]
  | leave => exact slices_closed _ p

/-- The tokens cut off do not depend on the characters they were read from. -/
theorem map_token_flushed (chars : List Char) :
    { h with chars }.flushed.map Cut.token = h.flushed.map Cut.token := by
  simp only [flushed]
  split <;> rfl

theorem map_token_closed (p : Preferences) (chars : List Char) :
    ({ h with chars }.closed p).map Cut.token = (h.closed p).map Cut.token := by
  simp only [closed]
  split
  · split
    · exact h.map_token_flushed chars
    · rfl
  · exact h.map_token_flushed chars

theorem map_token_cuts (p : Preferences) (chars chunk : List Char) (e : Effect) :
    ({ h with chars }.cuts p chunk e).map Cut.token = (h.cuts p chunk e).map Cut.token := by
  cases e with
  | hold value => rfl
  | token token list => simp only [cuts, List.map_append, map_token_flushed, List.map_singleton]
  | enter name list => exact h.map_token_flushed chars
  | leave =>
      have hclosed := map_token_closed { h with chars := h.chars ++ chunk } p (chars ++ chunk)
      exact hclosed

theorem perform_chars (p : Preferences) (chars chunk : List Char) (e : Effect) : ∃ chars',
    { h with chars }.perform p chunk e = { h.perform p chunk e with chars := chars' } := by
  cases e <;> exact ⟨_, rfl⟩

end Held

/-- **Every character is in a slice or left over.** -/
theorem Lexes.slices_append_tail [Limits] {p : Preferences} {h : Held} {rest : List Char}
    {cuts : List Cut} {tail : List Char} (hl : Lexes p h rest cuts tail) : slices cuts ++ tail = h.chars ++ rest := by
  induction hl with
  | @done h _ => rw [h.slices_closed, List.append_nil]
  | @more h chunk after e cuts tail _ _ ih =>
      rw [slices_append, List.append_assoc, ih, ← List.append_assoc, h.slices_cuts,
        List.append_assoc]

/-! ### A lexer cuts its source -/

namespace Lexer

variable {l l' : Lexer} {h : Held}

/-- The raw block that is open, with its arguments. -/
def block? (l : Lexer) : Option (String × Option (List String)) :=
  match l.mode with
  | .raw block => some (block.name, block.args)
  | .template => none

/-- What `l` holds back is `h`. -/
structure Holds (l : Lexer) (h : Held) : Prop where
  block : l.block? = h.block
  text : l.text = String.ofList h.text
  position : l.cursor.position = l.lastFlush.advanceAll h.chars

/-- `l'` has queued the tokens of `cuts`, which start where the last token of `l` ended. -/
structure Emitted (l l' : Lexer) (cuts : List Cut) : Prop where
  queue : l'.queue = l.queue ++ place l.lastFlush cuts
  lastFlush : l'.lastFlush = l.lastFlush.advanceAll (slices cuts)

theorem Emitted.trans {l₁ l₂ l₃ : Lexer} {cuts cuts' : List Cut} (h : Emitted l₁ l₂ cuts)
    (h' : Emitted l₂ l₃ cuts') : Emitted l₁ l₃ (cuts ++ cuts') where
  queue := by rw [h'.queue, h.queue, h.lastFlush, place_append, List.append_assoc]
  lastFlush := by rw [h'.lastFlush, h.lastFlush, slices_append, Position.advanceAll_append]

theorem openName?_of_block? (hb : l.block? = h.block) : l.openName? = h.openName? := by
  rw [Held.openName?, ← hb, openName?, block?]
  cases l.mode <;> rfl

@[simp] theorem mode_noteList (l : Lexer) (list : Option ArgumentList) :
    (l.noteList list).mode = l.mode := by cases list <;> rfl

@[simp] theorem text_noteList (l : Lexer) (list : Option ArgumentList) :
    (l.noteList list).text = l.text := by cases list <;> rfl

@[simp] theorem lastFlush_noteList (l : Lexer) (list : Option ArgumentList) :
    (l.noteList list).lastFlush = l.lastFlush := by cases list <;> rfl

@[simp] theorem mode_flushText (l : Lexer) (stop : Position) :
    (l.flushText stop).mode = l.mode := by
  unfold flushText; split <;> rfl

theorem text_flushText (l : Lexer) (stop : Position) : (l.flushText stop).text = "" := by
  unfold flushText
  split
  · next ht => simpa using ht
  · rfl

theorem emitted_flushText {stop : Position} (ht : l.text = String.ofList h.text)
    (hs : stop = l.lastFlush.advanceAll h.chars) :
    Emitted l (l.flushText stop) h.flushed ∧
      stop = (l.flushText stop).lastFlush.advanceAll h.kept := by
  have hem : Emitted l (l.flushText stop) h.flushed := by
    unfold flushText Held.flushed
    by_cases he : h.text = []
    · rw [if_pos (by simp [ht, he]), if_pos he]
      exact ⟨by simp [place], by simp⟩
    · rw [if_neg (by simp [ht, he]), if_neg he]
      exact ⟨by simp [emitTo, place, ht, hs], by simp [emitTo, hs]⟩
  refine ⟨hem, ?_⟩
  rw [hem.lastFlush, ← Position.advanceAll_append, h.slices_flushed, hs]

theorem emitted_emit (token : Token) {slice : List Char}
    (hp : l.cursor.position = l.lastFlush.advanceAll slice) :
    Emitted l (l.emit token) [⟨token, slice⟩] :=
  ⟨by simp [emit, emitTo, place, hp], by simp [emit, emitTo, hp]⟩

theorem emitted_closeRaw {block : RawBlock} (hb : h.block = some (block.name, block.args))
    (ht : l.text = String.ofList h.text)
    (hp : l.cursor.position = l.lastFlush.advanceAll h.chars) :
    Emitted l (l.closeRaw block) (h.closed l.preferences) ∧
      Holds (l.closeRaw block) ⟨none, h.left l.preferences, []⟩ := by
  simp only [closeRaw, Held.closed, Held.left, hb]
  by_cases htr : l.preferences.isTransparent block.name
  · have hflush := emitted_flushText (l := { l with mode := .template }) ht hp
    simp only [htr, if_true]
    exact ⟨⟨hflush.1.queue, hflush.1.lastFlush⟩, by rw [block?, mode_flushText],
      text_flushText _ _, by rw [cursor_flushText]; exact hflush.2⟩
  · have hemit := emitted_emit (l := { l with mode := .template })
      (.rawFunction block.name block.args l.text) hp
    simp only [htr, Bool.false_eq_true, if_false]
    refine ⟨⟨?_, hemit.lastFlush⟩, rfl, rfl, rfl⟩
    rw [← ht]
    exact hemit.queue

theorem block?_congr (hm : l'.mode = l.mode) : l'.block? = l.block? := by
  rw [block?, block?, hm]

theorem holds_token [Limits] {chunk after : List Char} (hh : Holds l h)
    (hr : l.cursor.rest = chunk ++ after) (token : Token) (list : Option ArgumentList) :
    Emitted l (l.perform chunk.length (.token token list))
        (h.cuts l.preferences chunk (.token token list)) ∧
      Holds (l.perform chunk.length (.token token list))
        (h.perform l.preferences chunk (.token token list)) := by
  -- the text before the token is cut off where the token starts
  let past : Lexer := { l with cursor := l.cursor.skip chunk.length }.noteList list
  have htext : past.text = String.ofList h.text := by rw [text_noteList]; exact hh.text
  have hposition : l.cursor.position = past.lastFlush.advanceAll h.chars := by
    rw [lastFlush_noteList]; exact hh.position
  obtain ⟨hflush, hstart⟩ := emitted_flushText htext hposition
  have hend : (past.flushText l.cursor.position).cursor.position =
      (past.flushText l.cursor.position).lastFlush.advanceAll (h.kept ++ chunk) := by
    rw [cursor_flushText, cursor_noteList, Position.advanceAll_append, ← hstart]
    simp only [Cursor.skip_append hr]
  have hemit := hflush.trans (emitted_emit token hend)
  refine ⟨⟨?_, ?_⟩, ?_, ?_, rfl⟩
  · have := hemit.queue
    rwa [queue_noteList, lastFlush_noteList] at this
  · have := hemit.lastFlush
    rwa [lastFlush_noteList] at this
  · refine (block?_congr ?_).trans hh.block
    exact (mode_flushText _ _).trans (mode_noteList _ _)
  · exact text_flushText _ _

theorem holds_enter [Limits] {chunk after name : List Char} (hh : Holds l h)
    (hr : l.cursor.rest = chunk ++ after) (list : Option ArgumentList) :
    Emitted l (l.perform chunk.length (.enter name list))
        (h.cuts l.preferences chunk (.enter name list)) ∧
      Holds (l.perform chunk.length (.enter name list))
        (h.perform l.preferences chunk (.enter name list)) := by
  obtain ⟨hflush, hstart⟩ := emitted_flushText hh.text hh.position
  refine ⟨⟨?_, ?_⟩, rfl, ?_, ?_⟩
  · exact (queue_noteList _ list).trans hflush.queue
  · exact (lastFlush_noteList _ list).trans hflush.lastFlush
  · exact (text_noteList _ list).trans (text_flushText _ _)
  · have hstop := congrArg (·.advanceAll chunk) hstart
    rw [← Position.advanceAll_append] at hstop
    refine Eq.trans ?_ (hstop.trans ?_)
    · simp only [perform, Cursor.skip_append hr]
    · simp only [perform, lastFlush_noteList, Held.perform]

theorem holds_leave [Limits] {chunk after : List Char} {block : RawBlock} (hh : Holds l h)
    (hm : l.mode = .raw block) (hr : l.cursor.rest = chunk ++ after) :
    Emitted l (l.perform chunk.length .leave) (h.cuts l.preferences chunk .leave) ∧
      Holds (l.perform chunk.length .leave) (h.perform l.preferences chunk .leave) := by
  have hb : h.block = some (block.name, block.args) := by rw [← hh.block, block?, hm]
  have hpos : (l.cursor.skip chunk.length).position =
      l.lastFlush.advanceAll (h.chars ++ chunk) := by
    rw [Cursor.skip_append hr, Position.advanceAll_append, ← hh.position]
  have hclose := emitted_closeRaw (l := { l with cursor := l.cursor.skip chunk.length })
    (h := { h with chars := h.chars ++ chunk }) hb hh.text hpos
  simp only [perform, hm]
  exact ⟨⟨hclose.1.queue, hclose.1.lastFlush⟩, hclose.2⟩

/-- **What a lexer holds back, and what it queues, follow the pieces that it reads.** -/
theorem holds_perform [Limits] {chunk after : List Char} {e : Effect} (hh : Holds l h)
    (hp : Piece l.preferences l.openName? chunk after e) (hr : l.cursor.rest = chunk ++ after) :
    Emitted l (l.perform chunk.length e) (h.cuts l.preferences chunk e) ∧
      Holds (l.perform chunk.length e) (h.perform l.preferences chunk e) := by
  cases e with
  | hold value =>
      refine ⟨⟨by simp [perform, Held.cuts, place], by simp [perform, Held.cuts]⟩,
        hh.block, by simp [perform, Held.perform, hh.text], ?_⟩
      simp only [perform, Held.perform, Cursor.skip_append hr, Position.advanceAll_append,
        ← hh.position]
  | token token list => exact holds_token hh hr token list
  | enter name list => exact holds_enter hh hr list
  | leave =>
      obtain ⟨name, hn⟩ : ∃ name, l.openName? = some name := by
        generalize l.openName? = block at hp
        cases hp
        exact ⟨_, rfl⟩
      obtain ⟨block, hm, -⟩ := mode_of_openName?_some hn
      exact holds_leave hh hm hr

/-! ### Draining a lexer -/

/-- `l` has handed out everything it has queued, holds back `h` and can go on. -/
structure Ready (l : Lexer) (h : Held) : Prop where
  idle : l.Idle
  peeked : l.peeked = none
  holds : Holds l h

/-- Reading a piece moves the cursor past it. -/
theorem cursor_perform [Limits] {chunk after : List Char} {e : Effect}
    (hp : Piece l.preferences l.openName? chunk after e) (n : Nat) :
    (l.perform n e).cursor = l.cursor.skip n := by
  cases e with
  | hold value => rfl
  | token token list =>
      simp only [perform, cursor_emit, cursor_flushText, cursor_noteList]
  | enter name list => rfl
  | leave =>
      generalize ho : l.openName? = block at hp
      cases hp
      obtain ⟨block, hm, -⟩ := mode_of_openName?_some ho
      simp only [perform, hm, cursor_closeRaw]

/-- A step queues tokens only, not the end of input. -/
theorem value_ne_eof_of_step [Limits] (hl : l.Idle) : ∀ t ∈ l.step.queue, t.value ≠ .eof := by
  obtain ⟨_, hq, -, hne⟩ := emits_step l
  rw [hl.queue, List.nil_append] at hq
  exact hq ▸ hne

variable {tokens : List LocatedToken} {eof : LocatedToken}

/-- `l'` is `l` past a piece: it has queued what the piece cuts off. -/
structure Past (l l' : Lexer) (h : Held) (chunk after : List Char) (e : Effect) : Prop where
  queue : l'.queue = place l.lastFlush (h.cuts l.preferences chunk e)
  lastFlush : l'.lastFlush = l.lastFlush.advanceAll (slices (h.cuts l.preferences chunk e))
  holds : Holds l' (h.perform l.preferences chunk e)
  cursor : l'.cursor = ⟨l.cursor.source, after, l.cursor.position.advanceAll chunk⟩
  frame : Frame l l'

/-- **A step in front of a piece leads past it.** -/
theorem past_step [Limits] {chunk after : List Char} {e : Effect} (hi : l.Idle) (hh : Holds l h)
    (hp : Piece l.preferences h.openName? chunk after e) (hr : l.cursor.rest = chunk ++ after) :
    Past l l.step h chunk after e := by
  rw [← openName?_of_block? hh.block] at hp
  obtain ⟨hem, hholds⟩ := holds_perform hh hp hr
  rw [step_of_piece hp hr]
  refine ⟨?_, hem.lastFlush, hholds, ?_, frame_perform l chunk.length e⟩
  · rw [hem.queue, hi.queue, List.nil_append]
  · rw [cursor_perform hp, Cursor.skip_append hr]

/-- Once the tokens of a piece are taken, the lexer is ready again. -/
theorem Past.ready {chunk after : List Char} {e : Effect} (hl : Ready l h)
    (hp : Past l l' h chunk after e) :
    Ready { l' with queue := [] } (h.perform l.preferences chunk e) where
  idle := ⟨rfl, hp.frame.error.trans hl.idle.error, hp.frame.finished.trans hl.idle.finished⟩
  peeked := hp.frame.peeked.trans hl.peeked
  holds := ⟨hp.holds.block, hp.holds.text, hp.holds.position⟩

section
variable [Limits]

/-- **Draining goes on past a piece**, once what it cuts off is delivered. -/
theorem exists_drains_piece_iff {chunk after : List Char} {e : Effect} (hl : Ready l h)
    (hp : Piece l.preferences h.openName? chunk after e) (hr : l.cursor.rest = chunk ++ after) :
    ∃ l', Ready l' (h.perform l.preferences chunk e) ∧ l'.cursor.rest = after ∧
      l'.preferences = l.preferences ∧
      l'.lastFlush = l.lastFlush.advanceAll (slices (h.cuts l.preferences chunk e)) ∧
      (l.Drains tokens eof ↔ ∃ rest,
        tokens = place l.lastFlush (h.cuts l.preferences chunk e) ++ rest ∧
          l'.Drains rest eof) := by
  have hpast := past_step hl.idle hl.holds hp hr
  have hready := hpast.ready hl
  have hne := value_ne_eof_of_step hl.idle
  rw [hpast.queue] at hne
  refine ⟨{ l.step with queue := [] }, hready, ?_, hpast.frame.preferences, hpast.lastFlush, ?_⟩
  · exact congrArg Cursor.rest hpast.cursor
  · rw [drains_step_iff hl.peeked hl.idle, ← drains_queue_iff (l := l.step) hready.peeked hne,
      ← hpast.queue]
    exact and_iff_right (hpast.frame.error.trans hl.idle.error)

/-- At the end of input everything that is held back is closed. -/
theorem exists_finish (hh : Holds l h) (hs : h.block = none ∨ l.preferences.strict = false) :
    ∃ l', l.finish = { l' with finished := some l.cursor.position } ∧
      Emitted l l' (h.closed l.preferences) ∧ Holds l' ⟨none, h.left l.preferences, []⟩ ∧
      Frame l l' := by
  cases hm : l.mode with
  | template =>
      have hb : h.block = none := by rw [← hh.block, block?, hm]
      obtain ⟨hflush, hstop⟩ := emitted_flushText hh.text hh.position
      simp only [finish, hm, Held.closed, Held.left, hb]
      refine ⟨_, rfl, hflush, ⟨?_, text_flushText _ _, ?_⟩, frame_flushText _ _⟩
      · rw [block?, mode_flushText, hm]
      · rw [cursor_flushText]
        exact hstop
  | raw block =>
      have hb : h.block = some (block.name, block.args) := by
        rw [← hh.block, block?, hm]
      have hstrict : l.preferences.strict = false := by
        rcases hs with hno | hs
        · rw [hb] at hno; cases hno
        · exact hs
      obtain ⟨hclose, hholds⟩ := emitted_closeRaw hb hh.text hh.position
      -- closing the block has flushed all text
      have hflush : (l.closeRaw block).flushText l.cursor.position = l.closeRaw block := by
        rw [flushText, hholds.text]; rfl
      simp only [finish, hm, hstrict, Bool.false_eq_true, if_false, hflush]
      exact ⟨_, rfl, hclose, hholds, frame_closeRaw l block⟩

/-- The step at the end of input closes what is held back. -/
theorem step_end (hi : l.Idle) (hh : Holds l h) (hr : l.cursor.rest = [])
    (hs : h.block = none ∨ l.preferences.strict = false) :
    l.step.queue = place l.lastFlush (h.closed l.preferences) ∧ l.step.error = none ∧
      l.step.finished = some l.cursor.position := by
  obtain ⟨l', hfinish, hclose, -, hframe⟩ := exists_finish hh hs
  rw [step_nil hr, hfinish]
  refine ⟨?_, hframe.error.trans hi.error, rfl⟩
  rw [hclose.queue, hi.queue, List.nil_append]

/-- Only a raw block that has to be closed fails the step at the end of input. -/
theorem closable_of_step_end (hh : Holds l h) (hr : l.cursor.rest = []) (he : l.step.error = none) :
    h.block = none ∨ l.preferences.strict = false := by
  cases hm : l.mode with
  | template => exact .inl (by rw [← hh.block, block?, hm])
  | raw block =>
      refine .inr (Bool.eq_false_iff.mpr fun hstrict => ?_)
      simp [step_nil hr, finish, hm, hstrict] at he

/-- Where the input ends, what is held back is delivered. -/
theorem drains_end_iff (hl : Ready l h) (hr : l.cursor.rest = [])
    (hs : h.block = none ∨ l.preferences.strict = false) :
    l.Drains tokens eof ↔ tokens = place l.lastFlush (h.closed l.preferences) ∧
      eof = eofToken l.cursor.position := by
  obtain ⟨hq, he, hf⟩ := step_end hl.idle hl.holds hr hs
  have hp := (peeked_step l).trans hl.peeked
  have hdrain : ({ l.step with queue := l.step.queue } : Lexer).Drains tokens eof ↔ _ :=
    drains_queue_iff hp (value_ne_eof_of_step hl.idle)
  rw [drains_step_iff hl.peeked hl.idle, and_iff_right he, hdrain]
  simp only [drains_finished_iff (l := { l.step with queue := [] }) hp rfl he hf]
  constructor
  · rintro ⟨rest, rfl, rfl, rfl⟩
    exact ⟨by rw [hq, List.append_nil], rfl⟩
  · rintro ⟨rfl, rfl⟩
    exact ⟨[], by rw [hq, List.append_nil], rfl, rfl⟩

theorem drains_of_lexes {p : Preferences} {rest tail : List Char} {cuts : List Cut}
    (hlex : Lexes p h rest cuts tail) (hl : Ready l h) (hp : l.preferences = p)
    (hr : l.cursor.rest = rest) :
    l.Drains (place l.lastFlush cuts)
      (eofToken (l.lastFlush.advanceAll (slices cuts ++ tail))) := by
  induction hlex generalizing l with
  | @done h hs =>
      subst hp
      refine (drains_end_iff hl hr hs).mpr ⟨rfl, ?_⟩
      rw [h.slices_closed, hl.holds.position]
  | @more h chunk after e cuts tail hpiece _ ih =>
      subst hp
      obtain ⟨l', hl', hr', hp', hlast, hiff⟩ := exists_drains_piece_iff hl hpiece hr
      refine hiff.mpr ⟨_, place_append .., ?_⟩
      rw [slices_append, List.append_assoc, Position.advanceAll_append, ← hlast]
      exact ih hl' hp' hr'

theorem exists_lexes_of_drains {n : Nat} (hn : l.cursor.rest.length = n) (hl : Ready l h)
    (hd : l.Drains tokens eof) :
    ∃ cuts tail, Lexes l.preferences h l.cursor.rest cuts tail ∧ tokens = place l.lastFlush cuts ∧
      eof = eofToken (l.lastFlush.advanceAll (slices cuts ++ tail)) := by
  -- on the number of characters left, since no piece is empty
  induction n using Nat.strong_induction_on generalizing l h tokens with
  | _ n ih =>
    subst hn
    by_cases hr : l.cursor.rest = []
    · have hs := closable_of_step_end hl.holds hr ((drains_step_iff hl.peeked hl.idle).mp hd).1
      obtain ⟨rfl, rfl⟩ := (drains_end_iff hl hr hs).mp hd
      refine ⟨_, _, by rw [hr]; exact .done hs, rfl, ?_⟩
      rw [h.slices_closed, hl.holds.position]
    · rcases step_cases l hr with ⟨chunk, after, e, hr', hpiece, -⟩ | ⟨-, e, hstep⟩ | ⟨-, e, hstep⟩
      · rw [openName?_of_block? hl.holds.block] at hpiece
        obtain ⟨l', hl', hafter, hp', hlast, hiff⟩ := exists_drains_piece_iff hl hpiece hr'
        obtain ⟨rest, rfl, hrest⟩ := hiff.mp hd
        have hlt : l'.cursor.rest.length < l.cursor.rest.length := by
          rw [hr', hafter, List.length_append]
          have := List.length_pos_iff.mpr hpiece.ne_nil
          omega
        obtain ⟨cuts, tail, hlex, rfl, rfl⟩ := ih _ hlt rfl hl' hrest
        rw [hp', hafter] at hlex
        refine ⟨_, tail, by rw [hr']; exact .more hpiece hlex, ?_, ?_⟩
        · rw [place_append, hlast]
        · rw [hlast, ← Position.advanceAll_append, slices_append, List.append_assoc]
      · have he := ((drains_step_iff hl.peeked hl.idle).mp hd).1
        simp [hstep] at he
      · have he := ((drains_step_iff hl.peeked hl.idle).mp hd).1
        simp [hstep] at he

end

theorem ready_ofSource (source : String) (p : Preferences) : Ready (ofSource source p) {} :=
  ⟨⟨rfl, rfl, rfl⟩, rfl, rfl, rfl, rfl⟩

/-- **Draining a lexer delivers the tokens of the cuts of its source.** -/
theorem drains_ofSource_iff [Limits] {source : String} {p : Preferences} :
    (ofSource source p).Drains tokens eof ↔ ∃ cuts tail, Lexes p {} source.toList cuts tail ∧
      tokens = place .start cuts ∧ eof = eofToken (Position.start.afterText source) := by
  constructor
  · intro hd
    obtain ⟨cuts, tail, hlex, ht, he⟩ := exists_lexes_of_drains rfl (ready_ofSource source p) hd
    refine ⟨cuts, tail, hlex, ht, ?_⟩
    have hslices := hlex.slices_append_tail
    rw [he, hslices]
    rfl
  · rintro ⟨cuts, tail, hlex, rfl, rfl⟩
    have hd := drains_of_lexes hlex (ready_ofSource source p) rfl rfl
    rw [hlex.slices_append_tail] at hd
    exact hd

end Lexer

end Blade
