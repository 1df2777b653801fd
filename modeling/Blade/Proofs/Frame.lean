import Blade.Lexer.Pull
import Blade.Proofs.Piece

/-!
# Proofs — Frame

What the operations of a lexer leave alone.  Reading pieces changes neither the preferences nor the
state of the pulls (the token looked at, the end noticed, the error); at most two tokens are queued
by a step, and none of them is the end of input.

* `frame_step`: a step before the end of input that does not fail keeps the pulls' state.
* `emits_step`: what a step adds to the queue.
* `step_failed`: what a step that fails has done.
* `source_step`: a step stays in its source.
-/

namespace Blade

/-- The tokens of pieces are not the end of input. -/
theorem Piece.token_ne_eof [Limits] {p : Preferences} {block : Option String}
    {chunk after : List Char} {token : Token} {list : Option ArgumentList}
    (h : Piece p block chunk after (.token token list)) : token ≠ .eof := by
  cases h <;> simp [dataToken]

namespace Lexer

/-- `l'` differs from `l` neither in the preferences nor in the state of the pulls. -/
structure Frame (l l' : Lexer) : Prop where
  preferences : l'.preferences = l.preferences
  peeked : l'.peeked = l.peeked
  finished : l'.finished = l.finished
  error : l'.error = l.error

theorem Frame.refl (l : Lexer) : Frame l l := ⟨rfl, rfl, rfl, rfl⟩

theorem Frame.trans {l₁ l₂ l₃ : Lexer} (h : Frame l₁ l₂) (h' : Frame l₂ l₃) : Frame l₁ l₃ :=
  ⟨h'.preferences.trans h.preferences, h'.peeked.trans h.peeked, h'.finished.trans h.finished,
    h'.error.trans h.error⟩

/-- `l'` has `l`'s queue and behind it at most `n` tokens more, none of them the end of input. -/
def Emits (n : Nat) (l l' : Lexer) : Prop :=
  ∃ tokens, l'.queue = l.queue ++ tokens ∧ tokens.length ≤ n ∧ ∀ t ∈ tokens, t.value ≠ .eof

theorem Emits.refl {l l' : Lexer} (h : l'.queue = l.queue) : Emits 0 l l' :=
  ⟨[], by simp [h], Nat.le_refl 0, by simp⟩

theorem Emits.trans {m n : Nat} {l₁ l₂ l₃ : Lexer} (h : Emits m l₁ l₂) (h' : Emits n l₂ l₃) :
    Emits (m + n) l₁ l₃ := by
  obtain ⟨ts, hts, hlen, hne⟩ := h
  obtain ⟨us, hus, hlen', hne'⟩ := h'
  refine ⟨ts ++ us, by rw [hus, hts, List.append_assoc], by simp; omega, fun t ht => ?_⟩
  rcases List.mem_append.mp ht with ht | ht
  · exact hne t ht
  · exact hne' t ht

theorem Emits.mono {m n : Nat} {l l' : Lexer} (h : Emits m l l') (hmn : m ≤ n) :
    Emits n l l' := by
  obtain ⟨ts, hts, hlen, hne⟩ := h
  exact ⟨ts, hts, Nat.le_trans hlen hmn, hne⟩

variable (l : Lexer) (stop : Position) (block : RawBlock) (list : Option ArgumentList)

/-! ### One operation -/

theorem frame_flushText : Frame l (l.flushText stop) := by
  unfold flushText; split <;> exact ⟨rfl, rfl, rfl, rfl⟩

theorem frame_noteList : Frame l (l.noteList list) := by
  cases list <;> exact ⟨rfl, rfl, rfl, rfl⟩

theorem frame_emit (token : Token) : Frame l (l.emit token) := ⟨rfl, rfl, rfl, rfl⟩

theorem frame_closeRaw : Frame l (l.closeRaw block) := by
  simp only [closeRaw]
  split
  · exact (show Frame l { l with mode := .template } from ⟨rfl, rfl, rfl, rfl⟩).trans
      (frame_flushText _ _)
  · exact ⟨rfl, rfl, rfl, rfl⟩

theorem emits_flushText : Emits 1 l (l.flushText stop) := by
  unfold flushText
  split
  · exact (Emits.refl rfl).mono (Nat.zero_le 1)
  · exact ⟨_, rfl, Nat.le_refl 1, by simp⟩

theorem emits_emit {token : Token} (h : token ≠ .eof) : Emits 1 l (l.emit token) :=
  ⟨_, rfl, Nat.le_refl 1, by simpa using h⟩

theorem queue_noteList : (l.noteList list).queue = l.queue := by cases list <;> rfl

theorem emits_closeRaw : Emits 1 l (l.closeRaw block) := by
  simp only [closeRaw]
  split
  · exact (Emits.refl rfl).trans (emits_flushText { l with mode := .template } _)
  · exact ⟨_, rfl, Nat.le_refl 1, by simp⟩

/-! ### A piece -/

variable [Limits]
variable {l}

theorem frame_perform (l : Lexer) (n : Nat) (e : Effect) : Frame l (l.perform n e) := by
  cases e with
  | hold value => exact ⟨rfl, rfl, rfl, rfl⟩
  | token token list =>
      refine Frame.trans ?_ (frame_emit _ token)
      refine Frame.trans ?_ (frame_flushText _ _)
      refine Frame.trans ?_ (frame_noteList _ list)
      exact ⟨rfl, rfl, rfl, rfl⟩
  | enter name list =>
      have h := (frame_flushText l l.cursor.position).trans (frame_noteList _ list)
      exact ⟨h.preferences, h.peeked, h.finished, h.error⟩
  | leave =>
      simp only [perform]
      split
      · next block _ =>
          exact (show Frame l { l with cursor := l.cursor.skip n } from ⟨rfl, rfl, rfl, rfl⟩).trans
            (frame_closeRaw _ block)
      · exact .refl l

theorem emits_perform (l : Lexer) {block : Option String} {chunk after : List Char} {e : Effect}
    (h : Piece l.preferences block chunk after e) (n : Nat) : Emits 2 l (l.perform n e) := by
  cases e with
  | hold value => exact (Emits.refl rfl).mono (Nat.zero_le 2)
  | token token list =>
      refine Emits.trans (m := 1) (n := 1) ?_ (emits_emit _ h.token_ne_eof)
      refine Emits.trans (m := 0) (n := 1) ?_ (emits_flushText _ _)
      exact .refl (queue_noteList _ list)
  | enter name list =>
      have hflush := emits_flushText l l.cursor.position
      exact (hflush.trans (.refl (queue_noteList _ list))).mono (Nat.le_succ 1)
  | leave =>
      simp only [perform]
      split
      · next block _ =>
          have hclose := emits_closeRaw { l with cursor := l.cursor.skip n } block
          exact hclose.mono (Nat.le_succ 1)
      · exact (Emits.refl rfl).mono (Nat.zero_le 2)

/-! ### A step -/

/-- **A step that reads something and does not fail leaves the pulls' state alone.** -/
theorem frame_step (h : l.cursor.rest ≠ []) (he : l.step.error = none) : Frame l l.step := by
  rcases step_cases l h with ⟨chunk, after, e, -, -, hstep⟩ | ⟨-, e, hstep⟩ | ⟨-, e, hstep⟩
  · exact hstep ▸ frame_perform l chunk.length e
  · simp [hstep] at he
  · simp [hstep] at he

theorem emits_finish (l : Lexer) : Emits 2 l l.finish := by
  simp only [finish]
  split
  · next block _ =>
      split
      · exact (Emits.refl rfl).mono (Nat.zero_le 2)
      · exact (emits_closeRaw l block).trans (emits_flushText _ _)
  · exact (emits_flushText l _).mono (Nat.le_succ 1)

/-- **A step queues at most two tokens, and never the end of input.** -/
theorem emits_step (l : Lexer) : Emits 2 l l.step := by
  by_cases h : l.cursor.rest = []
  · exact step_nil h ▸ emits_finish l
  · rcases step_cases l h with ⟨chunk, after, e, -, hp, hstep⟩ | ⟨-, e, hstep⟩ | ⟨-, e, hstep⟩
    · exact hstep ▸ emits_perform l hp chunk.length
    · exact hstep ▸ (Emits.refl rfl).mono (Nat.zero_le 2)
    · exact hstep ▸ (emits_flushText l l.cursor.position).mono (Nat.le_succ 1)

theorem finish_failed {e : LexError} (h : l.error = none) (he : l.finish.error = some e) :
    l.finish = l.fail e := by
  simp only [finish] at he ⊢
  split at he
  · next block _ =>
      split at he
      · next hs =>
          rw [error_fail, Option.some.injEq] at he
          simp only [hs, if_true, he]
      · rw [((frame_closeRaw l block).trans (frame_flushText _ _)).error, h] at he
        cases he
  · rw [(frame_flushText l _).error, h] at he
    cases he

/-- **A step that fails changes nothing else**, except that at the opener of a raw block it has
queued the text before it. -/
theorem step_failed {e : LexError} (h : l.error = none) (he : l.step.error = some e) :
    (¬ l.AtRawOpener ∧ l.step = l.fail e) ∨
      (l.AtRawOpener ∧ l.step = (l.flushText l.cursor.position).fail e) := by
  by_cases hr : l.cursor.rest = []
  · rw [step_nil hr] at he ⊢
    refine .inl ⟨?_, finish_failed h he⟩
    -- at the end of input no opener is next
    rintro ⟨-, name, after, hname, -⟩
    rw [hr] at hname
    cases hname
  · rcases step_cases l hr with ⟨chunk, after, eff, -, -, hstep⟩ | ⟨hno, e', hstep⟩ |
      ⟨hat, e', hstep⟩
    · rw [hstep, (frame_perform l chunk.length eff).error, h] at he
      cases he
    · rw [hstep, error_fail, Option.some.injEq] at he
      exact .inl ⟨hno, he ▸ hstep⟩
    · rw [hstep, error_fail, Option.some.injEq] at he
      exact .inr ⟨hat, he ▸ hstep⟩

theorem peeked_step (l : Lexer) : l.step.peeked = l.peeked := by
  by_cases h : l.cursor.rest = []
  · rw [step_nil h]
    simp only [finish]
    split
    · next block _ =>
        split
        · rfl
        · exact ((frame_closeRaw l block).trans (frame_flushText _ _)).peeked
    · exact (frame_flushText l _).peeked
  · rcases step_cases l h with ⟨chunk, after, e, -, -, hstep⟩ | ⟨-, e, hstep⟩ | ⟨-, e, hstep⟩
    · exact hstep ▸ (frame_perform l chunk.length e).peeked
    · exact hstep ▸ rfl
    · exact hstep ▸ (frame_flushText l l.cursor.position).peeked

theorem source_perform (l : Lexer) (n : Nat) (e : Effect) : (l.perform n e).source = l.source := by
  cases e with
  | hold value => exact Cursor.source_skip _ n
  | token token list => simp [perform, source]
  | enter name list => simp [perform, source]
  | leave =>
      simp only [perform]
      split <;> simp [source]

/-- **A step stays in its source.** -/
theorem source_step (l : Lexer) : l.step.source = l.source := by
  by_cases h : l.cursor.rest = []
  · rw [step_nil h]
    simp only [finish]
    split
    · split <;> simp [source]
    · simp [source]
  · rcases step_cases l h with ⟨chunk, after, e, -, -, hstep⟩ | ⟨-, e, hstep⟩ | ⟨-, e, hstep⟩
    · exact hstep ▸ source_perform l chunk.length e
    · exact hstep ▸ rfl
    · rw [hstep, source, cursor_fail, cursor_flushText, source]

end Lexer

end Blade
