import Blade.Proofs.Drain

/-!
# Proofs — Calls

A lexer under any sequence of calls.

* `reached_sound`: what holds of a lexer in every state it can reach.
* `failed_call_cases`: a call fails because the lexer has failed, because its next step fails, or on
  the limit of tokens (`FailedBy`).
-/

namespace Blade

variable [Limits]

/-- A call on a lexer. -/
inductive Call where
  | peek
  | next
  | collect
  deriving DecidableEq, Repr

/-- What a call returns. -/
inductive Reply where
  | token (token : LocatedToken)
  | tokens (tokens : Array LocatedToken)
  | failed (e : LexError)
  deriving DecidableEq, Repr

/-- The reply of a call that asks for one token. -/
def Reply.ofToken : Except LexError LocatedToken → Reply
  | .ok t => .token t
  | .error e => .failed e

/-- The reply of a call that asks for all tokens. -/
def Reply.ofTokens : Except LexError (Array LocatedToken) → Reply
  | .ok ts => .tokens ts
  | .error e => .failed e

namespace Lexer

/-- One call. -/
def call (l : Lexer) : Call → Reply × Lexer
  | .peek => (.ofToken l.peek.1, l.peek.2)
  | .next => (.ofToken l.next.1, l.next.2)
  | .collect => (.ofTokens l.collect.1, l.collect.2)

/-- The replies to some calls, one after the other. -/
def replies (l : Lexer) : List Call → List Reply
  | [] => []
  | c :: calls => (l.call c).1 :: (l.call c).2.replies calls

/-- The lexer after some calls. -/
def after (l : Lexer) (calls : List Call) : Lexer :=
  calls.foldl (fun l c => (l.call c).2) l

/-! ### Reached states -/

/-- A state in which a lexer over `source` can be, between two calls or two steps. -/
inductive Reached (source : String) (p : Preferences) : Lexer → Prop where
  | start : Reached source p (.ofSource source p)
  | step {l : Lexer} : Reached source p l → l.Idle → Reached source p l.step
  | call {l : Lexer} (c : Call) : Reached source p l → Reached source p (l.call c).2

variable {source : String} {p : Preferences} {l l' : Lexer} {e : LexError}

theorem reached_after (calls : List Call) (h : Reached source p l) :
    Reached source p (l.after calls) := by
  induction calls generalizing l with
  | nil => exact h
  | cons c calls ih => exact ih (.call c h)

theorem Reached.advance (h : Reached source p l) (ha : Advance l l') : Reached source p l' := by
  induction ha with
  | refl => exact h
  | step hidle _ _ ih => exact ih (.step h hidle)

/-- At most two tokens wait in the queue, and none is the end of input. -/
structure Sound (l : Lexer) : Prop where
  length_le : l.queue.length ≤ 2
  ne_eof : ∀ t ∈ l.queue, t.value ≠ .eof

theorem sound_step (h : l.queue = []) : l.step.Sound := by
  obtain ⟨tokens, hq, hlen, hne⟩ := emits_step l
  rw [h, List.nil_append] at hq
  exact ⟨hq ▸ hlen, hq ▸ hne⟩

theorem Sound.advance (h : l.Sound) (ha : Advance l l') : l'.Sound := by
  induction ha with
  | refl => exact h
  | step hidle _ _ ih => exact ih (sound_step hidle.queue)

theorem Sound.gives {reply : Except LexError LocatedToken} (h : l.Sound) (hg : Gives l reply l') :
    l'.Sound := by
  cases hg with
  | @queued token queue hq =>
      have hlen := h.length_le
      have hne := h.ne_eof
      rw [hq, List.length_cons] at hlen
      rw [hq] at hne
      exact ⟨by dsimp only; omega, fun t ht => hne t (List.mem_cons_of_mem _ ht)⟩
  | failed => exact h
  | finished => exact h
  | fails hidle _ => exact sound_step hidle.queue

theorem Sound.produce (h : l.Sound) : l.produce.2.Sound := by
  obtain ⟨m, ha, hg⟩ := produce_cases l
  exact (h.advance ha).gives hg

theorem Sound.next (h : l.Sound) : l.next.2.Sound := by
  unfold Lexer.next
  split
  · exact ⟨h.length_le, h.ne_eof⟩
  · exact h.produce

theorem Sound.peek (h : l.Sound) : l.peek.2.Sound := by
  have hp := h.produce
  unfold Lexer.peek
  split
  · exact h
  · split
    · next hprod => rw [hprod] at hp; exact ⟨hp.length_le, hp.ne_eof⟩
    · next hprod => rwa [hprod] at hp

theorem Sound.collects {taken : Array LocatedToken} {n : Nat}
    {r : Except LexError (Array LocatedToken) × Lexer} (h : l.Sound) (hc : Collects taken l n r) :
    r.2.Sound := by
  induction hc with
  | @failed _ l l' _ _ hn =>
      have hnext := h.next
      rwa [hn] at hnext
  | @finished _ l l' _ _ hn _ =>
      have hnext := h.next
      rwa [hn] at hnext
  | @limit _ l l' _ _ hn _ _ =>
      have hnext := h.next
      rw [hn] at hnext
      exact ⟨hnext.length_le, hnext.ne_eof⟩
  | @more _ l l' _ _ _ hn _ _ ih =>
      have hnext := h.next
      rw [hn] at hnext
      exact ih hnext

/-- **Every reached state is sound.** -/
theorem reached_sound (h : Reached source p l) : l.Sound := by
  induction h with
  | start => exact ⟨by simp [ofSource], by simp [ofSource]⟩
  | step _ hidle _ => exact sound_step hidle.queue
  | call c _ ih =>
      cases c with
      | peek => exact ih.peek
      | next => exact ih.next
      | collect => exact ih.collects (collects_collectFrom _ _ _)

/-! ### A call that fails -/

/-- How a call that returns `e` has left the lexer. -/
inductive FailedBy (source : String) (p : Preferences) (e : LexError) : Lexer → Prop where
  /-- It had failed before. -/
  | again {m : Lexer} :
      Reached source p m → m.peeked = none → m.queue = [] → m.error = some e →
        FailedBy source p e m
  /-- Its step has failed. -/
  | step {m : Lexer} :
      Reached source p m → m.peeked = none → m.Idle → m.step.error = some e →
        FailedBy source p e m.step
  /-- It has taken one token too many. -/
  | limit {m : Lexer} {token : LocatedToken} {queue : List LocatedToken} :
      Reached source p m → m.peeked = none → m.queue = token :: queue →
        e = ⟨.tooManyTokens (Limits.tokenCount + 1) Limits.tokenCount, token.span, m.source⟩ →
        FailedBy source p e ({ m with queue }.fail e)

theorem peeked_of_advance (ha : Advance l l') : l'.peeked = l.peeked := by
  induction ha with
  | refl => rfl
  | @step l _ _ _ _ ih => exact ih.trans (peeked_step l)

theorem failedBy_produce (h : Reached source p l) (hp : l.peeked = none)
    (hprod : l.produce = (.error e, l')) : FailedBy source p e l' := by
  obtain ⟨m, ha, hg⟩ := produce_cases l
  rw [hprod] at hg
  have hm := h.advance ha
  have hpm : m.peeked = none := (peeked_of_advance ha).trans hp
  cases hg with
  | failed hq he => exact .again hm hpm hq he
  | fails hidle he => exact .step hm hpm hidle he

theorem failedBy_next (h : Reached source p l) (hnext : l.next = (.error e, l')) :
    FailedBy source p e l' := by
  cases hp : l.peeked with
  | some token => rw [next_of_peeked hp, Prod.mk.injEq] at hnext; exact absurd hnext.1 (by simp)
  | none => exact failedBy_produce h hp ((next_of_not_peeked hp).symm.trans hnext)

theorem failedBy_peek (h : Reached source p l) (hpeek : l.peek = (.error e, l')) :
    FailedBy source p e l' := by
  cases hp : l.peeked with
  | some token =>
      simp only [Lexer.peek, hp, Prod.mk.injEq] at hpeek
      exact absurd hpeek.1 (by simp)
  | none =>
      simp only [Lexer.peek, hp] at hpeek
      split at hpeek
      · rw [Prod.mk.injEq] at hpeek
        exact absurd hpeek.1 (by simp)
      · next e' _ hprod =>
          rw [Prod.mk.injEq, Except.error.injEq] at hpeek
          obtain ⟨rfl, rfl⟩ := hpeek
          exact failedBy_produce h hp hprod

/-- A token that is pulled, and not looked at before, is queued where it is pulled. -/
theorem exists_queued_of_next {token : LocatedToken} (h : Reached source p l)
    (hp : l.peeked = none) (hnext : l.next = (.ok token, l')) (ht : token.value ≠ .eof) :
    ∃ m queue, Reached source p m ∧ m.peeked = none ∧ m.queue = token :: queue ∧
      l' = { m with queue } := by
  rw [next_of_not_peeked hp] at hnext
  obtain ⟨m, ha, hg⟩ := produce_cases l
  rw [hnext] at hg
  cases hg with
  | queued hq => exact ⟨m, _, h.advance ha, (peeked_of_advance ha).trans hp, hq, rfl⟩
  | finished => exact absurd rfl ht

theorem Reached.next {reply : Except LexError LocatedToken} (h : Reached source p l)
    (hnext : l.next = (reply, l')) : Reached source p l' := by
  have := Reached.call .next h
  rwa [Lexer.call, hnext] at this

theorem failedBy_collects {taken : Array LocatedToken} {n : Nat}
    {r : Except LexError (Array LocatedToken) × Lexer} (hc : Collects taken l n r)
    (h : Reached source p l) (hp : l.peeked = none) (hsize : taken.size + n = Limits.tokenCount)
    (hr : r = (.error e, l')) : FailedBy source p e l' := by
  induction hc with
  | failed hn =>
      cases hr
      exact failedBy_next h hn
  | finished => cases hr
  | limit hn ht he =>
      cases hr
      obtain ⟨m, queue, hm, hpm, hq, rfl⟩ := exists_queued_of_next h hp hn ht
      rw [Nat.add_zero] at hsize
      exact .limit hm hpm hq (hsize ▸ he)
  | more hn ht _ ih =>
      have hreached := h.next hn
      obtain ⟨m, queue, hm, hpm, hq, rfl⟩ := exists_queued_of_next h hp hn ht
      exact ih hreached hpm (by rw [Array.size_push]; omega) hr

theorem failedBy_collect (h : Reached source p l) (hc : l.collect = (.error e, l')) :
    FailedBy source p e l' := by
  have hcollects := collects_collectFrom #[] l Limits.tokenCount
  cases hp : l.peeked with
  | none => exact failedBy_collects hcollects h hp (Nat.zero_add _) hc
  | some token =>
      -- the token looked at is taken first; from there on nothing is looked at
      have hnext := next_of_peeked hp
      rw [← collect, hc] at hcollects
      generalize hlimit : Limits.tokenCount = limit at hcollects
      cases hcollects with
      | failed hn =>
          rw [hnext, Prod.mk.injEq] at hn
          exact absurd hn.1 (by simp)
      | limit => exact absurd hlimit Limits.tokenCount_pos.ne'
      | more hn _ hc' =>
          refine failedBy_collects hc' (h.next hn) ?_ ?_ rfl
          · rw [hnext, Prod.mk.injEq] at hn
            rw [← hn.2]
          · rw [Array.size_push, hlimit]
            exact Nat.add_comm 1 _

/-- **A call fails because the lexer has failed, because its next step fails, or on the limit of
tokens.** -/
theorem failed_call_cases {c : Call} (h : Reached source p l)
    (hc : l.call c = (.failed e, l')) : FailedBy source p e l' := by
  cases c with
  | peek =>
      rcases hpeek : l.peek with ⟨e' | token, l₁⟩
      · rw [Lexer.call, hpeek, Prod.mk.injEq] at hc
        obtain ⟨he, rfl⟩ := hc
        cases he
        exact failedBy_peek h hpeek
      · rw [Lexer.call, hpeek, Prod.mk.injEq] at hc
        cases hc.1
  | next =>
      rcases hnext : l.next with ⟨e' | token, l₁⟩
      · rw [Lexer.call, hnext, Prod.mk.injEq] at hc
        obtain ⟨he, rfl⟩ := hc
        cases he
        exact failedBy_next h hnext
      · rw [Lexer.call, hnext, Prod.mk.injEq] at hc
        cases hc.1
  | collect =>
      rcases hcollect : l.collect with ⟨e' | tokens, l₁⟩
      · rw [Lexer.call, hcollect, Prod.mk.injEq] at hc
        obtain ⟨he, rfl⟩ := hc
        cases he
        exact failedBy_collect h hcollect
      · rw [Lexer.call, hcollect, Prod.mk.injEq] at hc
        cases hc.1

end Lexer

end Blade
