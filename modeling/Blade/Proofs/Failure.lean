import Blade.Limits.Development
import Blade.Proofs.Calls

/-!
# Proofs — Failure

What becomes of a lexer once a call has failed.

A failed lexer may still hold a token: the step that failed may have queued the text before the
opener of a raw block, and collecting may have stopped between two tokens of one step.  Such a token
is delivered after the error (`LeavesToken`); otherwise every later call fails with the error again.

* `replies_of_stuck`: the calls on a failed lexer deliver the token it holds, if any, and fail.
* `replies_after_failure`: which failures are followed by a token, and what all later calls reply.
-/

namespace Blade

/-- The reply is an error of the same kind and span as `e`. -/
def Reply.Repeats (e : LexError) (r : Reply) : Prop :=
  ∃ e', r = .failed e' ∧ e'.fault = e.fault ∧ e'.span = e.span

/-- The replies of a lexer that has failed with `e` and holds a token, or none. -/
def repliesAfter (e : LexError) : Option LocatedToken → List Call → List Reply
  | _, [] => []
  | none, _ :: calls => .failed e :: repliesAfter e none calls
  | some token, .peek :: calls => .token token :: repliesAfter e (some token) calls
  | some token, .next :: calls => .token token :: repliesAfter e none calls
  | some _, .collect :: calls => .failed e :: repliesAfter e none calls

namespace Lexer

variable {source : String} {p : Preferences} {l l' : Lexer} {e : LexError}
  {held : Option LocatedToken}

/-- The lexer has failed with `e` and holds one token more, or none. -/
structure Stuck (e : LexError) (held : Option LocatedToken) (l : Lexer) : Prop where
  error : l.error = some e
  waiting : l.peeked.toList ++ l.queue = held.toList
  ne_eof : ∀ t ∈ held, t.value ≠ .eof

theorem Stuck.empty (h : Stuck e none l) : l.peeked = none ∧ l.queue = [] := by
  have := h.waiting
  rw [Option.toList_none, List.append_eq_nil_iff, Option.toList_eq_nil_iff] at this
  exact this

section
variable [Limits]

theorem next_of_stuck_none (h : Stuck e none l) : l.next = (.error e, l) := by
  obtain ⟨hp, hq⟩ := h.empty
  rw [next_of_not_peeked hp, produce_error hq h.error]

theorem next_of_stuck_some {token : LocatedToken} (h : Stuck e (some token) l) :
    ∃ l', l.next = (.ok token, l') ∧ Stuck e none l' := by
  have hw := h.waiting
  cases hp : l.peeked with
  | some t =>
      rw [hp, Option.toList_some, Option.toList_some, List.singleton_append,
        List.cons.injEq] at hw
      rw [next_of_peeked hp, hw.1]
      exact ⟨_, rfl, h.error, by simp [hw.2], by simp⟩
  | none =>
      rw [hp, Option.toList_none, List.nil_append, Option.toList_some] at hw
      rw [next_of_not_peeked hp, produce_queue hw]
      exact ⟨_, rfl, h.error, by simp [hp], by simp⟩

theorem peek_of_stuck_none (h : Stuck e none l) : l.peek = (.error e, l) := by
  obtain ⟨hp, hq⟩ := h.empty
  simp only [Lexer.peek, hp, produce_error hq h.error]

theorem peek_of_stuck_some {token : LocatedToken} (h : Stuck e (some token) l) :
    ∃ l', l.peek = (.ok token, l') ∧ Stuck e (some token) l' := by
  have hw := h.waiting
  cases hp : l.peeked with
  | some t =>
      have ht := hw
      rw [hp, Option.toList_some, Option.toList_some, List.singleton_append,
        List.cons.injEq] at ht
      simp only [Lexer.peek, hp, ht.1]
      exact ⟨_, rfl, h⟩
  | none =>
      rw [hp, Option.toList_none, List.nil_append, Option.toList_some] at hw
      simp only [Lexer.peek, hp, produce_queue hw]
      exact ⟨_, rfl, h.error, by simp, h.ne_eof⟩

theorem collect_of_stuck (h : Stuck e held l) :
    ∃ l', l.collect = (.error e, l') ∧ Stuck e none l' := by
  cases held with
  | none =>
      refine ⟨l, ?_, h⟩
      rw [collect, collectFrom.eq_def, next_of_stuck_none h]
  | some token =>
      obtain ⟨l', hnext, hl'⟩ := next_of_stuck_some h
      have ht : token.value.isEof = false :=
        Bool.eq_false_iff.mpr (mt (isEof_eq_true_iff _).mp (h.ne_eof token rfl))
      obtain ⟨n, hn⟩ : ∃ n, Limits.tokenCount = n + 1 :=
        Nat.exists_eq_succ_of_ne_zero Limits.tokenCount_pos.ne'
      refine ⟨l', ?_, hl'⟩
      rw [collect, hn, collectFrom, hnext]
      simp only [ht, Bool.false_eq_true, if_false]
      rw [collectFrom.eq_def, next_of_stuck_none hl']

/-- A call on a failed lexer replies as listed and leaves it failed. -/
theorem exists_call_of_stuck (h : Stuck e held l) (c : Call) :
    ∃ reply l' held', l.call c = (reply, l') ∧ Stuck e held' l' ∧
      ∀ calls, repliesAfter e held (c :: calls) = reply :: repliesAfter e held' calls := by
  cases c with
  | peek =>
      cases held with
      | none => exact ⟨_, l, none, by rw [call, peek_of_stuck_none h]; rfl, h, fun _ => rfl⟩
      | some token =>
          obtain ⟨l', hpeek, hl'⟩ := peek_of_stuck_some h
          exact ⟨_, l', some token, by rw [call, hpeek]; rfl, hl', fun _ => rfl⟩
  | next =>
      cases held with
      | none => exact ⟨_, l, none, by rw [call, next_of_stuck_none h]; rfl, h, fun _ => rfl⟩
      | some token =>
          obtain ⟨l', hnext, hl'⟩ := next_of_stuck_some h
          exact ⟨_, l', none, by rw [call, hnext]; rfl, hl', fun _ => rfl⟩
  | collect =>
      obtain ⟨l', hcollect, hl'⟩ := collect_of_stuck h
      refine ⟨.failed e, l', none, by rw [call, hcollect]; rfl, hl', fun _ => ?_⟩
      cases held <;> rfl

/-- **The calls on a failed lexer** deliver the token it holds, if any, and fail. -/
theorem replies_of_stuck (h : Stuck e held l) (calls : List Call) :
    l.replies calls = repliesAfter e held calls := by
  induction calls generalizing held l with
  | nil => cases held <;> rfl
  | cons c calls ih =>
      obtain ⟨reply, l', held', hcall, hl', hreplies⟩ := exists_call_of_stuck h c
      rw [replies, hcall, hreplies, ih hl']

end

theorem repeats_of_mem_repliesAfter_none {calls : List Call} {r : Reply}
    (h : r ∈ repliesAfter e none calls) : r = .failed e := by
  induction calls with
  | nil => cases h
  | cons c calls ih =>
      rw [repliesAfter, List.mem_cons] at h
      exact h.elim id ih

/-! ### Which failures leave a token -/

/-- A call that failed with `e` has left the lexer with a token queued: text before the opener of a
raw block whose argument list is wrong, or the second token of a step whose first one was one too
many. -/
inductive LeavesToken [Limits] (source : String) (p : Preferences) (e : LexError) :
    Lexer → Prop where
  | opener {m : Lexer} :
      Reached source p m → m.Idle → m.AtRawOpener → m.text ≠ "" → m.step.error = some e →
        LeavesToken source p e m.step
  | limit {m : Lexer} {token second : LocatedToken} :
      Reached source p m → m.queue = [token, second] →
        e = ⟨.tooManyTokens (Limits.tokenCount + 1) Limits.tokenCount, token.span, m.source⟩ →
        LeavesToken source p e ({ m with queue := [second] }.fail e)

theorem queue_flushText (l : Lexer) (stop : Position) :
    (l.flushText stop).queue =
      l.queue ++ if l.text = "" then [] else [⟨.text l.text, ⟨l.lastFlush, stop⟩⟩] := by
  unfold flushText
  by_cases h : l.text = "" <;> simp [h, emitTo]

section
variable [Limits]

theorem LeavesToken.queue_ne_nil (h : LeavesToken source p e l) : l.queue ≠ [] := by
  cases h with
  | @opener m _ hidle hat htext he =>
      rcases step_failed hidle.error he with ⟨hno, -⟩ | ⟨-, hstep⟩
      · exact absurd hat hno
      · rw [hstep]
        simp [fail, queue_flushText, htext]
  | limit => simp [fail]

theorem exists_stuck_of_nil (he : l.error = some e) (hp : l.peeked = none) (hq : l.queue = []) :
    ∃ held, l.queue = held.toList ∧ Stuck e held l ∧
      (held ≠ none ↔ LeavesToken source p e l) := by
  refine ⟨none, by simp [hq], ⟨he, by simp [hp, hq], by simp⟩, ?_⟩
  simp only [ne_eq, not_true_eq_false, false_iff]
  exact fun hl => hl.queue_ne_nil hq

theorem exists_stuck_of_token {token : LocatedToken} (he : l.error = some e)
    (hp : l.peeked = none) (hq : l.queue = [token]) (ht : token.value ≠ .eof)
    (hl : LeavesToken source p e l) :
    ∃ held, l.queue = held.toList ∧ Stuck e held l ∧
      (held ≠ none ↔ LeavesToken source p e l) := by
  refine ⟨some token, by simp [hq], ⟨he, by simp [hp, hq], by simpa using ht⟩, ?_⟩
  simp [hl]

/-- What a failed call leaves is an error that is recorded and at most one token. -/
theorem FailedBy.stuck (h : FailedBy source p e l) :
    ∃ held, l.queue = held.toList ∧ Stuck e held l ∧
      (held ≠ none ↔ LeavesToken source p e l) := by
  cases h with
  | again _ hp hq he => exact exists_stuck_of_nil he hp hq
  | @step m hm hp hidle he =>
      have hp' : m.step.peeked = none := (peeked_step m).trans hp
      rcases step_failed hidle.error he with ⟨-, hstep⟩ | ⟨hat, hstep⟩
      · exact exists_stuck_of_nil he hp' (by rw [hstep]; exact hidle.queue)
      · -- the text before the opener has been flushed, if there was any
        have hqueue : m.step.queue = (m.flushText m.cursor.position).queue := by rw [hstep]; rfl
        rw [queue_flushText, hidle.queue, List.nil_append] at hqueue
        by_cases ht : m.text = ""
        · exact exists_stuck_of_nil he hp' (by rw [hqueue, if_pos ht])
        · rw [if_neg ht] at hqueue
          exact exists_stuck_of_token he hp' hqueue (by simp) (.opener hm hidle hat ht he)
  | @limit m token queue hm hp hq he =>
      -- one token of the step was one too many, so at most the other one is left
      obtain ⟨hlen, hne⟩ := reached_sound hm
      cases queue with
      | nil => exact exists_stuck_of_nil rfl hp rfl
      | cons second rest =>
          cases rest with
          | nil =>
              have hsecond := hne second (by simp [hq])
              exact exists_stuck_of_token rfl hp rfl hsecond (.limit hm hq he)
          | cons third rest => simp [hq] at hlen

/-- **After a failed call.**  At most one token is left, which later calls deliver before they fail;
every later call fails with an error of the same kind and span exactly if the failure leaves no
token. -/
theorem replies_after_failure {before : List Call} {c : Call}
    (h : ((ofSource source p).after before).call c = (.failed e, l')) :
    ∃ held, l'.queue = held.toList ∧
      (∀ later, l'.replies later = repliesAfter e held later) ∧
      (held ≠ none ↔ LeavesToken source p e l') ∧
      ((∀ later, ∀ r ∈ l'.replies later, r.Repeats e) ↔ ¬ LeavesToken source p e l') := by
  obtain ⟨held, hqueue, hstuck, hiff⟩ := (failed_call_cases (reached_after before .start) h).stuck
  refine ⟨held, hqueue, replies_of_stuck hstuck, hiff, ?_⟩
  rw [← hiff, not_not]
  constructor
  · intro hall
    cases held with
    | none => rfl
    | some token =>
        -- a look at the lexer would deliver the token
        obtain ⟨e', he', -⟩ := hall [.peek] (.token token) (by
          rw [replies_of_stuck hstuck]; simp [repliesAfter])
        cases he'
  · rintro rfl later r hr
    rw [replies_of_stuck hstuck] at hr
    exact ⟨e, repeats_of_mem_repliesAfter_none hr, rfl, rfl⟩

end

/-- In `x@js(}`, the argument list of the raw opener is wrong when the text is already queued. -/
theorem call_next_rawOpener :
    ∃ l', ((ofSource "x@js(\x7d" {}).after []).call .next =
        (.failed ⟨.bracketMismatch ')' '}', .point ⟨5, 1, 6⟩, "x@js(\x7d"⟩, l') ∧
      l'.peeked = none ∧ l'.queue = [⟨.text "x", ⟨⟨0, 1, 1⟩, ⟨1, 1, 2⟩⟩⟩] := by
  have hstart : (ofSource "x@js(\x7d" {}).Idle := ⟨rfl, rfl, rfl⟩
  have htext : (ofSource "x@js(\x7d" {}).step.Idle :=
    ⟨by decide +kernel, by decide +kernel, by decide +kernel⟩
  have hnext : (ofSource "x@js(\x7d" {}).next = (ofSource "x@js(\x7d" {}).step.produce :=
    (next_of_not_peeked rfl).trans (produce_step hstart htext.error)
  have he : (ofSource "x@js(\x7d" {}).step.step.error =
      some ⟨.bracketMismatch ')' '}', .point ⟨5, 1, 6⟩, "x@js(\x7d"⟩ := by decide +kernel
  rw [produce_fail htext he] at hnext
  refine ⟨(ofSource "x@js(\x7d" {}).step.step, ?_, by decide +kernel, by decide +kernel⟩
  simp only [after, List.foldl_nil, call, hnext, Reply.ofToken]

/-- After that error the text is all that is left. -/
theorem replies_after_rawOpener :
    ∃ e l', ((ofSource "x@js(\x7d" {}).after []).call .next = (.failed e, l') ∧
      ∃ held, l'.queue = held.toList ∧
        (∀ later, l'.replies later = repliesAfter e held later) ∧
        (held ≠ none ↔ LeavesToken "x@js(\x7d" {} e l') ∧
        ((∀ later, ∀ r ∈ l'.replies later, r.Repeats e) ↔
          ¬ LeavesToken "x@js(\x7d" {} e l') := by
  obtain ⟨l', hcall, -⟩ := call_next_rawOpener
  exact ⟨_, l', hcall, replies_after_failure hcall⟩

/-- **Errors do not always stick**: there, the text is delivered after the error. -/
theorem not_errors_stick :
    ¬ ∀ (source : String) (p : Preferences) (before : List Call) (c : Call) (e : LexError)
      (l' : Lexer), ((ofSource source p).after before).call c = (.failed e, l') →
        ∀ later, ∀ r ∈ l'.replies later, r.Repeats e := by
  intro hall
  obtain ⟨l', hcall, hp, hq⟩ := call_next_rawOpener
  obtain ⟨e', he', -⟩ := hall _ _ _ _ _ l' hcall [.next] _ (by
    simp only [replies, call, next_of_not_peeked hp, produce_queue hq]
    exact List.mem_singleton_self _)
  cases he'

end Lexer

end Blade
