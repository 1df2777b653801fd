import Blade.Proofs.Deliveries

/-!
# Proofs — Ledger

All tokens that a lexer has queued so far, whether they still wait in it or have been taken.

A token is queued by a step, taken from the queue by a later call, and may be looked at in between.
What is to be said of a lexer and of everything it has queued is said of one list, the ledger, to
which every step adds what it queues (`Tallied`).  After any calls the ledger is what was taken
followed by what waits (`Tallied.ledger`).  Only collecting all tokens can lose some, where it
fails; then what was taken is a part of the ledger.  Calls among which none fails so are `Lossless`.
-/

namespace Blade

/-- Some tokens without the end of input. -/
def contents (tokens : List LocatedToken) : List LocatedToken :=
  tokens.filter fun t => !t.value.isEof

@[simp] theorem contents_nil : contents [] = [] := rfl

@[simp] theorem contents_append (tokens tokens' : List LocatedToken) :
    contents (tokens ++ tokens') = contents tokens ++ contents tokens' := List.filter_append ..

theorem contents_of_ne_eof {tokens : List LocatedToken} (h : ∀ t ∈ tokens, t.value ≠ .eof) :
    contents tokens = tokens := by
  refine List.filter_eq_self.mpr fun t ht => ?_
  rw [Bool.not_eq_true', ← Bool.not_eq_true, Lexer.isEof_eq_true_iff]
  exact h t ht

theorem contents_singleton {t : LocatedToken} (h : t.value ≠ .eof) : contents [t] = [t] :=
  contents_of_ne_eof (List.forall_mem_singleton.mpr h)

theorem contents_of_eof {t : LocatedToken} (h : t.value = .eof) : contents [t] = [] := by
  simp [contents, h, Token.isEof]

/-- The tokens that a call takes, by its reply.  A look takes none. -/
def Call.taken (r : Reply) : Call → List LocatedToken
  | .peek => []
  | .next => r.delivered
  | .collect => r.delivered

namespace Lexer

/-- The tokens that some calls take, one call after the other. -/
def taken [Limits] (l : Lexer) : List Call → List LocatedToken
  | [] => []
  | c :: calls => c.taken (l.call c).1 ++ (l.call c).2.taken calls

/-- The tokens that wait to be taken: the one looked at, and then the queue. -/
def waiting (l : Lexer) : List LocatedToken :=
  l.peeked.toList ++ l.queue

/-- All tokens that some calls take are handed out: none of the calls collects and fails. -/
def Lossless [Limits] (l : Lexer) : List Call → Prop
  | [] => True
  | c :: calls => (c = .collect → (l.call c).1.error? = none) ∧ (l.call c).2.Lossless calls

theorem lossless_of_not_mem [Limits] {calls : List Call} (h : Call.collect ∉ calls) (l : Lexer) :
    l.Lossless calls := by
  induction calls generalizing l with
  | nil => trivial
  | cons c calls ih =>
      rw [List.mem_cons, not_or] at h
      exact ⟨fun hc => absurd hc.symm h.1, ih h.2 _⟩

/-- All tokens of a lexer after some calls, those that were taken and those that wait, without the
end of input. -/
def ledger [Limits] (l : Lexer) (calls : List Call) : List LocatedToken :=
  contents (l.taken calls ++ (l.after calls).waiting)

variable {I : List LocatedToken → Lexer → Prop} {gone : List LocatedToken} {l l' m : Lexer}

/-- `I` relates a lexer to all tokens that it has queued.  It does not depend on which of them wait,
every step upholds it with what the step queues, and so does the error that ends collecting where
they are too many. -/
structure Tallied [Limits] (I : List LocatedToken → Lexer → Prop) : Prop where
  pulled : ∀ {ledger : List LocatedToken} {l : Lexer} (queue : List LocatedToken)
    (peeked : Option LocatedToken), I ledger l → I ledger { l with queue, peeked }
  step : ∀ {ledger : List LocatedToken} {l : Lexer}, I ledger l → l.Idle →
    I (ledger ++ l.step.queue) l.step
  limit : ∀ {ledger : List LocatedToken} {l : Lexer} (e : LexError), I ledger l →
    Limits.tokenCount < ledger.length → I ledger (l.fail e)

/-- `I` relates the lexer to the tokens `gone` from it followed by those that wait. -/
def Balanced (I : List LocatedToken → Lexer → Prop) (gone : List LocatedToken) (l : Lexer) : Prop :=
  I (gone ++ contents l.waiting) l

theorem waiting_of_peeked {token : LocatedToken} (h : l.peeked = some token) :
    l.waiting = token :: l.queue := by
  rw [waiting, h]
  rfl

theorem waiting_of_not_peeked (h : l.peeked = none) : l.waiting = l.queue := by
  rw [waiting, h]
  rfl

variable [Limits]

theorem contents_waiting_step (hi : l.Idle) :
    contents l.step.waiting = contents l.waiting ++ l.step.queue := by
  obtain ⟨tokens, hq, -, hne⟩ := emits_step l
  rw [hi.queue, List.nil_append] at hq
  rw [waiting, waiting, peeked_step, hi.queue, List.append_nil, contents_append, hq,
    contents_of_ne_eof hne]

namespace Tallied

variable (hI : Tallied I)
include hI

theorem balanced_step (h : Balanced I gone l) (hi : l.Idle) : Balanced I gone l.step := by
  rw [Balanced, contents_waiting_step hi, ← List.append_assoc]
  exact hI.step h hi

theorem balanced_advance (h : Balanced I gone l) (ha : Advance l m) : Balanced I gone m := by
  induction ha with
  | refl => exact h
  | step hi _ _ ih => exact ih (hI.balanced_step h hi)

theorem gives {reply : Except LexError LocatedToken} (h : Balanced I gone l) (hp : l.peeked = none)
    (hg : Gives l reply l') : Balanced I (gone ++ contents (Reply.ofToken reply).delivered) l' := by
  cases hg with
  | @queued token queue hq =>
      rw [Balanced, waiting_of_not_peeked hp, hq, ← List.singleton_append, contents_append,
        ← List.append_assoc] at h
      rw [Balanced, waiting_of_not_peeked (by exact hp)]
      exact hI.pulled queue _ h
  | failed =>
      rw [Reply.ofToken, Reply.delivered, contents_nil, List.append_nil]
      exact h
  | finished =>
      rw [Reply.ofToken, Reply.delivered, contents_of_eof rfl, List.append_nil]
      exact h
  | fails hi _ =>
      rw [Reply.ofToken, Reply.delivered, contents_nil, List.append_nil]
      exact hI.balanced_step h hi

theorem produce (h : Balanced I gone l) (hp : l.peeked = none) :
    Balanced I (gone ++ contents (Reply.ofToken l.produce.1).delivered) l.produce.2 := by
  obtain ⟨m, ha, hg⟩ := produce_cases l
  exact hI.gives (hI.balanced_advance h ha) ((peeked_of_advance ha).trans hp) hg

/-- A pull takes the token that it hands out. -/
theorem next (h : Balanced I gone l) :
    Balanced I (gone ++ contents (Reply.ofToken l.next.1).delivered) l.next.2 := by
  cases hp : l.peeked with
  | some token =>
      rw [next_of_peeked hp]
      rw [Balanced, waiting_of_peeked hp, ← List.singleton_append, contents_append,
        ← List.append_assoc] at h
      exact hI.pulled _ none h
  | none =>
      rw [next_of_not_peeked hp]
      exact hI.produce h hp

theorem next_error {e : LexError} (h : Balanced I gone l) (hn : l.next = (.error e, l')) :
    Balanced I gone l' := by
  have hnext := hI.next h
  rwa [hn, Reply.ofToken, Reply.delivered, contents_nil, List.append_nil] at hnext

theorem next_eof {t : LocatedToken} (h : Balanced I gone l) (hn : l.next = (.ok t, l'))
    (ht : t.value = .eof) : Balanced I gone l' := by
  have hnext := hI.next h
  rwa [hn, Reply.ofToken, Reply.delivered, contents_of_eof ht, List.append_nil] at hnext

theorem next_token {t : LocatedToken} (h : Balanced I gone l) (hn : l.next = (.ok t, l'))
    (ht : t.value ≠ .eof) : Balanced I (gone ++ [t]) l' := by
  have hnext := hI.next h
  rwa [hn, Reply.ofToken, Reply.delivered, contents_singleton ht] at hnext

/-- A look takes nothing. -/
theorem peek (h : Balanced I gone l) : Balanced I gone l.peek.2 := by
  cases hp : l.peeked with
  | some token =>
      simp only [Lexer.peek, hp]
      exact h
  | none =>
      have hproduce := hI.produce h hp
      have hpeeked := (peeked_produce l).trans hp
      simp only [Lexer.peek, hp]
      split
      · next token m hprod =>
          rw [hprod] at hproduce hpeeked
          -- the token handed out waits again
          rw [Balanced, waiting_of_not_peeked (by exact hpeeked), List.append_assoc,
            Reply.ofToken, Reply.delivered, ← contents_append] at hproduce
          exact hI.pulled _ (some token) hproduce
      · next e m hprod =>
          rw [hprod, Reply.ofToken, Reply.delivered, contents_nil, List.append_nil] at hproduce
          exact hproduce

/-- Collecting takes the tokens that it hands out, and where it fails those it would have. -/
theorem collects {collected : Array LocatedToken} {n : Nat}
    {r : Except LexError (Array LocatedToken) × Lexer} (hc : Collects collected l n r)
    (hsize : collected.size + n = Limits.tokenCount)
    (hne : ∀ t ∈ collected.toList, t.value ≠ .eof) (h : Balanced I (gone ++ collected.toList) l) :
    ∃ gone', (gone ++ contents (Reply.ofTokens r.1).delivered).Sublist gone' ∧
      ((Reply.ofTokens r.1).error? = none →
        gone' = gone ++ contents (Reply.ofTokens r.1).delivered) ∧ Balanced I gone' r.2 := by
  induction hc with
  | @failed collected l l' n e hn =>
      refine ⟨_, ?_, fun hno => absurd hno (Option.some_ne_none e), hI.next_error h hn⟩
      rw [Reply.ofTokens, Reply.delivered, contents_nil, List.append_nil]
      exact List.sublist_append_left _ _
  | @finished collected l l' n eof hn he =>
      have hall : gone ++ contents (Reply.ofTokens (.ok (collected.push eof))).delivered =
          gone ++ collected.toList := by
        rw [Reply.ofTokens, Reply.delivered, Array.toList_push, contents_append,
          contents_of_ne_eof hne, contents_of_eof he, List.append_nil]
      exact ⟨_, hall ▸ .refl _, fun _ => hall.symm, hI.next_eof h hn he⟩
  | @limit collected l l' token e hn ht _ =>
      refine ⟨_, ?_, fun hno => absurd hno (Option.some_ne_none e),
        hI.limit e (hI.next_token h hn ht) ?_⟩
      · rw [Reply.ofTokens, Reply.delivered, contents_nil, List.append_nil, List.append_assoc]
        exact List.sublist_append_left _ _
      · rw [← hsize]
        simp
        omega
  | @more collected l l' n token r hn ht _ ih =>
      have htoken := hI.next_token h hn ht
      rw [List.append_assoc] at htoken
      refine ih (by rw [Array.size_push]; omega) ?_ (by rwa [Array.toList_push])
      rw [Array.toList_push]
      exact List.forall_mem_append.mpr ⟨hne, List.forall_mem_singleton.mpr ht⟩

/-- What a call takes is gone.  Unless it collects and fails, nothing else is. -/
theorem call (h : Balanced I gone l) (c : Call) :
    ∃ gone', (gone ++ contents (c.taken (l.call c).1)).Sublist gone' ∧
      ((c = .collect → (l.call c).1.error? = none) →
        gone' = gone ++ contents (c.taken (l.call c).1)) ∧
      Balanced I gone' (l.call c).2 := by
  cases c with
  | peek =>
      refine ⟨gone, ?_, fun _ => ?_, hI.peek h⟩
      · rw [Call.taken, contents_nil, List.append_nil]
      · rw [Call.taken, contents_nil, List.append_nil]
  | next => exact ⟨_, .refl _, fun _ => rfl, hI.next h⟩
  | collect =>
      obtain ⟨gone', hsub, heq, hbalanced⟩ :=
        hI.collects (collects_collectFrom #[] l Limits.tokenCount) (Nat.zero_add _)
          (List.forall_mem_nil _) (by rwa [List.append_nil])
      exact ⟨gone', hsub, fun hok => heq (hok rfl), hbalanced⟩

/-- After any calls, what they took is gone, and nothing else where they lose nothing. -/
theorem after (h : Balanced I gone l) (calls : List Call) :
    ∃ gone', (gone ++ contents (l.taken calls)).Sublist gone' ∧
      (l.Lossless calls → gone' = gone ++ contents (l.taken calls)) ∧
      Balanced I gone' (l.after calls) := by
  induction calls generalizing l gone with
  | nil =>
      refine ⟨gone, ?_, fun _ => ?_, h⟩
      · rw [taken, contents_nil, List.append_nil]
      · rw [taken, contents_nil, List.append_nil]
  | cons c calls ih =>
      obtain ⟨gone₁, hsub₁, heq₁, hcall⟩ := hI.call h c
      obtain ⟨gone₂, hsub₂, heq₂, hafter⟩ := ih hcall
      rw [taken, contents_append, ← List.append_assoc]
      refine ⟨gone₂, (hsub₁.append_right _).trans hsub₂, fun hloss => ?_, hafter⟩
      rw [heq₂ hloss.2, heq₁ hloss.1]

/-- **After any calls the ledger is what was taken followed by what waits.**  Where some call
collects, it may hold more. -/
theorem ledger (h : I (contents l.waiting) l) (calls : List Call) :
    ∃ ledger, (l.ledger calls).Sublist ledger ∧
      (Call.collect ∉ calls → ledger = l.ledger calls) ∧ I ledger (l.after calls) := by
  have hnone : Balanced I [] l := h
  obtain ⟨gone, hsub, heq, hafter⟩ := hI.after hnone calls
  rw [List.nil_append] at hsub heq
  refine ⟨_, ?_, fun hno => ?_, hafter⟩
  · rw [Lexer.ledger, contents_append]
    exact hsub.append_right _
  · rw [Lexer.ledger, contents_append, heq (lossless_of_not_mem hno l)]

end Tallied

end Lexer

end Blade
