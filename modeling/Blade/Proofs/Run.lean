import Blade.Proofs.Drain

/-!
# Proofs — Run

Tokens taken from a lexer one at a time until it ends, in the end of input or in an error.

`Runs l tokens ending l'` says that this delivers `tokens` and then `ending`, and leaves `l'`.  It
is draining (`Drains`) with the failures.

* `Runs.unique`: a lexer has at most one run.
* `drains_iff_runs`: it is draining where it ends in the end of input.
* `runs_of_step`, `runs_of_queue`, `runs_of_finished`, `runs_of_fail`: a run goes on after a step,
  delivers what is queued, and ends where the input is finished or a step fails.
-/

namespace Blade.Lexer

variable [Limits]

/-- Taking tokens from `l` delivers `tokens` and then `ending`, the end of input or an error, and
leaves `l'`. -/
inductive Runs : Lexer → List LocatedToken → Except LexError LocatedToken → Lexer → Prop where
  | eof {l l' : Lexer} {eof : LocatedToken} :
      l.next = (.ok eof, l') → eof.value = .eof → Runs l [] (.ok eof) l'
  | failed {l l' : Lexer} {e : LexError} : l.next = (.error e, l') → Runs l [] (.error e) l'
  | more {l l' m : Lexer} {token : LocatedToken} {tokens : List LocatedToken}
      {ending : Except LexError LocatedToken} :
      l.next = (.ok token, l') → token.value ≠ .eof → Runs l' tokens ending m →
        Runs l (token :: tokens) ending m

variable {l l' m m' : Lexer} {tokens tokens' : List LocatedToken}
  {ending ending' : Except LexError LocatedToken}

/-- **A lexer has at most one run.** -/
theorem Runs.unique (h : l.Runs tokens ending m) (h' : l.Runs tokens' ending' m') :
    tokens' = tokens ∧ ending' = ending ∧ m' = m := by
  induction h generalizing tokens' with
  | eof hn he =>
      cases h' with
      | eof hn' _ =>
          rw [hn] at hn'
          cases hn'
          exact ⟨rfl, rfl, rfl⟩
      | failed hn' => rw [hn] at hn'; cases hn'
      | more hn' hne _ =>
          rw [hn] at hn'
          cases hn'
          exact absurd he hne
  | failed hn =>
      cases h' with
      | eof hn' _ => rw [hn] at hn'; cases hn'
      | failed hn' =>
          rw [hn] at hn'
          cases hn'
          exact ⟨rfl, rfl, rfl⟩
      | more hn' _ _ => rw [hn] at hn'; cases hn'
  | more hn hne _ ih =>
      cases h' with
      | eof hn' he =>
          rw [hn] at hn'
          cases hn'
          exact absurd he hne
      | failed hn' => rw [hn] at hn'; cases hn'
      | more hn' _ hr =>
          rw [hn] at hn'
          cases hn'
          obtain ⟨rfl, rfl, rfl⟩ := ih hr
          exact ⟨rfl, rfl, rfl⟩

theorem Runs.congr (h : l.Runs tokens ending m) (hn : l'.next = l.next) :
    l'.Runs tokens ending m := by
  cases h with
  | eof hl he => exact .eof (hn.trans hl) he
  | failed hl => exact .failed (hn.trans hl)
  | more hl hne hr => exact .more (hn.trans hl) hne hr

/-- Draining a lexer is a run that ends in the end of input. -/
theorem drains_iff_runs {eof : LocatedToken} :
    l.Drains tokens eof ↔ ∃ m, l.Runs tokens (.ok eof) m := by
  constructor
  · intro hd
    induction hd with
    | done hn he => exact ⟨_, .eof hn he⟩
    | more hn hne _ ih =>
        obtain ⟨m, hr⟩ := ih
        exact ⟨m, .more hn hne hr⟩
  · rintro ⟨m, hr⟩
    generalize hok : (Except.ok eof : Except LexError LocatedToken) = ending at hr
    induction hr with
    | eof hn he =>
        cases hok
        exact .done hn he
    | failed => cases hok
    | more hn hne _ ih => exact .more hn hne (ih hok)

/-- **A run goes on after a step** that does not fail. -/
theorem runs_of_step (hp : l.peeked = none) (h : l.Idle) (he : l.step.error = none)
    (hr : l.step.Runs tokens ending m) : l.Runs tokens ending m := by
  refine hr.congr ?_
  rw [next_of_not_peeked hp, next_of_not_peeked ((peeked_step l).trans hp), produce_step h he]

/-- **A run delivers the queue first.** -/
theorem runs_of_queue {queue : List LocatedToken} (hp : l.peeked = none)
    (hq : ∀ t ∈ queue, t.value ≠ .eof) (hr : { l with queue := [] }.Runs tokens ending m) :
    { l with queue }.Runs (queue ++ tokens) ending m := by
  induction queue with
  | nil => exact hr
  | cons token queue ih =>
      refine .more ?_ (hq token (List.mem_cons_self ..))
        (ih fun t ht => hq t (List.mem_cons_of_mem _ ht))
      rw [next_of_not_peeked (by exact hp)]
      exact produce_queue rfl

/-- A run of a finished lexer is the end of input alone. -/
theorem runs_of_finished {stop : Position} (hp : l.peeked = none) (hq : l.queue = [])
    (he : l.error = none) (hf : l.finished = some stop) :
    l.Runs [] (.ok (eofToken stop)) l := by
  refine .eof ?_ rfl
  rw [next_of_not_peeked hp, produce_finished hq he hf]

/-- **A run ends in the error that a step fails with.** -/
theorem runs_of_fail {e : LexError} (hp : l.peeked = none) (h : l.Idle)
    (he : l.step.error = some e) : l.Runs [] (.error e) l.step := by
  refine .failed ?_
  rw [next_of_not_peeked hp, produce_fail h he]

end Blade.Lexer
