import Blade.Proofs.Frame

/-!
# Proofs — Drain

What a pull hands out, and what all pulls up to the end of input hand out.

`Drains l tokens eof` says that taking tokens one at a time from `l` delivers `tokens` and then the
end of input `eof`.

* `produce_cases`: a pull steps the lexer (`Advance`) to where it hands something out (`Gives`).
* `drains_step_iff`, `drains_queue_iff`, `drains_finished_iff`: draining goes on after a step,
  delivers what is queued, and ends once the input is finished.
* `collects_collectFrom`: what collecting all tokens can do, pull by pull (`Collects`).
* `collect_eq_ok_iff`: collecting all tokens is draining, up to the limit on their number.
-/

namespace Blade.Lexer

/-! ### One pull -/

/-- The lexer has to step before it can hand anything out. -/
structure Idle (l : Lexer) : Prop where
  queue : l.queue = []
  error : l.error = none
  finished : l.finished = none

theorem isEof_eq_true_iff (t : Token) : t.isEof = true ↔ t = .eof := by
  cases t <;> simp [Token.isEof]

variable [Limits]
variable {l l' : Lexer}

theorem produce_queue {token : LocatedToken} {queue : List LocatedToken}
    (h : l.queue = token :: queue) : l.produce = (.ok token, { l with queue }) := by
  rw [produce]; simp only [h]

theorem produce_error {e : LexError} (hq : l.queue = []) (he : l.error = some e) :
    l.produce = (.error e, l) := by
  rw [produce]; simp only [hq, he]

theorem produce_finished {stop : Position} (hq : l.queue = []) (he : l.error = none)
    (hf : l.finished = some stop) : l.produce = (.ok (eofToken stop), l) := by
  rw [produce]
  simp only [hq, he]
  split
  · next h => rw [hf] at h; cases h; rfl
  · next h => rw [hf] at h; cases h

theorem produce_fail {e : LexError} (h : l.Idle) (he : l.step.error = some e) :
    l.produce = (.error e, l.step) := by
  rw [produce]
  simp only [h.queue, h.error]
  split
  · next hf => rw [h.finished] at hf; cases hf
  · split
    · next hs => rw [he] at hs; cases hs; rfl
    · next hs => rw [he] at hs; cases hs

theorem produce_step (h : l.Idle) (he : l.step.error = none) : l.produce = l.step.produce := by
  rw [produce]
  simp only [h.queue, h.error]
  split
  · next hf => rw [h.finished] at hf; cases hf
  · split
    · next hs => rw [he] at hs; cases hs
    · rfl

/-- `l'` is reached from `l` by steps that a pull takes. -/
inductive Advance : Lexer → Lexer → Prop where
  | refl {l : Lexer} : Advance l l
  | step {l l' : Lexer} : l.Idle → l.step.error = none → Advance l.step l' → Advance l l'

/-- `l` hands out `reply`, without a step that does not fail, and becomes `l'`. -/
inductive Gives : Lexer → Except LexError LocatedToken → Lexer → Prop where
  | queued {l : Lexer} {token : LocatedToken} {queue : List LocatedToken} :
      l.queue = token :: queue → Gives l (.ok token) { l with queue }
  | failed {l : Lexer} {e : LexError} : l.queue = [] → l.error = some e → Gives l (.error e) l
  | finished {l : Lexer} {stop : Position} :
      l.queue = [] → l.error = none → l.finished = some stop → Gives l (.ok (eofToken stop)) l
  | fails {l : Lexer} {e : LexError} : l.Idle → l.step.error = some e → Gives l (.error e) l.step

/-- **A pull steps the lexer until it can hand something out.** -/
theorem produce_cases (l : Lexer) : ∃ m, Advance l m ∧ Gives m l.produce.1 l.produce.2 := by
  cases hq : l.queue with
  | cons token queue => exact ⟨l, .refl, by rw [produce_queue hq]; exact .queued hq⟩
  | nil =>
      cases he : l.error with
      | some e => exact ⟨l, .refl, by rw [produce_error hq he]; exact .failed hq he⟩
      | none =>
          cases hf : l.finished with
          | some stop =>
              exact ⟨l, .refl, by rw [produce_finished hq he hf]; exact .finished hq he hf⟩
          | none =>
              have hidle : l.Idle := ⟨hq, he, hf⟩
              cases hs : l.step.error with
              | some e => exact ⟨l, .refl, by rw [produce_fail hidle hs]; exact .fails hidle hs⟩
              | none =>
                  obtain ⟨m, hadv, hgives⟩ := produce_cases l.step
                  exact ⟨m, .step hidle hs hadv, by rwa [produce_step hidle hs]⟩
termination_by l.workLeft
decreasing_by exact workLeft_step_lt hf hs

theorem produce_of_gives {m : Lexer} {reply : Except LexError LocatedToken} (ha : Advance l m)
    (hg : Gives m reply l') : l.produce = (reply, l') := by
  induction ha with
  | refl =>
      cases hg with
      | queued hq => exact produce_queue hq
      | failed hq he => exact produce_error hq he
      | finished hq he hf => exact produce_finished hq he hf
      | fails hidle he => exact produce_fail hidle he
  | step hidle he _ ih => exact (produce_step hidle he).trans (ih hg)

theorem next_of_peeked {token : LocatedToken} (h : l.peeked = some token) :
    l.next = (.ok token, { l with peeked := none }) := by
  rw [next, h]

theorem next_of_not_peeked (h : l.peeked = none) : l.next = l.produce := by
  rw [next, h]

/-! ### All pulls -/

/-- Taking tokens from `l` delivers `tokens` and then the end of input. -/
inductive Drains : Lexer → List LocatedToken → LocatedToken → Prop where
  | done {l l' : Lexer} {eof : LocatedToken} :
      l.next = (.ok eof, l') → eof.value = .eof → Drains l [] eof
  | more {l l' : Lexer} {token eof : LocatedToken} {tokens : List LocatedToken} :
      l.next = (.ok token, l') → token.value ≠ .eof → Drains l' tokens eof →
        Drains l (token :: tokens) eof

variable {tokens : List LocatedToken} {eof : LocatedToken}

theorem drains_congr {l₁ l₂ : Lexer} (h : l₁.next = l₂.next) :
    l₁.Drains tokens eof ↔ l₂.Drains tokens eof := by
  constructor <;> rintro (⟨hn, he⟩ | ⟨hn, he, hd⟩)
  · exact .done (h ▸ hn) he
  · exact .more (h ▸ hn) he hd
  · exact .done (h ▸ hn) he
  · exact .more (h ▸ hn) he hd

theorem drains_ok_iff {token : LocatedToken} (h : l.next = (.ok token, l'))
    (ht : token.value ≠ .eof) :
    l.Drains tokens eof ↔ ∃ rest, tokens = token :: rest ∧ l'.Drains rest eof := by
  constructor
  · rintro (⟨hn, he⟩ | ⟨hn, he, hd⟩)
    · rw [h, Prod.mk.injEq, Except.ok.injEq] at hn
      exact absurd (hn.1 ▸ he) ht
    · rw [h, Prod.mk.injEq, Except.ok.injEq] at hn
      obtain ⟨rfl, rfl⟩ := hn
      exact ⟨_, rfl, hd⟩
  · rintro ⟨rest, rfl, hd⟩
    exact .more h ht hd

theorem drains_eof_iff {token : LocatedToken} (h : l.next = (.ok token, l'))
    (ht : token.value = .eof) : l.Drains tokens eof ↔ tokens = [] ∧ eof = token := by
  constructor
  · rintro (⟨hn, -⟩ | ⟨hn, hne, -⟩)
    · rw [h, Prod.mk.injEq, Except.ok.injEq] at hn
      exact ⟨rfl, hn.1.symm⟩
    · rw [h, Prod.mk.injEq, Except.ok.injEq] at hn
      exact absurd (hn.1 ▸ ht) hne
  · rintro ⟨rfl, rfl⟩
    exact .done h ht

theorem not_drains_of_error {e : LexError} (h : l.next = (.error e, l')) :
    ¬ l.Drains tokens eof := by
  rintro (⟨hn, -⟩ | ⟨hn, -, -⟩)
  · rw [h, Prod.mk.injEq] at hn; exact absurd hn.1 (by simp)
  · rw [h, Prod.mk.injEq] at hn; exact absurd hn.1 (by simp)

/-- **Draining goes on after a step**, unless the step fails. -/
theorem drains_step_iff (hp : l.peeked = none) (h : l.Idle) :
    l.Drains tokens eof ↔ l.step.error = none ∧ l.step.Drains tokens eof := by
  cases he : l.step.error with
  | none =>
      have hnext : l.next = l.step.next := by
        rw [next_of_not_peeked hp, next_of_not_peeked ((peeked_step l).trans hp), produce_step h he]
      simp only [true_and]
      exact drains_congr hnext
  | some e =>
      simp only [reduceCtorEq, false_and, iff_false]
      exact not_drains_of_error ((next_of_not_peeked hp).trans (produce_fail h he))

/-- **Draining delivers the queue first.** -/
theorem drains_queue_iff {queue : List LocatedToken} (hp : l.peeked = none)
    (hq : ∀ t ∈ queue, t.value ≠ .eof) :
    { l with queue }.Drains tokens eof ↔
      ∃ rest, tokens = queue ++ rest ∧ { l with queue := [] }.Drains rest eof := by
  induction queue generalizing tokens with
  | nil => simp
  | cons token queue ih =>
      have hnext : { l with queue := token :: queue }.next =
          (.ok token, { l with queue }) := by
        rw [next_of_not_peeked (by exact hp)]
        exact produce_queue rfl
      rw [drains_ok_iff hnext (hq token (by simp))]
      constructor
      · rintro ⟨delivered, rfl, hd⟩
        obtain ⟨rest, rfl, hrest⟩ := (ih fun t ht => hq t (List.mem_cons_of_mem _ ht)).mp hd
        exact ⟨rest, rfl, hrest⟩
      · rintro ⟨rest, rfl, hd⟩
        exact ⟨queue ++ rest, rfl,
          (ih fun t ht => hq t (List.mem_cons_of_mem _ ht)).mpr ⟨rest, rfl, hd⟩⟩

/-- Draining a finished lexer delivers the end of input alone. -/
theorem drains_finished_iff {stop : Position} (hp : l.peeked = none) (hq : l.queue = [])
    (he : l.error = none) (hf : l.finished = some stop) :
    l.Drains tokens eof ↔ tokens = [] ∧ eof = eofToken stop := by
  have hnext : l.next = (.ok (eofToken stop), l) := by
    rw [next_of_not_peeked hp, produce_finished hq he hf]
  exact drains_eof_iff hnext rfl

theorem Drains.eof_value (h : l.Drains tokens eof) : eof.value = .eof := by
  induction h with
  | done _ he => exact he
  | more _ _ _ ih => exact ih

/-- Collecting from `l` after the tokens in `taken`, with an allowance, ends with a result and a
lexer. -/
inductive Collects : Array LocatedToken → Lexer → Nat →
    Except LexError (Array LocatedToken) × Lexer → Prop where
  | failed {taken : Array LocatedToken} {l l' : Lexer} {n : Nat} {e : LexError} :
      l.next = (.error e, l') → Collects taken l n (.error e, l')
  | finished {taken : Array LocatedToken} {l l' : Lexer} {n : Nat} {eof : LocatedToken} :
      l.next = (.ok eof, l') → eof.value = .eof → Collects taken l n (.ok (taken.push eof), l')
  | limit {taken : Array LocatedToken} {l l' : Lexer} {token : LocatedToken} {e : LexError} :
      l.next = (.ok token, l') → token.value ≠ .eof →
        e = ⟨.tooManyTokens (taken.size + 1) Limits.tokenCount, token.span, l'.source⟩ →
        Collects taken l 0 (.error e, l'.fail e)
  | more {taken : Array LocatedToken} {l l' : Lexer} {n : Nat} {token : LocatedToken}
      {r : Except LexError (Array LocatedToken) × Lexer} :
      l.next = (.ok token, l') → token.value ≠ .eof → Collects (taken.push token) l' n r →
        Collects taken l (n + 1) r

theorem collects_collectFrom (taken : Array LocatedToken) (l : Lexer) (n : Nat) :
    Collects taken l n (l.collectFrom taken n) := by
  induction n generalizing taken l with
  | zero =>
      rw [collectFrom]
      split
      · next hn => exact .failed hn
      · next hn =>
          split
          · next ht => exact .finished hn ((isEof_eq_true_iff _).mp ht)
          · next ht => exact .limit hn (mt (isEof_eq_true_iff _).mpr ht) rfl
  | succ n ih =>
      rw [collectFrom]
      split
      · next hn => exact .failed hn
      · next hn =>
          split
          · next ht => exact .finished hn ((isEof_eq_true_iff _).mp ht)
          · next ht => exact .more hn (mt (isEof_eq_true_iff _).mpr ht) (ih _ _)

theorem Collects.eq_ok_iff {taken result : Array LocatedToken} {n : Nat}
    {r : Except LexError (Array LocatedToken) × Lexer} (h : Collects taken l n r) :
    r.1 = .ok result ↔ ∃ tokens eof, l.Drains tokens eof ∧ tokens.length ≤ n ∧
      result = taken ++ (tokens ++ [eof]).toArray := by
  induction h with
  | @failed _ l _ _ _ hn =>
      have hd (tokens eof) : ¬ l.Drains tokens eof := not_drains_of_error hn
      simp [hd]
  | @finished _ l _ _ last hn ht =>
      have hd (tokens eof) : l.Drains tokens eof ↔ tokens = [] ∧ eof = last := drains_eof_iff hn ht
      simp [hd, eq_comm]
  | @limit _ l l' token _ hn ht _ =>
      have hd (tokens eof) : l.Drains tokens eof ↔
          ∃ rest, tokens = token :: rest ∧ l'.Drains rest eof := drains_ok_iff hn ht
      simp [hd]
  | @more _ l l' _ token _ hn ht _ ih =>
      rw [ih]
      constructor
      · rintro ⟨rest, eof, hd, hlen, rfl⟩
        exact ⟨token :: rest, eof, .more hn ht hd, by simpa using hlen, by simp⟩
      · rintro ⟨tokens, eof, hd, hlen, rfl⟩
        obtain ⟨rest, rfl, hrest⟩ := (drains_ok_iff hn ht).mp hd
        exact ⟨rest, eof, hrest, by simpa using hlen, by simp⟩

/-- **Collecting all tokens is draining**, when they are not too many. -/
theorem collect_eq_ok_iff {result : Array LocatedToken} :
    l.collect.1 = .ok result ↔
      ∃ tokens eof, l.Drains tokens eof ∧ tokens.length ≤ Limits.tokenCount ∧
        result = (tokens ++ [eof]).toArray := by
  rw [collect, (collects_collectFrom _ _ _).eq_ok_iff]
  simp

end Blade.Lexer
