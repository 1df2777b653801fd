import Blade.Proofs.Calls

/-!
# Proofs — Deliveries

What a lexer hands out under any sequence of calls.

* `Preserved`: what is to be shown of a step, so that all tokens and errors that are handed out have
  a property.
* `Preserved.replies`: then they have it, under any sequence of calls.
* `EndLast.replies`: the end of input is handed out after all other tokens.
-/

namespace Blade

/-- The tokens that a reply hands out. -/
def Reply.delivered : Reply → List LocatedToken
  | .token t => [t]
  | .tokens ts => ts.toList
  | .failed _ => []

/-- The error that a reply is. -/
def Reply.error? : Reply → Option LexError
  | .failed e => some e
  | _ => none

/-- No other token comes after the end of input. -/
def EofLast (tokens : List LocatedToken) : Prop :=
  tokens.Pairwise fun t t' => t.value = .eof → t'.value = .eof

namespace Lexer

variable {I : Lexer → Prop} {Q : LocatedToken → Prop} {E : LexError → Prop} {l l' m : Lexer}

/-! ### Properties of all tokens and errors -/

/-- `I` holds of a lexer as long as it has not failed.  By `I`, the tokens that a step queues and the
end of input satisfy `Q`, and the error that a step fails with satisfies `E`. -/
structure Preserved [Limits] (I : Lexer → Prop) (Q : LocatedToken → Prop) (E : LexError → Prop) :
    Prop where
  pop : ∀ {l : Lexer} (queue : List LocatedToken), I l → I { l with queue }
  look : ∀ {l : Lexer} (peeked : Option LocatedToken), I l → I { l with peeked }
  step : ∀ {l : Lexer}, I l → l.Idle → l.step.error = none → I l.step
  queued : ∀ {l : Lexer}, I l → l.Idle → ∀ t ∈ l.step.queue, Q t
  failed : ∀ {l : Lexer} {e : LexError}, I l → l.Idle → l.step.error = some e → E e
  finished : ∀ {l : Lexer} {stop : Position}, I l → l.finished = some stop → Q (eofToken stop)
  limit : ∀ {t : LocatedToken} (count : Nat) (source : String), Q t →
    E ⟨.tooManyTokens count Limits.tokenCount, t.span, source⟩

/-- `I` holds of the lexer unless it has failed; what it holds satisfies `Q` and `E`. -/
structure Keeps (I : Lexer → Prop) (Q : LocatedToken → Prop) (E : LexError → Prop) (l : Lexer) :
    Prop where
  invariant : l.error = none → I l
  queue : ∀ t ∈ l.queue, Q t
  peeked : ∀ t ∈ l.peeked, Q t
  error : ∀ e ∈ l.error, E e

/-- A lexer over a source holds nothing yet. -/
theorem keeps_ofSource {source : String} {p : Preferences} (h : I (ofSource source p)) :
    Keeps I Q E (ofSource source p) :=
  ⟨fun _ => h, List.forall_mem_nil _, by simp [ofSource], by simp [ofSource]⟩

/-- A token satisfies `Q`, an error `E`. -/
def Fair (Q : LocatedToken → Prop) (E : LexError → Prop) : Except LexError LocatedToken → Prop
  | .ok t => Q t
  | .error e => E e

theorem Fair.ofToken {reply : Except LexError LocatedToken} (h : Fair Q E reply) :
    (∀ t ∈ (Reply.ofToken reply).delivered, Q t) ∧ ∀ e ∈ (Reply.ofToken reply).error?, E e := by
  cases reply with
  | ok t => exact ⟨List.forall_mem_singleton.mpr h, by simp [Reply.ofToken, Reply.error?]⟩
  | error e =>
      refine ⟨by simp [Reply.ofToken, Reply.delivered], ?_⟩
      rintro _ ⟨⟩
      exact h

section
variable [Limits]

namespace Preserved

variable (hI : Preserved I Q E)
include hI

theorem keeps_step (h : Keeps I Q E l) (hidle : l.Idle) : Keeps I Q E l.step where
  invariant := hI.step (h.invariant hidle.error) hidle
  queue := hI.queued (h.invariant hidle.error) hidle
  peeked := (peeked_step l).symm ▸ h.peeked
  error _ he := hI.failed (h.invariant hidle.error) hidle he

theorem keeps_advance (h : Keeps I Q E l) (ha : Advance l m) : Keeps I Q E m := by
  induction ha with
  | refl => exact h
  | step hidle _ _ ih => exact ih (hI.keeps_step h hidle)

theorem gives {reply : Except LexError LocatedToken} (h : Keeps I Q E l) (hg : Gives l reply l') :
    Fair Q E reply ∧ Keeps I Q E l' := by
  cases hg with
  | @queued token queue hq =>
      have hall := h.queue
      rw [hq, List.forall_mem_cons] at hall
      exact ⟨hall.1, fun he => hI.pop queue (h.invariant he), hall.2, h.peeked, h.error⟩
  | failed _ he => exact ⟨h.error _ he, h⟩
  | finished _ he hf => exact ⟨hI.finished (h.invariant he) hf, h⟩
  | fails hidle he =>
      exact ⟨hI.failed (h.invariant hidle.error) hidle he, hI.keeps_step h hidle⟩

theorem produce (h : Keeps I Q E l) : Fair Q E l.produce.1 ∧ Keeps I Q E l.produce.2 := by
  obtain ⟨m, ha, hg⟩ := produce_cases l
  exact hI.gives (hI.keeps_advance h ha) hg

theorem next (h : Keeps I Q E l) : Fair Q E l.next.1 ∧ Keeps I Q E l.next.2 := by
  cases hp : l.peeked with
  | some token =>
      rw [next_of_peeked hp]
      exact ⟨h.peeked token hp, fun he => hI.look none (h.invariant he), h.queue, by simp, h.error⟩
  | none =>
      rw [next_of_not_peeked hp]
      exact hI.produce h

theorem peek (h : Keeps I Q E l) : Fair Q E l.peek.1 ∧ Keeps I Q E l.peek.2 := by
  have hproduce := hI.produce h
  unfold Lexer.peek
  split
  · next token hp => exact ⟨h.peeked token hp, h⟩
  · split
    · next token l' hprod =>
        rw [hprod] at hproduce
        obtain ⟨hfair, hkeeps⟩ := hproduce
        refine ⟨hfair, fun he => hI.look _ (hkeeps.invariant he), hkeeps.queue, ?_, hkeeps.error⟩
        rintro t ⟨⟩
        exact hfair
    · next hprod => rwa [hprod] at hproduce

theorem collects {taken : Array LocatedToken} {n : Nat}
    {r : Except LexError (Array LocatedToken) × Lexer} (hc : Collects taken l n r)
    (h : Keeps I Q E l) (ht : ∀ t ∈ taken.toList, Q t) :
    (∀ t ∈ (Reply.ofTokens r.1).delivered, Q t) ∧ (∀ e ∈ (Reply.ofTokens r.1).error?, E e) ∧
      Keeps I Q E r.2 := by
  induction hc with
  | @failed _ l l' _ e hn =>
      have hnext := hI.next h
      rw [hn] at hnext
      refine ⟨by simp [Reply.ofTokens, Reply.delivered], ?_, hnext.2⟩
      rintro _ ⟨⟩
      exact hnext.1
  | @finished taken l l' _ eof hn _ =>
      have hnext := hI.next h
      rw [hn] at hnext
      refine ⟨?_, by simp [Reply.ofTokens, Reply.error?], hnext.2⟩
      rw [Reply.ofTokens, Reply.delivered, Array.toList_push]
      exact List.forall_mem_append.mpr ⟨ht, List.forall_mem_singleton.mpr hnext.1⟩
  | @limit taken l l' token e hn _ he =>
      have hnext := hI.next h
      rw [hn] at hnext
      obtain ⟨hfair, hkeeps⟩ := hnext
      have hlimit : E e := he ▸ hI.limit _ _ hfair
      refine ⟨by simp [Reply.ofTokens, Reply.delivered], ?_, nofun, hkeeps.queue, hkeeps.peeked, ?_⟩
      · rintro _ ⟨⟩
        exact hlimit
      · rintro _ ⟨⟩
        exact hlimit
  | @more taken l l' _ token r hn _ _ ih =>
      have hnext := hI.next h
      rw [hn] at hnext
      refine ih hnext.2 ?_
      rw [Array.toList_push]
      exact List.forall_mem_append.mpr ⟨ht, List.forall_mem_singleton.mpr hnext.1⟩

theorem call (h : Keeps I Q E l) (c : Call) :
    (∀ t ∈ (l.call c).1.delivered, Q t) ∧ (∀ e ∈ (l.call c).1.error?, E e) ∧
      Keeps I Q E (l.call c).2 := by
  cases c with
  | peek =>
      obtain ⟨hfair, hkeeps⟩ := hI.peek h
      exact ⟨hfair.ofToken.1, hfair.ofToken.2, hkeeps⟩
  | next =>
      obtain ⟨hfair, hkeeps⟩ := hI.next h
      exact ⟨hfair.ofToken.1, hfair.ofToken.2, hkeeps⟩
  | collect => exact hI.collects (collects_collectFrom _ _ _) h (by simp)

/-- **All tokens that are handed out satisfy `Q`, and all errors `E`.** -/
theorem replies (h : Keeps I Q E l) (calls : List Call) :
    ∀ r ∈ l.replies calls, (∀ t ∈ r.delivered, Q t) ∧ ∀ e ∈ r.error?, E e := by
  induction calls generalizing l with
  | nil => exact List.forall_mem_nil _
  | cons c calls ih =>
      obtain ⟨htokens, herror, hkeeps⟩ := hI.call h c
      exact List.forall_mem_cons.mpr ⟨⟨htokens, herror⟩, ih hkeeps⟩

theorem keeps_after (h : Keeps I Q E l) (calls : List Call) : Keeps I Q E (l.after calls) := by
  induction calls generalizing l with
  | nil => exact h
  | cons c calls ih => exact ih (hI.call h c).2.2

end Preserved

/-! ### The end of input comes last -/

/-- The input has ended and all other tokens are taken. -/
structure AtEnd (l : Lexer) : Prop where
  queue : l.queue = []
  error : l.error = none
  finished : ∃ stop, l.finished = some stop
  peeked : ∀ t ∈ l.peeked, t.value = .eof

/-- Such a lexer hands out the end of input and stays as it is. -/
theorem AtEnd.next (h : l.AtEnd) :
    ∃ eof l', l.next = (.ok eof, l') ∧ eof.value = .eof ∧ l'.AtEnd ∧ l'.peeked = none := by
  cases hp : l.peeked with
  | some token =>
      exact ⟨token, _, next_of_peeked hp, h.peeked token hp,
        ⟨h.queue, h.error, h.finished, by simp⟩, rfl⟩
  | none =>
      obtain ⟨stop, hf⟩ := h.finished
      refine ⟨eofToken stop, l, ?_, rfl, h, hp⟩
      rw [next_of_not_peeked hp, produce_finished h.queue h.error hf]

theorem AtEnd.peek (h : l.AtEnd) :
    ∃ eof l', l.peek = (.ok eof, l') ∧ eof.value = .eof ∧ l'.AtEnd := by
  cases hp : l.peeked with
  | some token => exact ⟨token, l, by simp only [Lexer.peek, hp], h.peeked token hp, h⟩
  | none =>
      obtain ⟨stop, hf⟩ := h.finished
      refine ⟨eofToken stop, { l with peeked := some (eofToken stop) }, ?_, rfl, h.queue, h.error,
        h.finished, ?_⟩
      · simp only [Lexer.peek, hp, produce_finished h.queue h.error hf]
      · rintro t ⟨⟩
        rfl

theorem AtEnd.call (h : l.AtEnd) (c : Call) :
    (∀ t ∈ (l.call c).1.delivered, t.value = .eof) ∧ (l.call c).2.AtEnd := by
  cases c with
  | peek =>
      obtain ⟨eof, l', hpeek, heof, hend⟩ := h.peek
      rw [Lexer.call, hpeek]
      exact ⟨List.forall_mem_singleton.mpr heof, hend⟩
  | next =>
      obtain ⟨eof, l', hnext, heof, hend, -⟩ := h.next
      rw [Lexer.call, hnext]
      exact ⟨List.forall_mem_singleton.mpr heof, hend⟩
  | collect =>
      obtain ⟨eof, l', hnext, heof, hend, -⟩ := h.next
      have hcollect : l.collect = (.ok #[eof], l') := by
        rw [collect, collectFrom.eq_def, hnext]
        simp only [(isEof_eq_true_iff _).mpr heof, if_true]
        rfl
      rw [Lexer.call, hcollect]
      exact ⟨List.forall_mem_singleton.mpr heof, hend⟩

theorem AtEnd.replies (h : l.AtEnd) (calls : List Call) :
    ∀ t ∈ (l.replies calls).flatMap Reply.delivered, t.value = .eof := by
  induction calls generalizing l with
  | nil => exact List.forall_mem_nil _
  | cons c calls ih =>
      obtain ⟨heof, hend⟩ := h.call c
      rw [Lexer.replies, List.flatMap_cons]
      exact List.forall_mem_append.mpr ⟨heof, ih hend⟩

/-- Where a token that is the end of input has been looked at, nothing else is left. -/
def EndLast (l : Lexer) : Prop := l.Sound ∧ ∀ t ∈ l.peeked, t.value = .eof → l.AtEnd

theorem peeked_of_gives {reply : Except LexError LocatedToken} (hg : Gives l reply l') :
    l'.peeked = l.peeked := by
  cases hg with
  | queued => rfl
  | failed => rfl
  | finished => rfl
  | fails => exact peeked_step l

theorem peeked_produce (l : Lexer) : l.produce.2.peeked = l.peeked := by
  obtain ⟨m, ha, hg⟩ := produce_cases l
  exact (peeked_of_gives hg).trans (peeked_of_advance ha)

/-- Once the end of input is pulled, nothing else is left. -/
theorem atEnd_of_produce {t : LocatedToken} (hs : l.Sound) (hp : l.peeked = none)
    (hprod : l.produce = (.ok t, l')) (ht : t.value = .eof) : l'.AtEnd := by
  obtain ⟨m, ha, hg⟩ := produce_cases l
  rw [hprod] at hg
  cases hg with
  | queued hq => exact absurd ht ((hs.advance ha).ne_eof t (by simp [hq]))
  | finished hq he hf =>
      have hpeeked : l'.peeked = none := (peeked_of_advance ha).trans hp
      exact ⟨hq, he, ⟨_, hf⟩, by simp [hpeeked]⟩

theorem EndLast.next {reply : Except LexError LocatedToken} (h : l.EndLast)
    (hn : l.next = (reply, l')) :
    l'.EndLast ∧ l'.peeked = none ∧ ∀ t, reply = .ok t → t.value = .eof → l'.AtEnd := by
  have hsound := h.1.next
  rw [hn] at hsound
  cases hp : l.peeked with
  | some token =>
      rw [next_of_peeked hp, Prod.mk.injEq] at hn
      obtain ⟨rfl, rfl⟩ := hn
      refine ⟨⟨hsound, by simp⟩, rfl, ?_⟩
      rintro t ⟨⟩ ht
      have hend := h.2 _ hp ht
      exact ⟨hend.queue, hend.error, hend.finished, by simp⟩
  | none =>
      rw [next_of_not_peeked hp] at hn
      have hpeeked : l'.peeked = none := by
        have := peeked_produce l
        rw [hn] at this
        exact this.trans hp
      refine ⟨⟨hsound, by simp [hpeeked]⟩, hpeeked, ?_⟩
      rintro t rfl ht
      exact atEnd_of_produce h.1 hp hn ht

theorem EndLast.peek {reply : Except LexError LocatedToken} (h : l.EndLast)
    (hn : l.peek = (reply, l')) :
    l'.EndLast ∧ ∀ t, reply = .ok t → t.value = .eof → l'.AtEnd := by
  have hsound := h.1.peek
  rw [hn] at hsound
  cases hp : l.peeked with
  | some token =>
      simp only [Lexer.peek, hp, Prod.mk.injEq] at hn
      obtain ⟨rfl, rfl⟩ := hn
      refine ⟨h, ?_⟩
      rintro t ⟨⟩ ht
      exact h.2 _ hp ht
  | none =>
      have hpeeked := (peeked_produce l).trans hp
      simp only [Lexer.peek, hp] at hn
      split at hn
      · next token m hprod =>
          obtain ⟨rfl, rfl⟩ := Prod.mk.inj hn
          have hend : token.value = .eof → ({ m with peeked := some token } : Lexer).AtEnd := by
            intro ht
            have hm := atEnd_of_produce h.1 hp hprod ht
            refine ⟨hm.queue, hm.error, hm.finished, ?_⟩
            rintro t ⟨⟩
            exact ht
          refine ⟨⟨hsound, ?_⟩, ?_⟩
          · rintro t ⟨⟩
            exact hend
          · rintro t ⟨⟩
            exact hend
      · next e m hprod =>
          obtain ⟨rfl, rfl⟩ := Prod.mk.inj hn
          rw [hprod] at hpeeked
          change m.peeked = none at hpeeked
          exact ⟨⟨hsound, by simp [hpeeked]⟩, by simp⟩

theorem EndLast.collects {taken : Array LocatedToken} {n : Nat}
    {r : Except LexError (Array LocatedToken) × Lexer} (hc : Collects taken l n r)
    (h : l.EndLast) :
    r.2.EndLast ∧ ∀ ts, r.1 = .ok ts → r.2.AtEnd ∧ ∃ tokens eof,
      ts.toList = taken.toList ++ tokens ++ [eof] ∧ ∀ t ∈ tokens, t.value ≠ .eof := by
  induction hc with
  | failed hn => exact ⟨(h.next hn).1, nofun⟩
  | @finished taken l l' _ eof hn he =>
      obtain ⟨hlast, -, hend⟩ := h.next hn
      refine ⟨hlast, ?_⟩
      rintro ts ⟨⟩
      exact ⟨hend eof rfl he, [], eof, by simp, by simp⟩
  | limit hn _ _ =>
      obtain ⟨hlast, hpeeked, -⟩ := h.next hn
      refine ⟨⟨⟨hlast.1.length_le, hlast.1.ne_eof⟩, fun t ht => ?_⟩, nofun⟩
      rw [fail, hpeeked] at ht
      cases ht
  | @more taken l l' _ token r hn ht _ ih =>
      obtain ⟨hlast, hall⟩ := ih (h.next hn).1
      refine ⟨hlast, fun ts hts => ?_⟩
      obtain ⟨hend, tokens, eof, htokens, hne⟩ := hall ts hts
      refine ⟨hend, token :: tokens, eof, ?_, List.forall_mem_cons.mpr ⟨ht, hne⟩⟩
      rw [htokens]
      simp

end

theorem eofLast_ofToken {reply : Except LexError LocatedToken}
    (hend : ∀ t, reply = .ok t → t.value = .eof → l'.AtEnd) :
    EofLast (Reply.ofToken reply).delivered ∧
      ((∃ t ∈ (Reply.ofToken reply).delivered, t.value = .eof) → l'.AtEnd) := by
  cases reply with
  | error e => exact ⟨.nil, by simp [Reply.ofToken, Reply.delivered]⟩
  | ok token =>
      refine ⟨List.pairwise_singleton _ _, ?_⟩
      rintro ⟨t, hmem, ht⟩
      rw [List.mem_singleton.mp hmem] at ht
      exact hend token rfl ht

variable [Limits]

/-- A call hands out the end of input last, and then nothing else is left. -/
theorem EndLast.call (h : l.EndLast) (c : Call) :
    (l.call c).2.EndLast ∧ EofLast (l.call c).1.delivered ∧
      ((∃ t ∈ (l.call c).1.delivered, t.value = .eof) → (l.call c).2.AtEnd) := by
  cases c with
  | peek =>
      obtain ⟨hlast, hend⟩ := h.peek (Prod.eta l.peek).symm
      exact ⟨hlast, eofLast_ofToken hend⟩
  | next =>
      obtain ⟨hlast, -, hend⟩ := h.next (Prod.eta l.next).symm
      exact ⟨hlast, eofLast_ofToken hend⟩
  | collect =>
      obtain ⟨hlast, hall⟩ := h.collects (collects_collectFrom #[] l Limits.tokenCount)
      refine ⟨hlast, ?_⟩
      change EofLast (Reply.ofTokens l.collect.1).delivered ∧
        ((∃ t ∈ (Reply.ofTokens l.collect.1).delivered, t.value = .eof) → l.collect.2.AtEnd)
      cases hcollect : l.collect.1 with
      | error e => exact ⟨.nil, by simp [Reply.ofTokens, Reply.delivered]⟩
      | ok ts =>
          obtain ⟨hend, tokens, eof, hts, hne⟩ := hall ts hcollect
          refine ⟨?_, fun _ => hend⟩
          rw [Reply.ofTokens, Reply.delivered, hts, List.nil_append]
          refine List.pairwise_append.mpr ⟨?_, List.pairwise_singleton _ _, ?_⟩
          · exact List.pairwise_of_forall_mem_list fun t ht _ _ heof => absurd heof (hne t ht)
          · exact fun t ht _ _ heof => absurd heof (hne t ht)

/-- **The end of input is handed out after all other tokens.** -/
theorem EndLast.replies (h : l.EndLast) (calls : List Call) :
    EofLast ((l.replies calls).flatMap Reply.delivered) := by
  induction calls generalizing l with
  | nil => exact .nil
  | cons c calls ih =>
      obtain ⟨hlast, hcall, hend⟩ := h.call c
      rw [EofLast, Lexer.replies, List.flatMap_cons, List.pairwise_append]
      exact ⟨hcall, ih hlast, fun t ht t' ht' heof => (hend ⟨t, ht, heof⟩).replies calls t' ht'⟩

theorem AtEnd.after (h : l.AtEnd) (calls : List Call) : (l.after calls).AtEnd := by
  induction calls generalizing l with
  | nil => exact h
  | cons c calls ih => exact ih (h.call c).2

/-- Once the end of input has been handed out, nothing else is left. -/
theorem EndLast.after (h : l.EndLast) (calls : List Call)
    (hend : ∃ t ∈ (l.replies calls).flatMap Reply.delivered, t.value = .eof) :
    (l.after calls).AtEnd := by
  induction calls generalizing l with
  | nil =>
      obtain ⟨t, ht, -⟩ := hend
      cases ht
  | cons c calls ih =>
      obtain ⟨hlast, -, hcall⟩ := h.call c
      obtain ⟨t, ht, heof⟩ := hend
      rw [Lexer.replies, List.flatMap_cons] at ht
      rcases List.mem_append.mp ht with ht | ht
      · exact (hcall ⟨t, ht, heof⟩).after calls
      · exact ih hlast ⟨t, ht, heof⟩

end Lexer

end Blade
