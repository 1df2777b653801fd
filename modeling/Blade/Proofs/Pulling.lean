import Blade.Limits.Development
import Blade.Proofs.Cut
import Blade.Proofs.Deliveries
import Blade.Proofs.Failure

/-!
# Proofs — Pulling

Peeking, taking and collecting as moves of a cursor over one list of tokens.

`InFront source rest eof l` says that `rest` and then the end of input `eof` are left to take from
`l`.  Each call is one move from there: a look moves nothing, taking a token moves past it, and
collecting moves past all of them, if they are not too many (`cursorReplies`).

* `InFront.replies`: under any sequence of calls, a lexer replies as the cursor does.
* `replies_along_cursor`: so does a lexer over a source that drains, and at any time a look shows
  what would be taken next and changes no later reply.
* `not_next_of_drained`: too many tokens for one call to collect are not left to take either.
-/

namespace Blade

/-- The replies of a cursor in front of `rest` and then `eof`.  Collecting more tokens than the
limit fails; `leaves` says whether the first token behind the limit can then still be taken. -/
def cursorReplies [Limits] (source : String) (eof : LocatedToken) (leaves : Bool) :
    List LocatedToken → List Call → List Reply
  | _, [] => []
  | rest, .peek :: calls => .token (rest.headD eof) :: cursorReplies source eof leaves rest calls
  | rest, .next :: calls =>
      .token (rest.headD eof) :: cursorReplies source eof leaves rest.tail calls
  | rest, .collect :: calls =>
      match rest[Limits.tokenCount]? with
      | none => .tokens (rest ++ [eof]).toArray :: cursorReplies source eof leaves [] calls
      | some token =>
          let e := ⟨.tooManyTokens (Limits.tokenCount + 1) Limits.tokenCount, token.span, source⟩
          .failed e :: repliesAfter e (if leaves then rest[Limits.tokenCount + 1]? else none) calls

namespace Lexer

variable {source : String} {p : Preferences} {l l' m : Lexer} {token eof : LocatedToken}
  {rest tokens : List LocatedToken}

/-! ### Calls that reply the same -/

section
variable [Limits]

/-- What a call does depends only on what is taken next and what a look shows. -/
theorem call_congr (hn : l.next = m.next) (hp : l.peek = m.peek) (c : Call) :
    l.call c = m.call c := by
  have hcollect : l.collect = m.collect := by
    rw [collect, collect, collectFrom.eq_def, collectFrom.eq_def, hn]
  cases c with
  | peek => rw [call, call, hp]
  | next => rw [call, call, hn]
  | collect => rw [call, call, hcollect]

theorem replies_congr (hn : l.next = m.next) (hp : l.peek = m.peek) (calls : List Call) :
    l.replies calls = m.replies calls := by
  cases calls with
  | nil => rfl
  | cons c calls => rw [replies, replies, call_congr hn hp]

/-! ### One call -/

/-- `l` has not been looked at, and `rest` and then `eof` are left to take from it. -/
structure InFront (source : String) (rest : List LocatedToken) (eof : LocatedToken) (l : Lexer) :
    Prop where
  sound : l.Sound
  source : l.source = source
  peeked : l.peeked = none
  drains : l.Drains rest eof

theorem source_advance (ha : Advance l l') : l'.source = l.source := by
  induction ha with
  | refl => rfl
  | @step l _ _ _ _ ih => exact ih.trans (source_step l)

theorem source_gives {reply : Except LexError LocatedToken} (hg : Gives l reply l') :
    l'.source = l.source := by
  cases hg with
  | queued => rfl
  | failed => rfl
  | finished => rfl
  | fails => exact source_step l

/-- A token that is taken leaves at most one other in the queue. -/
theorem length_queue_le_of_gives (hs : l.Sound) (hg : Gives l (.ok token) l') :
    l'.queue.length ≤ 1 := by
  cases hg with
  | queued hq =>
      have hlen := hs.length_le
      rw [hq, List.length_cons] at hlen
      exact Nat.le_of_succ_le_succ hlen
  | finished hq =>
      rw [hq]
      exact Nat.zero_le 1

/-- **Taking a token moves past it**; the end of input stays where it is. -/
theorem InFront.next (h : InFront source rest eof l) :
    ∃ l', l.next = (.ok (rest.headD eof), l') ∧ InFront source rest.tail eof l' ∧
      l'.queue.length ≤ 1 := by
  obtain ⟨m, ha, hg⟩ := produce_cases l
  have hm := h.sound.advance ha
  have hsource := (source_advance ha).trans h.source
  have hpeeked := (peeked_of_advance ha).trans h.peeked
  cases h.drains with
  | @done _ l' _ hn he =>
      rw [next_of_not_peeked h.peeked] at hn
      rw [hn] at hg
      cases hg with
      | queued hq => exact absurd he (hm.ne_eof eof (by simp [hq]))
      | @finished stop hq herror hf =>
          -- the lexer has noticed the end of input, and stays there
          have hstays : l'.next = (.ok (eofToken stop), l') := by
            rw [next_of_not_peeked hpeeked, produce_finished hq herror hf]
          refine ⟨l', (next_of_not_peeked h.peeked).trans hn, ?_, ?_⟩
          · exact ⟨hm, hsource, hpeeked, .done hstays he⟩
          · rw [hq]
            exact Nat.zero_le 1
  | @more _ l' _ _ _ hn _ hd =>
      have hn' := (next_of_not_peeked h.peeked).symm.trans hn
      rw [hn'] at hg
      exact ⟨l', hn, ⟨hm.gives hg, (source_gives hg).trans hsource,
        (peeked_of_gives hg).trans hpeeked, hd⟩, length_queue_le_of_gives hm hg⟩

/-- **A look moves nothing.** -/
theorem InFront.peek (h : InFront source rest eof l) :
    l.peek.1 = .ok (rest.headD eof) ∧ l.peek.2.next = l.next ∧ l.peek.2.peek = l.peek := by
  obtain ⟨l', hn, hl', -⟩ := h.next
  have hproduce := (next_of_not_peeked h.peeked).symm.trans hn
  have hpeek : l.peek = (.ok (rest.headD eof), { l' with peeked := some (rest.headD eof) }) := by
    simp only [Lexer.peek, h.peeked, hproduce]
  have hl : { l' with peeked := none } = l' := by rw [← hl'.peeked]
  rw [hpeek, hn, next_of_peeked rfl]
  refine ⟨rfl, ?_, rfl⟩
  rw [hl]

theorem InFront.isEof_eq_false (h : InFront source (token :: rest) eof l) :
    token.value.isEof = false := by
  cases h.drains with
  | more _ hne _ => exact Bool.eq_false_iff.mpr (mt (isEof_eq_true_iff _).mp hne)

/-- Collecting what is not too much moves past it. -/
theorem InFront.collectFrom_of_le (h : InFront source rest eof l) {n : Nat} (hn : rest.length ≤ n)
    (taken : Array LocatedToken) :
    ∃ l', l.collectFrom taken n = (.ok (taken ++ (rest ++ [eof]).toArray), l') ∧
      InFront source [] eof l' := by
  induction rest generalizing l n taken with
  | nil =>
      obtain ⟨l', hnext, hl', -⟩ := h.next
      have heof := (isEof_eq_true_iff _).mpr h.drains.eof_value
      refine ⟨l', ?_, hl'⟩
      rw [collectFrom.eq_def, hnext]
      simp [heof]
  | cons token rest ih =>
      obtain ⟨l', hnext, hl', -⟩ := h.next
      obtain ⟨n, rfl⟩ : ∃ m, n = m + 1 := ⟨n - 1, by rw [List.length_cons] at hn; omega⟩
      obtain ⟨last, hlast, hend⟩ := ih hl' (Nat.le_of_succ_le_succ hn) (taken.push token)
      refine ⟨last, ?_, hend⟩
      rw [collectFrom, hnext]
      simp only [List.headD_cons, h.isEof_eq_false, Bool.false_eq_true, if_false, hlast]
      simp

/-- A token that is left in the queue is the next one. -/
theorem InFront.queue_eq (h : InFront source rest eof l) (hq : l.queue.length ≤ 1) :
    l.queue = [] ∨ l.queue = rest.head?.toList := by
  match hqueue : l.queue with
  | [] => exact .inl rfl
  | [token] =>
      obtain ⟨l', hnext, hl', -⟩ := h.next
      rw [next_of_not_peeked h.peeked, produce_queue hqueue] at hnext
      have hne := h.sound.ne_eof token (by simp [hqueue])
      cases rest with
      | nil =>
          rw [List.headD_nil, Prod.mk.injEq, Except.ok.injEq] at hnext
          rw [hnext.1] at hne
          exact absurd h.drains.eof_value hne
      | cons t rest =>
          rw [List.headD_cons, Prod.mk.injEq, Except.ok.injEq] at hnext
          rw [hnext.1]
          exact .inr rfl
  | _ :: _ :: _ => simp [hqueue] at hq

/-- Collecting too much fails at the first token behind the allowance. -/
theorem InFront.collectFrom_of_lt (h : InFront source rest eof l) {n : Nat}
    (hn : rest[n]? = some token) (taken : Array LocatedToken) :
    ∃ l' held e, l.collectFrom taken n = (.error e, l') ∧ Stuck e held l' ∧
      e = ⟨.tooManyTokens (taken.size + n + 1) Limits.tokenCount, token.span, source⟩ ∧
      (held = none ∨ held = rest[n + 1]?) := by
  induction n generalizing rest l taken with
  | zero =>
      obtain ⟨l', hnext, hl', hqueue⟩ := h.next
      obtain ⟨rest, rfl⟩ : ∃ rest', rest = token :: rest' := by
        rw [← List.head?_eq_getElem?] at hn
        exact List.head?_eq_some_iff.mp hn
      rw [collectFrom, hnext]
      simp only [List.headD_cons, h.isEof_eq_false, Bool.false_eq_true, if_false, hl'.source]
      have hstuck : ∀ held : Option LocatedToken, l'.queue = held.toList →
          ∀ e, Stuck e held (l'.fail e) := by
        intro held hheld e
        refine ⟨error_fail .., ?_, fun t ht => hl'.sound.ne_eof t ?_⟩
        · rw [fail, hl'.peeked]
          exact hheld
        · rw [hheld]
          simpa using ht
      rcases hl'.queue_eq hqueue with hq | hq
      · exact ⟨_, none, _, rfl, hstuck none hq _, rfl, .inl rfl⟩
      · exact ⟨_, _, _, rfl, hstuck _ hq _, rfl, .inr (by simp [List.head?_eq_getElem?])⟩
  | succ n ih =>
      obtain ⟨l', hnext, hl', -⟩ := h.next
      obtain ⟨first, rest, rfl⟩ : ∃ first rest', rest = first :: rest' := by
        refine List.exists_cons_of_ne_nil ?_
        rintro rfl
        cases hn
      obtain ⟨last, held, e, hlast, hstuck, he, hheld⟩ := ih hl' hn (taken.push first)
      refine ⟨last, held, e, ?_, hstuck, ?_, hheld⟩
      · rw [collectFrom, hnext]
        simp only [List.headD_cons, h.isEof_eq_false, Bool.false_eq_true, if_false, hlast]
      · rw [he, Array.size_push, Nat.add_right_comm taken.size, Nat.add_assoc taken.size]

/-! ### All calls -/

/-- **A lexer replies as a cursor does** that stands in front of the same tokens. -/
theorem InFront.replies (h : InFront source rest eof l) (calls : List Call) :
    ∃ leaves, l.replies calls = cursorReplies source eof leaves rest calls := by
  induction calls generalizing rest l with
  | nil => exact ⟨false, by cases rest <;> rfl⟩
  | cons c calls ih =>
      cases c with
      | peek =>
          obtain ⟨hshown, hnext, hpeek⟩ := h.peek
          obtain ⟨leaves, hreplies⟩ := ih h
          refine ⟨leaves, ?_⟩
          rw [Lexer.replies, call, hshown, replies_congr hnext hpeek, hreplies, cursorReplies]
          rfl
      | next =>
          obtain ⟨l', hnext, hl', -⟩ := h.next
          obtain ⟨leaves, hreplies⟩ := ih hl'
          refine ⟨leaves, ?_⟩
          rw [Lexer.replies, call, hnext, hreplies, cursorReplies]
          rfl
      | collect =>
          simp only [cursorReplies]
          cases hlimit : rest[Limits.tokenCount]? with
          | none =>
              have hle := List.getElem?_eq_none_iff.mp hlimit
              obtain ⟨l', hcollect, hl'⟩ := h.collectFrom_of_le hle #[]
              obtain ⟨leaves, hreplies⟩ := ih hl'
              refine ⟨leaves, ?_⟩
              rw [Lexer.replies, call, collect, hcollect, hreplies, Array.empty_append]
              rfl
          | some token =>
              obtain ⟨l', held, e, hcollect, hstuck, he, hheld⟩ := h.collectFrom_of_lt hlimit #[]
              rw [Array.size_empty, Nat.zero_add] at he
              have hreplies : l.replies (.collect :: calls) =
                  .failed e :: repliesAfter e held calls := by
                rw [Lexer.replies, call, collect, hcollect, replies_of_stuck hstuck]
                rfl
              rw [hreplies, he]
              rcases hheld with rfl | rfl
              · exact ⟨false, rfl⟩
              · exact ⟨true, rfl⟩

/-- `l` is in front of some tokens, or has been looked at there, or has failed. -/
inductive Steady (l : Lexer) : Prop where
  | inFront {source : String} {rest : List LocatedToken} {eof : LocatedToken} {m : Lexer} :
      InFront source rest eof m → l.next = m.next → l.peek = m.peek → Steady l
  | stuck {e : LexError} {held : Option LocatedToken} : Stuck e held l → Steady l

theorem InFront.steady (h : InFront source rest eof l) : l.Steady := .inFront h rfl rfl

/-- Every call keeps it so. -/
theorem Steady.call (h : l.Steady) (c : Call) : (l.call c).2.Steady := by
  cases h with
  | stuck hstuck =>
      obtain ⟨_, l', _, hcall, hl', -⟩ := exists_call_of_stuck hstuck c
      rw [hcall]
      exact .stuck hl'
  | @inFront source rest eof m hm hn hp =>
      rw [call_congr hn hp]
      cases c with
      | peek =>
          obtain ⟨-, hnext, hpeek⟩ := hm.peek
          exact .inFront hm hnext hpeek
      | next =>
          obtain ⟨l', hnext, hl', -⟩ := hm.next
          rw [Lexer.call, hnext]
          exact hl'.steady
      | collect =>
          rw [Lexer.call, collect]
          cases hlimit : rest[Limits.tokenCount]? with
          | none =>
              obtain ⟨l', hcollect, hl'⟩ :=
                hm.collectFrom_of_le (List.getElem?_eq_none_iff.mp hlimit) #[]
              rw [hcollect]
              exact hl'.steady
          | some token =>
              obtain ⟨l', _, _, hcollect, hstuck, -⟩ := hm.collectFrom_of_lt hlimit #[]
              rw [hcollect]
              exact .stuck hstuck

theorem Steady.after (h : l.Steady) (calls : List Call) : (l.after calls).Steady := by
  induction calls generalizing l with
  | nil => exact h
  | cons c calls ih => exact ih (h.call c)

/-- **A look shows what would be taken next**, and later calls reply as without it. -/
theorem Steady.peek (h : l.Steady) :
    l.peek.1 = l.next.1 ∧ ∀ calls, l.peek.2.replies calls = l.replies calls := by
  cases h with
  | @stuck e held hstuck =>
      cases held with
      | none =>
          rw [peek_of_stuck_none hstuck, next_of_stuck_none hstuck]
          exact ⟨rfl, fun _ => rfl⟩
      | some token =>
          obtain ⟨l', hpeek, hl'⟩ := peek_of_stuck_some hstuck
          obtain ⟨_, hnext, -⟩ := next_of_stuck_some hstuck
          rw [hpeek, hnext]
          refine ⟨rfl, fun calls => ?_⟩
          rw [replies_of_stuck hl', replies_of_stuck hstuck]
  | @inFront source rest eof m hm hn hp =>
      obtain ⟨hshown, hnext, hpeek⟩ := hm.peek
      obtain ⟨l', htaken, -⟩ := hm.next
      rw [hp, hn]
      refine ⟨by rw [hshown, htaken], fun calls => ?_⟩
      rw [replies_congr hnext hpeek, replies_congr hn hp]

/-! ### A source -/

theorem inFront_ofSource (hd : (ofSource source p).Drains tokens eof) :
    InFront source tokens eof (ofSource source p) :=
  ⟨reached_sound .start, rfl, rfl, hd⟩

/-- As many directives as said, one behind the other. -/
def directives (n : Nat) : String := String.ofList (List.replicate n ['@', 'a']).flatten

theorem exists_lexes_directives (n : Nat) :
    ∃ cuts, Lexes {} {} (List.replicate n ['@', 'a']).flatten cuts [] ∧ cuts.length = n := by
  induction n with
  | zero => exact ⟨_, .done (.inl rfl), rfl⟩
  | succ n ih =>
      obtain ⟨cuts, hlex, hlen⟩ := ih
      rw [List.replicate_succ, List.flatten_cons]
      have hafter : StopsAt Text.isAsciiLetter (List.replicate n ['@', 'a']).flatten ∧
          ¬ OpensList Text.isBlank (List.replicate n ['@', 'a']).flatten := by
        cases n with
        | zero => exact ⟨stopsAt_nil _, by simp [OpensList]⟩
        | succ n =>
            exact ⟨(stopsAt_cons _ _ _).mpr (by decide),
              not_opensList_cons (by decide) (by decide) _⟩
      generalize (List.replicate n ['@', 'a']).flatten = after at hlex hafter ⊢
      have hname : NameBefore ['a'] ([] ++ after) :=
        ⟨by simp, by simp [Text.isAsciiLetter], hafter.1⟩
      have hpiece : Piece {} none ('@' :: (['a'] ++ [])) after (.token (.function "a" none) none) :=
        .function hname (by decide) (.absent hafter.2)
      exact ⟨_, .more (h := {}) hpiece hlex, by rw [← hlen]; rfl⟩

theorem exists_drains_directives (n : Nat) :
    ∃ tokens eof, (ofSource (directives n) {}).Drains tokens eof ∧ tokens.length = n := by
  obtain ⟨cuts, hlex, hlen⟩ := exists_lexes_directives n
  rw [← String.toList_ofList (l := (List.replicate n ['@', 'a']).flatten)] at hlex
  refine ⟨_, _, drains_ofSource_iff.mpr ⟨cuts, [], hlex, rfl, rfl⟩, ?_⟩
  rw [length_place, hlen]

/-- Where collecting has failed at the last token, the next pull fails too. -/
theorem next_after_collect (hd : (ofSource source p).Drains tokens eof)
    (hlen : tokens.length = Limits.tokenCount + 1) :
    ∃ e, ((ofSource source p).after [.collect]).next.1 = .error e := by
  have hlimit : Limits.tokenCount < tokens.length := by rw [hlen]; exact Nat.lt_succ_self _
  have hnone : tokens[Limits.tokenCount + 1]? = none := List.getElem?_eq_none (Nat.le_of_eq hlen)
  obtain ⟨l', held, e, hcollect, hstuck, -, hheld⟩ :=
    (inFront_ofSource hd).collectFrom_of_lt (List.getElem?_eq_getElem hlimit) #[]
  have hafter : (ofSource source p).after [.collect] = l' := by
    rw [after, List.foldl_cons, List.foldl_nil, call, collect, hcollect]
  have hempty : held = none := hheld.elim id (·.trans hnone)
  subst hempty
  rw [hafter, next_of_stuck_none hstuck]
  exact ⟨e, rfl⟩

/-- **Pulling moves a cursor along the tokens of the source.**  Where a source drains to `tokens`
and then `eof`, any sequence of calls is replied to as by a cursor in front of them; and at any time
a look shows what would be taken next, and later calls reply as without it. -/
theorem replies_along_cursor (hd : (ofSource source p).Drains tokens eof) :
    (∀ calls, ∃ leaves,
      (ofSource source p).replies calls = cursorReplies source eof leaves tokens calls) ∧
    ∀ before,
      ((ofSource source p).after before).peek.1 = ((ofSource source p).after before).next.1 ∧
      ∀ later, ((ofSource source p).after before).peek.2.replies later =
        ((ofSource source p).after before).replies later :=
  ⟨(inFront_ofSource hd).replies, fun before => ((inFront_ofSource hd).steady.after before).peek⟩

end

/-- A cursor along two directives. -/
theorem replies_along_two_directives :
    ∃ tokens eof, (ofSource (directives 2) {}).Drains tokens eof ∧ tokens.length = 2 ∧
      (∀ calls, ∃ leaves, (ofSource (directives 2) {}).replies calls =
        cursorReplies (directives 2) eof leaves tokens calls) ∧
      ∀ before, ((ofSource (directives 2) {}).after before).peek.1 =
          ((ofSource (directives 2) {}).after before).next.1 ∧
        ∀ later, ((ofSource (directives 2) {}).after before).peek.2.replies later =
          ((ofSource (directives 2) {}).after before).replies later := by
  obtain ⟨tokens, eof, hd, hlen⟩ := exists_drains_directives 2
  exact ⟨tokens, eof, hd, hlen, replies_along_cursor hd⟩

/-- **What is taken next is not always a token of the source**: with one directive more than the
limit, collecting fails, and so does every call after it. -/
theorem not_next_of_drained :
    ¬ ∀ (source : String) (p : Preferences) (tokens : List LocatedToken) (eof : LocatedToken),
      (ofSource source p).Drains tokens eof →
        ∀ before, ∃ t ∈ tokens ++ [eof], ((ofSource source p).after before).next.1 = .ok t := by
  intro hall
  obtain ⟨tokens, eof, hd, hlen⟩ := exists_drains_directives (Limits.tokenCount + 1)
  obtain ⟨t, -, hnext⟩ := hall _ _ _ _ hd [.collect]
  obtain ⟨e, herror⟩ := next_after_collect hd hlen
  rw [herror] at hnext
  cases hnext

end Lexer

end Blade
