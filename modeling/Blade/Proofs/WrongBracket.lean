import Blade.Limits.Development
import Blade.Proofs.ArgumentGrammar
import Blade.Proofs.Spans

/-!
# Proofs — WrongBracket

Where an argument list fails: at the first character that no list has there.

Up to that character the input is the start of a list, with some brackets open and no string
(`OpenText`).  The character is a closing bracket other than the one that is waited for, or an
opening one for which there is no room left (`WrongBracket`).  Inside a string nothing is wrong.

* `ArgumentScan.feed_eq_failed_iff`: what a scan refuses.
* `OpenText.reads`, `OpenText.unique`: a text is read as the brackets open in it say, and it says
  which ones these are.
* `ArgumentScan.run_stack`: the scan does what a machine does that keeps the `)` of the list at the
  bottom of its stack of brackets (`BracketStack`), whatever that machine expects once the stack is
  empty.
* `Cursor.arguments_fail_at_bracket`: a list that fails does so at a wrong bracket, which is the
  first character that tells it from a list; the stack is never empty.
-/

namespace Blade

/-- Where the brackets that `pending` closes are open, and that of the list, `c` cannot stand. -/
inductive WrongBracket [Limits] (pending : List Char) (c : Char) : Fault → Prop where
  /-- The innermost open bracket is closed by another character. -/
  | mismatch {expected : Char} :
      isCloser c = true → (pending ++ [')']).head? = some expected → c ≠ expected →
        WrongBracket pending c (.bracketMismatch expected c)
  /-- One more bracket is opened where as many as possible are open. -/
  | tooDeep {closer : Char} :
      closer? c = some closer → pending.length + 1 = Limits.bracketDepth →
        WrongBracket pending c (.nestingTooDeep (Limits.bracketDepth + 1) Limits.bracketDepth)

/-! ### What a scan refuses -/

namespace ArgumentScan

variable {s : ArgumentScan} {c : Char} {fault : Fault}

theorem of_isCloser (h : isCloser c = true) : isQuote c = false ∧ closer? c = none := by
  rcases isCloser_iff.mp h with rfl | rfl | rfl <;> exact ⟨rfl, rfl⟩

theorem closeBracket_eq_failed_iff : s.closeBracket c = .failed fault ↔
    ∃ expected, (s.pending ++ [')']).head? = some expected ∧ c ≠ expected ∧
      fault = .bracketMismatch expected c := by
  obtain ⟨args, current, pending, maxDepth, string⟩ := s
  cases pending with
  | nil => by_cases hc : c = ')' <;> simp [closeBracket, hc, eq_comm]
  | cons expected pending => by_cases hc : c = expected <;> simp [closeBracket, hc, eq_comm]

variable [Limits]

theorem openBracket_eq_failed_iff {closer : Char} : s.openBracket c closer = .failed fault ↔
    Limits.bracketDepth ≤ s.depth ∧ fault = .nestingTooDeep (s.depth + 1) Limits.bracketDepth := by
  unfold openBracket
  dsimp only
  by_cases hroom : Limits.bracketDepth < s.depth + 1
  · rw [if_pos hroom, Outcome.failed.injEq, eq_comm]
    exact (and_iff_right (Nat.le_of_lt_succ hroom)).symm
  · rw [if_neg hroom]
    exact iff_of_false nofun fun h => hroom (Nat.lt_succ_of_le h.1)

/-- **A scan refuses a wrong bracket outside all strings**, and nothing else. -/
theorem feed_eq_failed_iff (hle : s.depth ≤ Limits.bracketDepth) :
    s.feed c = .failed fault ↔ s.string = none ∧ WrongBracket s.pending c fault := by
  constructor
  · intro h
    unfold feed at h
    split at h
    · cases h
    · next hs =>
        refine ⟨hs, ?_⟩
        split at h
        · cases h
        · split at h
          · next closer hopen =>
              obtain ⟨hfull, rfl⟩ := openBracket_eq_failed_iff.mp h
              have hdepth : s.depth = Limits.bracketDepth := Nat.le_antisymm hle hfull
              rw [hdepth]
              exact .tooDeep hopen hdepth
          · split at h
            · next hclose =>
                obtain ⟨expected, hhead, hne, rfl⟩ := closeBracket_eq_failed_iff.mp h
                exact .mismatch hclose hhead hne
            · split at h <;> cases h
  · rintro ⟨hs, hwrong⟩
    cases hwrong with
    | mismatch hclose hhead hne =>
        obtain ⟨hq, hopen⟩ := of_isCloser hclose
        simp only [feed, hs, hq, hopen, hclose, Bool.false_eq_true, if_false, if_true]
        exact closeBracket_eq_failed_iff.mpr ⟨_, hhead, hne, rfl⟩
    | tooDeep hopen hfull =>
        obtain ⟨hq, -⟩ := isQuote_of_closer? hopen
        simp only [feed, hs, hq, hopen, Bool.false_eq_true, if_false]
        exact openBracket_eq_failed_iff.mpr ⟨Nat.le_of_eq hfull.symm, by rw [← hfull]; rfl⟩

end ArgumentScan

/-! ### Text with open brackets is read -/

namespace OpenText

variable {pending pending' w : List Char} {n n' : Nat}

/-- A text is read, if there is room for its brackets, and leaves those open that it has open. -/
theorem reads [Limits] (h : OpenText pending n w) (hn : n < Limits.bracketDepth) :
    ({} : ArgumentScan).Reads w pending none := by
  induction h with
  | @top n w ht =>
      refine ArgumentScan.reads_argumentText ht rfl ?_
      rwa [ArgumentScan.depth, List.length_nil, Nat.zero_add, Nat.add_comm]
  | @inside pending w text m k opener closer _ hopen ht ih =>
      refine ArgumentScan.reads_append (ih (by omega)) fun s₁ hp₁ hs₁ => ?_
      have hdepth₁ : s₁.depth = pending.length + 1 := by rw [ArgumentScan.depth, hp₁]
      refine ArgumentScan.reads_cons (ArgumentScan.reads_opener hopen hs₁ (by omega))
        fun s₂ hp₂ hs₂ => ?_
      rw [hp₁] at hp₂
      have hdepth₂ : s₂.depth = pending.length + 2 := by
        rw [ArgumentScan.depth, hp₂, List.length_cons]
      rw [← hp₂]
      exact ArgumentScan.reads_argumentText ht hs₂ (by omega)

/-- A text walks as deep as it has brackets open, and no deeper in between than it is. -/
theorem walk_eq (h : OpenText pending n w) :
    Nesting.walk {} w = ⟨none, pending.length⟩ ∧ Nesting.deepest {} w = n := by
  induction h with
  | @top n w ht =>
      obtain ⟨hwalk, hdeep⟩ := ht.walk_eq 0
      exact ⟨hwalk, by rw [hdeep, Nat.zero_add]⟩
  | @inside pending w text m k opener closer _ hopen ht ih =>
      obtain ⟨hwalk, hdeep⟩ := ih
      obtain ⟨hwalk', hdeep'⟩ := ht.walk_eq (pending.length + 1)
      have hfeed := Nesting.feed_opener hopen pending.length
      rw [Nesting.walk_append, Nesting.deepest_append, hwalk, hdeep, Nesting.walk_cons,
        Nesting.deepest, hfeed, hwalk', hdeep']
      refine ⟨rfl, ?_⟩
      change max m (max pending.length (pending.length + 1 + k)) = max m (pending.length + 1 + k)
      omega

/-- **A text says which brackets are open in it.** -/
theorem unique [Limits] (h : OpenText pending n w) (hn : n < Limits.bracketDepth)
    (h' : OpenText pending' n' w) : pending' = pending := by
  have hsame : n' = n := h'.walk_eq.2.symm.trans h.walk_eq.2
  obtain ⟨s, hread, hp, -⟩ := h.reads hn
  obtain ⟨s', hread', hp', -⟩ := h'.reads (hsame ▸ hn)
  rw [hread, Option.some.injEq] at hread'
  rw [← hp, ← hp', hread']

theorem isCloser_of_mem (h : OpenText pending n w) : ∀ b ∈ pending, isCloser b = true := by
  induction h with
  | top => exact List.forall_mem_nil _
  | inside _ hopen _ ih =>
      obtain ⟨-, -, -, hclose⟩ := ArgumentScan.isQuote_of_closer? hopen
      exact List.forall_mem_cons.mpr ⟨hclose, ih⟩

end OpenText

section
variable [Limits]

namespace ArgumentScan

variable {s : ArgumentScan} {w : List Char}

/-- A scan has no more brackets open than there is room for. -/
theorem depth_le_of_feedAll? (hw : feedAll? {} w = some s) : s.depth ≤ Limits.bracketDepth := by
  obtain ⟨n, hviable, hn, hle⟩ := exists_viable hw
  have hdepth : s.depth ≤ n + 1 := Nat.succ_le_succ hviable.length_le
  exact hdepth.trans (hn ▸ hle)

/-- Outside all strings, what a scan has read is text with its open brackets. -/
theorem openText_of_feedAll? (hw : feedAll? {} w = some s) (hs : s.string = none) :
    ∃ n, OpenText s.pending n w ∧ n < Limits.bracketDepth := by
  obtain ⟨n, hviable, hn, hle⟩ := exists_viable hw
  rw [bracketing, hs] at hviable
  rw [hn] at hle
  cases hviable with
  | outside htext => exact ⟨n, htext, hle⟩

end ArgumentScan

/-! ### The stack of brackets -/

/-- The brackets of a list on one stack: the closing ones that are waited for, innermost first, with
the `)` of the list itself at the bottom. -/
structure BracketStack where
  closers : List Char := [')']
  /-- The string that is open. -/
  string : Option QuotedString := none

namespace BracketStack

/-- What reading one character does to a stack. -/
inductive Verdict where
  | more (b : BracketStack)
  | closed
  | failed (fault : Fault)

/-- Reads one character.  A closing bracket takes the top of the stack; were there none, it would be
reported with `fallback` as the one expected. -/
def feed (fallback : Char) (b : BracketStack) (c : Char) : Verdict :=
  match b.string with
  | some string => .more { b with string := string.feed c }
  | none =>
      if c = ')' ∧ b.closers.length = 1 then .closed
      else if isQuote c then .more { b with string := some (.opened c) }
      else
        match closer? c with
        | some closer =>
            if Limits.bracketDepth ≤ b.closers.length then
              .failed (.nestingTooDeep (b.closers.length + 1) Limits.bracketDepth)
            else .more { b with closers := closer :: b.closers }
        | none =>
            if isCloser c then
              match b.closers with
              | [] => .failed (.bracketMismatch fallback c)
              | expected :: closers =>
                  if c = expected then .more { b with closers }
                  else .failed (.bracketMismatch expected c)
            else .more b

/-- The stack after all of `cs`, when no character of it ends the list. -/
def feedAll? (fallback : Char) (b : BracketStack) : List Char → Option BracketStack
  | [] => some b
  | c :: cs =>
      match b.feed fallback c with
      | .more b => feedAll? fallback b cs
      | _ => none

/-- Reads characters until a bracket is wrong or the list is closed, and says whether it was. -/
def run (fallback : Char) (b : BracketStack) : List Char → Except Fault Bool
  | [] => .ok false
  | c :: cs =>
      match b.feed fallback c with
      | .more b => run fallback b cs
      | .closed => .ok true
      | .failed fault => .error fault

end BracketStack

namespace ArgumentScan

/-- The stack of a scan. -/
def stack (s : ArgumentScan) : BracketStack := ⟨s.pending ++ [')'], s.string⟩

/-- What a scan does, said of its stack. -/
def Outcome.verdict : Outcome → BracketStack.Verdict
  | .more s => .more s.stack
  | .closed _ => .closed
  | .failed fault => .failed fault

/-- **Whatever is expected of the empty stack**, a character does to the stack of a scan what it does
to the scan. -/
theorem feed_stack (fallback : Char) (s : ArgumentScan) (c : Char) :
    s.stack.feed fallback c = (s.feed c).verdict := by
  obtain ⟨args, current, pending, maxDepth, string⟩ := s
  cases string with
  | some string => rfl
  | none =>
      rw [stack, feed, BracketStack.feed]
      dsimp only
      by_cases hclose : isCloser c = true
      · obtain ⟨hq, hopen⟩ := of_isCloser hclose
        simp only [hq, hopen, hclose, closeBracket, Bool.false_eq_true, if_false, if_true]
        cases pending with
        | nil =>
            -- the `)` at the bottom is the list's own
            by_cases hc : c = ')' <;> simp [hc, Outcome.verdict]
        | cons expected pending =>
            by_cases hc : c = expected <;> simp [hc, Outcome.verdict, stack, push]
      · have hne : c ≠ ')' := by
          rintro rfl
          exact hclose rfl
        simp only [hne, hclose, Bool.false_eq_true, false_and, if_false]
        by_cases hq : isQuote c = true
        · simp only [hq, if_true]
          rfl
        · simp only [hq, Bool.false_eq_true, if_false]
          cases hopen : closer? c with
          | some closer =>
              have hroom : Limits.bracketDepth < pending.length + 1 + 1 ↔
                  Limits.bracketDepth ≤ pending.length + 1 := Nat.lt_succ_iff
              simp only [openBracket, depth, hroom, List.length_append, List.length_singleton]
              by_cases hfull : Limits.bracketDepth ≤ pending.length + 1 <;>
                simp [hfull, Outcome.verdict, stack]
          | none =>
              by_cases hcomma : c = ',' ∧ pending = [] <;>
                simp [hcomma, Outcome.verdict, stack, push]

theorem feedAll?_stack (fallback : Char) (s : ArgumentScan) (w : List Char) :
    s.stack.feedAll? fallback w = (s.feedAll? w).map stack := by
  induction w generalizing s with
  | nil => rfl
  | cons c w ih =>
      rw [BracketStack.feedAll?, feedAll?, feed_stack]
      cases s.feed c with
      | more s => exact ih s
      | closed s => rfl
      | failed fault => rfl

theorem run_stack (fallback : Char) (s : ArgumentScan) (source : String) (p : Position)
    (cs : List Char) : s.stack.run fallback cs =
      ((s.run source p cs).1.map ArgumentList.terminated).mapError LexError.fault := by
  induction cs generalizing s p with
  | nil => rfl
  | cons c cs ih =>
      rw [BracketStack.run, run, feed_stack]
      cases s.feed c with
      | more s => exact ih s _
      | closed s => rfl
      | failed fault => rfl

end ArgumentScan

end

/-! ### Where a list fails -/

/-- Positions tell the starts of an input apart. -/
theorem eq_of_advanceAll_eq {p : Position} {v w input : List Char} (hv : v <+: input)
    (hw : w <+: input) (h : p.advanceAll v = p.advanceAll w) : v = w := by
  rcases List.prefix_or_prefix_of_prefix hv hw with ⟨more, rfl⟩ | ⟨more, rfl⟩
  · rw [advanceAll_append_eq_iff.mp h.symm, List.append_nil]
  · rw [advanceAll_append_eq_iff.mp h, List.append_nil]

namespace Cursor

variable {c c' : Cursor} {e : LexError} {w : List Char} {found : Char}

section
variable [Limits]

/-- The list from `c` on fails with `e` at the character `found` behind `w`, and this is the first
character that cannot be right. -/
structure FailsAt (c : Cursor) (e : LexError) (w : List Char) (found : Char) : Prop where
  starts : w ++ [found] <+: c.rest
  /-- The error stands at that character and at no other one. -/
  span : ∀ v, v <+: c.rest → (e.span = .point (c.position.advanceAll v) ↔ v = w)
  /-- Up to it, there is a list that the end of input cuts off. -/
  viable : ∀ d : Cursor, d.rest = w →
    ∃ list, d.arguments = (.ok list, d.skipAll) ∧ list.terminated = false
  /-- Closing brackets alone make it a whole list. -/
  completion : ∃ closers, (∀ b ∈ closers, isCloser b = true) ∧ ∀ d : Cursor, d.rest = w ++ closers →
    ∃ list, d.arguments = (.ok list, d.skipAll) ∧ list.terminated = true
  /-- With that character, every input fails in the same way at the same place. -/
  determined : ∀ d : Cursor, w ++ [found] <+: d.rest →
    ∃ d', d.arguments = (.error ⟨e.fault, .point (d.position.advanceAll w), d.source⟩, d')
  /-- It is a wrong bracket after those that are open there, outside all strings. -/
  bracket : ∃ pending n, OpenText pending n w ∧
    (∀ pending' n', OpenText pending' n' w → pending' = pending) ∧ WrongBracket pending found e.fault

/-- A list that fails has been read up to a character that its scan refuses. -/
theorem exists_failed_of_arguments (h : c.arguments = (.error e, c')) :
    ∃ w found after s, c.rest = w ++ found :: after ∧ ArgumentScan.feedAll? {} w = some s ∧
      s.feed found = .failed e.fault ∧ e = ⟨e.fault, .point (c.position.advanceAll w), c.source⟩ := by
  rcases ArgumentScan.feedAll?_cases {} c.rest with ⟨s, hs⟩ | ⟨w, after, s, hr, hw, htop⟩ |
    ⟨w, found, after, s, fault, hr, hw, hfound⟩
  · rw [arguments_of_runsOut ⟨s, hs, rfl⟩] at h
    cases h
  · rw [arguments_of_closes ⟨s, hw, htop, rfl⟩ hr] at h
    cases h
  · rw [arguments_of_failed hr hw hfound] at h
    cases h
    exact ⟨w, found, after, s, hr, hw, hfound, rfl⟩

/-- Text with open brackets is a whole list once these are closed. -/
theorem exists_arguments_of_openText {pending : List Char} {n : Nat} (h : OpenText pending n w)
    (hn : n < Limits.bracketDepth) (hr : c.rest = w ++ (pending ++ [')'])) :
    ∃ list, c.arguments = (.ok list, c.skipAll) ∧ list.terminated = true := by
  obtain ⟨list, hlist⟩ := h.append_pending.exists_closes hn
  have hrest : c.rest = (w ++ pending) ++ ')' :: [] := by rw [hr, List.append_assoc]
  have hlength : c.rest.length = (w ++ pending).length + 1 := by
    rw [hrest, List.length_append, List.length_singleton]
  refine ⟨list, ?_, hlist.terminated⟩
  rw [arguments_of_closes hlist hrest, ← hlength, skip_length]

/-- **What a scan refuses is the first character that cannot be right.** -/
theorem failsAt_of_failed {after : List Char} {s : ArgumentScan}
    (hr : c.rest = w ++ found :: after) (hw : ArgumentScan.feedAll? {} w = some s)
    (hfound : s.feed found = .failed e.fault)
    (he : e.span = .point (c.position.advanceAll w)) : c.FailsAt e w found := by
  have hle := ArgumentScan.depth_le_of_feedAll? hw
  obtain ⟨hs, hwrong⟩ := (ArgumentScan.feed_eq_failed_iff hle).mp hfound
  obtain ⟨n, htext, hn⟩ := ArgumentScan.openText_of_feedAll? hw hs
  have hprefix : w <+: c.rest := hr ▸ List.prefix_append w _
  refine
    { starts := ⟨after, by rw [hr, List.append_assoc]; rfl⟩
      span := fun v hv => ?_
      viable := fun d hd => ?_
      completion := ⟨s.pending ++ [')'], ?_, fun d hd => exists_arguments_of_openText htext hn hd⟩
      determined := ?_
      bracket := ⟨s.pending, n, htext, fun _ _ h' => htext.unique hn h', hwrong⟩ }
  · constructor
    · intro h
      rw [he] at h
      exact eq_of_advanceAll_eq hv hprefix (congrArg Span.start h).symm
    · rintro rfl
      exact he
  · have hout : RunsOut d.rest (s.finish false) := ⟨s, hd ▸ hw, rfl⟩
    exact ⟨_, arguments_of_runsOut hout, hout.terminated⟩
  · exact List.forall_mem_append.mpr
      ⟨htext.isCloser_of_mem, List.forall_mem_singleton.mpr rfl⟩
  · rintro d ⟨after', hd⟩
    rw [List.append_assoc] at hd
    exact ⟨_, arguments_of_failed hd.symm hw hfound⟩

/-- **An argument list fails at the first bracket that cannot be right.**  The bracket that is
expected there is the one that closes the innermost open one; the stack of brackets is never empty,
so that nothing else is ever expected. -/
theorem arguments_fail_at_bracket (c : Cursor) :
    (∀ e c', c.arguments = (.error e, c') → ∃ w found, c.FailsAt e w found) ∧
      ∀ fallback : Char,
        BracketStack.run fallback {} c.rest =
            (c.arguments.1.map ArgumentList.terminated).mapError LexError.fault ∧
          ∀ w b, w <+: c.rest → BracketStack.feedAll? fallback {} w = some b → b.closers ≠ [] := by
  refine ⟨?_, fun fallback => ⟨?_, ?_⟩⟩
  · intro e c' h
    obtain ⟨w, found, after, s, hr, hw, hfound, he⟩ := exists_failed_of_arguments h
    exact ⟨w, found, failsAt_of_failed hr hw hfound (congrArg LexError.span he)⟩
  · exact ArgumentScan.run_stack fallback {} c.source c.position c.rest
  · intro w b _ hb
    have hstack := ArgumentScan.feedAll?_stack fallback {} w
    change BracketStack.feedAll? fallback {} w = _ at hstack
    rw [hb] at hstack
    obtain ⟨s, -, rfl⟩ := Option.map_eq_some_iff.mp hstack.symm
    exact List.concat_ne_nil _ _

end

/-- In `f(']', [x)` the `)` is wrong, since the innermost open bracket waits for a `]`; the bracket
in the string is not. -/
theorem arguments_fail_at_inner_bracket :
    (ofSource "']', [x)").arguments =
        (.error ⟨.bracketMismatch ']' ')', .point ⟨7, 1, 8⟩, "']', [x)"⟩,
          ⟨"']', [x)", [], ⟨8, 1, 9⟩⟩) ∧
      ∃ w found, (ofSource "']', [x)").FailsAt
        ⟨.bracketMismatch ']' ')', .point ⟨7, 1, 8⟩, "']', [x)"⟩ w found := by
  have h : (ofSource "']', [x)").arguments =
      (.error ⟨.bracketMismatch ']' ')', .point ⟨7, 1, 8⟩, "']', [x)"⟩,
        ⟨"']', [x)", [], ⟨8, 1, 9⟩⟩) := rfl
  exact ⟨h, (arguments_fail_at_bracket _).1 _ _ h⟩

end Cursor

end Blade
