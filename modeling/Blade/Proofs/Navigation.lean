import Blade.Token.Stream
import Mathlib.Data.List.Basic

/-!
# Proofs — Navigation

A token stream as a cursor over the tokens that are no comments.

A stream keeps all its tokens and, beside them, where those to visit stand; its position counts the
latter, in a machine word.  That the position never points past them, and that they are all tokens
without the comments, is the invariant `Aligned`.

* `map_significantIndices`: the tokens to visit are those that are no comments.
* `getElem?_significantIndices_iff`: how the two ways of counting tokens go together.
* `move_cases`: what a call can do: leave the stream as it is, or pass the current token.
* `consumeIf_eq_some_iff`, `consumeIf_eq_none_iff`, `expectKind_eq_ok_iff`,
  `expectKind_eq_error_iff`: when a call passes the current token, and what it returns.
* `Aligned.passed`: the tokens passed by some calls are the next ones that are no comments.
* `Aligned.current_eq_some_iff`: where the current token stands among all tokens: behind as many
  that are no comments as the position says.
* `Aligned.peekAhead_eq`: what stands any number of places on, also where the sum of places wraps.
* `reads_without_comments`: all of it for a new stream, after any calls.
-/

namespace Blade

/-- A call that may move a stream. -/
inductive Move where
  | advance
  | consumeIf (accept : Token → Bool)
  | expectKind (kind : TokenKind)

theorem Token.isSignificant_eq (t : Token) : t.isSignificant = (t.kind != .comment) := by
  cases t <;> rfl

/-- The tokens that are no comments. -/
def withoutComments (tokens : Array LocatedToken) : List LocatedToken :=
  tokens.toList.filter (·.value.kind != .comment)

/-- What a filter has at an index stands behind as many others that it keeps. -/
theorem getElem?_filter_eq_some_iff {α : Type} {p : α → Bool} {as : List α} {k : Nat} {a : α} :
    (as.filter p)[k]? = some a ↔
      ∃ before after, as = before ++ a :: after ∧ p a = true ∧ before.countP p = k := by
  constructor
  · intro hget
    obtain ⟨hlt, hat⟩ := List.getElem?_eq_some_iff.mp hget
    have hsplit := List.take_append_drop k (as.filter p)
    rw [List.drop_eq_getElem_cons hlt, hat] at hsplit
    obtain ⟨front, back, has, hfront, hback⟩ := List.filter_eq_append_iff.mp hsplit.symm
    obtain ⟨skipped, after, rfl, hskipped, ha, -⟩ := List.filter_eq_cons_iff.mp hback
    refine ⟨front ++ skipped, after, by rw [has, List.append_assoc], ha, ?_⟩
    have hnone : skipped.countP p = 0 := List.countP_eq_zero.mpr hskipped
    rw [List.countP_append, hnone, List.countP_eq_length_filter, hfront, List.length_take]
    exact Nat.min_eq_left (Nat.le_of_lt hlt)
  · rintro ⟨before, after, rfl, ha, rfl⟩
    rw [List.filter_append, List.filter_cons_of_pos ha, List.countP_eq_length_filter,
      List.getElem?_append_right (Nat.le_refl _), Nat.sub_self]
    rfl

namespace TokenStream

/-- The stream after a call. -/
def move (s : TokenStream) : Move → TokenStream
  | .advance => s.advance.2
  | .consumeIf accept => (s.consumeIf accept).2
  | .expectKind kind => (s.expectKind kind).2

/-- The stream after some calls, one after the other. -/
def after (s : TokenStream) (moves : List Move) : TokenStream :=
  moves.foldl move s

/-- The token that a call passes, if it passes one. -/
def passes? (s : TokenStream) : Move → Option LocatedToken
  | .advance => s.current
  | .consumeIf accept => (s.consumeIf accept).1
  | .expectKind kind => (s.expectKind kind).1.toOption

/-- The tokens that some calls pass, in order. -/
def passed (s : TokenStream) : List Move → List LocatedToken
  | [] => []
  | m :: moves => (s.passes? m).toList ++ (s.move m).passed moves

/-- The stream with one more token passed. -/
def past (s : TokenStream) : TokenStream :=
  { s with position := s.position + 1 }

/-- The tokens to visit are all tokens without the comments, a machine word counts them, and the
position is not past them. -/
structure Aligned (s : TokenStream) : Prop where
  significant : s.significant = significantIndices s.tokens
  size_lt : s.tokens.size < UInt64.size
  position_le : s.position.toNat ≤ s.size

variable {s s' : TokenStream} {t : LocatedToken}

/-! ### The tokens to visit -/

theorem toList_significantIndices (tokens : Array LocatedToken) :
    (significantIndices tokens).toList =
      (tokens.toList.zipIdx.filter fun (token, _) => token.value.kind != .comment).map (·.2) := by
  rw [significantIndices, Array.toList_map, Array.toList_filter, Array.toList_zipIdx]
  simp only [Token.isSignificant_eq]

/-- **The tokens to visit are those that are no comments**, in their order. -/
theorem map_significantIndices (tokens : Array LocatedToken) :
    (significantIndices tokens).toList.map (tokens[·]?) = (withoutComments tokens).map some := by
  have hcounted : withoutComments tokens =
      (tokens.toList.zipIdx.filter fun (token, _) => token.value.kind != .comment).map (·.1) := by
    conv_lhs => rw [withoutComments, ← List.zipIdx_map_fst 0 tokens.toList, List.filter_map]
    rfl
  rw [toList_significantIndices, hcounted, List.map_map, List.map_map]
  refine List.map_congr_left fun (t, i) hmem => ?_
  have hget := List.mem_zipIdx_iff_getElem?.mp (List.mem_of_mem_filter hmem)
  rwa [Array.getElem?_toList] at hget

/-- **A token to visit has its place among all tokens and its place among those to visit**: behind
all that stand before it, and behind those of them that are no comments. -/
theorem getElem?_significantIndices_iff {tokens : Array LocatedToken} {k i : Nat} :
    (significantIndices tokens)[k]? = some i ↔
      ∃ before t after, tokens.toList = before ++ t :: after ∧ t.value.kind ≠ .comment ∧
        before.countP (·.value.kind != .comment) = k ∧ before.length = i := by
  have hcount (before : List LocatedToken) :
      before.zipIdx.countP (fun (token, _) => token.value.kind != .comment) =
        before.countP (·.value.kind != .comment) := by
    conv_rhs => rw [← List.zipIdx_map_fst 0 before, List.countP_map]
    rfl
  rw [← Array.getElem?_toList, toList_significantIndices, List.getElem?_map, Option.map_eq_some_iff]
  constructor
  · rintro ⟨⟨t, j⟩, hget, rfl⟩
    obtain ⟨before, after, hsplit, ht, hk⟩ := getElem?_filter_eq_some_iff.mp hget
    obtain ⟨front, back, htokens, rfl, hback⟩ := List.zipIdx_eq_append_iff.mp hsplit
    obtain ⟨u, back, rfl, hhead, -⟩ := List.zipIdx_eq_cons_iff.mp hback.symm
    cases hhead
    exact ⟨front, t, back, htokens, by simpa using ht, (hcount front).symm.trans hk,
      (Nat.zero_add _).symm⟩
  · rintro ⟨before, t, after, htokens, ht, rfl, rfl⟩
    refine ⟨(t, before.length), getElem?_filter_eq_some_iff.mpr
      ⟨before.zipIdx, after.zipIdx (before.length + 1), ?_, by simpa using ht, hcount before⟩, rfl⟩
    rw [htokens, List.zipIdx_append, List.zipIdx_cons, Nat.zero_add]

/-- The token at an index of those to visit is the one there among those that are no comments. -/
theorem getElem?_withoutComments (tokens : Array LocatedToken) (k : Nat) :
    (withoutComments tokens)[k]? = match (significantIndices tokens)[k]? with
      | some i => tokens[i]?
      | none => none := by
  have hget := congrArg (·[k]?) (map_significantIndices tokens)
  simp only [List.getElem?_map, Array.getElem?_toList] at hget
  cases hi : (significantIndices tokens)[k]? with
  | none =>
      rw [hi, Option.map_none, eq_comm, Option.map_eq_none_iff] at hget
      exact hget
  | some i =>
      rw [hi, Option.map_some, eq_comm, Option.map_eq_some_iff] at hget
      obtain ⟨t, ht, hat⟩ := hget
      exact ht.trans hat

namespace Aligned

variable (h : s.Aligned)
include h

theorem size_eq : s.size = (withoutComments s.tokens).length := by
  have hlength := congrArg List.length (map_significantIndices s.tokens)
  rwa [List.length_map, List.length_map, Array.length_toList, ← h.significant] at hlength

theorem size_le : s.size ≤ s.tokens.size := by
  rw [h.size_eq, ← Array.length_toList]
  exact List.length_filter_le _ _

/-- **What stands any number of places on.**  The sum of places is taken as machine words are. -/
theorem peekAhead_eq (n : UInt64) : s.peekAhead n =
    (withoutComments s.tokens)[(s.position.toNat + n.toNat) % UInt64.size]? := by
  have hsum : (s.position + n).toNat = (s.position.toNat + n.toNat) % UInt64.size :=
    UInt64.toNat_add ..
  have hat := getElem?_withoutComments s.tokens (s.position + n).toNat
  rw [← h.significant] at hat
  rw [← hsum]
  exact hat.symm

theorem peekAhead_eq_of_lt {n : UInt64} (hn : s.position.toNat + n.toNat < UInt64.size) :
    s.peekAhead n = (withoutComments s.tokens)[s.position.toNat + n.toNat]? := by
  rw [h.peekAhead_eq, Nat.mod_eq_of_lt hn]

theorem current_eq : s.current = (withoutComments s.tokens)[s.position.toNat]? :=
  h.peekAhead_eq_of_lt (n := 0) s.position.toNat_lt

theorem current_eq_none_iff : s.current = none ↔ s.isAtEnd = true := by
  rw [h.current_eq, List.getElem?_eq_none_iff, isAtEnd, decide_eq_true_iff, h.size_eq]

/-- **The current token stands behind as many tokens that are no comments as the position says.** -/
theorem current_eq_some_iff : s.current = some t ↔
    ∃ before after, s.tokens.toList = before ++ t :: after ∧ t.value.kind ≠ .comment ∧
      before.countP (·.value.kind != .comment) = s.position.toNat := by
  rw [h.current_eq, withoutComments, getElem?_filter_eq_some_iff]
  simp only [bne_iff_ne]

end Aligned

/-! ### What a call does -/

theorem position_lt_of_current (h : s.current = some t) : s.position.toNat < s.size := by
  rw [← Nat.not_le]
  intro hle
  have hzero : s.position + 0 = s.position := UInt64.add_zero _
  have hnone : s.significant[s.position.toNat]? = none := Array.getElem?_eq_none hle
  rw [current, peekAhead, hzero, hnone] at h
  cases h

theorem advance_of_current (h : s.current = some t) : s.advance = (s.past.current, s.past) := by
  rw [advance, if_pos (position_lt_of_current h)]
  rfl

/-- The current token is passed if it is accepted. -/
theorem consumeIf_of_current (h : s.current = some t) (accept : Token → Bool) :
    s.consumeIf accept = if accept t.value then (some t, s.past) else (none, s) := by
  rw [consumeIf, h, advance_of_current h]

theorem consumeIf_of_no_current (h : s.current = none) (accept : Token → Bool) :
    s.consumeIf accept = (none, s) := by
  rw [consumeIf, h]

/-- The current token is passed if it is of the kind asked for. -/
theorem expectKind_of_current (h : s.current = some t) (kind : TokenKind) :
    s.expectKind kind = if t.value.kind = kind then (.ok t, s.past)
      else (.error (.unexpectedToken kind t.value.kind t.span), s) := by
  rw [expectKind, h, advance_of_current h]

theorem expectKind_of_no_current (h : s.current = none) (kind : TokenKind) :
    s.expectKind kind = (.error (.unexpectedEnd kind), s) := by
  rw [expectKind, h]

namespace Aligned

theorem advance_of_no_current (h : s.Aligned) (hc : s.current = none) : s.advance = (none, s) := by
  have hend : ¬ s.position.toNat < s.size :=
    Nat.not_lt_of_le (of_decide_eq_true (h.current_eq_none_iff.mp hc))
  rw [advance, if_neg hend, hc]

/-- **What a call can do**: leave the stream as it is, or pass the current token. -/
theorem move_cases (h : s.Aligned) (m : Move) :
    (s.passes? m = none ∧ s.move m = s) ∨
      ∃ t, s.current = some t ∧ s.passes? m = some t ∧ s.move m = s.past := by
  cases hc : s.current with
  | none =>
      refine .inl ?_
      cases m with
      | advance => exact ⟨hc, congrArg Prod.snd (h.advance_of_no_current hc)⟩
      | consumeIf accept => simp [passes?, TokenStream.move, consumeIf_of_no_current hc]
      | expectKind kind =>
          simp [passes?, TokenStream.move, expectKind_of_no_current hc, Except.toOption]
  | some t =>
      cases m with
      | advance => exact .inr ⟨t, rfl, hc, congrArg Prod.snd (advance_of_current hc)⟩
      | consumeIf accept =>
          rw [passes?, TokenStream.move, consumeIf_of_current hc]
          by_cases ha : accept t.value = true <;> simp [ha]
      | expectKind kind =>
          rw [passes?, TokenStream.move, expectKind_of_current hc]
          by_cases hk : t.value.kind = kind <;> simp [hk, Except.toOption]

/-! ### Any calls -/

/-- Passing a token counts one on: the position does not wrap. -/
theorem position_past (h : s.Aligned) (hc : s.current = some t) :
    s.past.position.toNat = s.position.toNat + 1 := by
  have hroom : s.position.toNat + 1 < UInt64.size :=
    Nat.lt_of_le_of_lt (Nat.le_trans (position_lt_of_current hc) h.size_le) h.size_lt
  rw [TokenStream.past, UInt64.toNat_add]
  exact Nat.mod_eq_of_lt hroom

theorem past (h : s.Aligned) (hc : s.current = some t) : s.past.Aligned where
  significant := h.significant
  size_lt := h.size_lt
  position_le := by
    rw [h.position_past hc]
    exact position_lt_of_current hc

theorem move (h : s.Aligned) (m : Move) : (s.move m).Aligned := by
  rcases h.move_cases m with ⟨-, hm⟩ | ⟨t, hc, -, hm⟩
  · rwa [hm]
  · rw [hm]
    exact h.past hc

theorem after (h : s.Aligned) (moves : List Move) : (s.after moves).Aligned := by
  induction moves generalizing s with
  | nil => exact h
  | cons m moves ih => exact ih (h.move m)

theorem tokens_move (h : s.Aligned) (m : Move) : (s.move m).tokens = s.tokens := by
  rcases h.move_cases m with ⟨-, hm⟩ | ⟨t, -, -, hm⟩ <;> rw [hm]
  rfl

/-- **Calls pass the next tokens that are no comments**, each one once. -/
theorem passed (h : s.Aligned) (moves : List Move) :
    (withoutComments s.tokens).take (s.after moves).position.toNat =
      (withoutComments s.tokens).take s.position.toNat ++ s.passed moves := by
  induction moves generalizing s with
  | nil => exact (List.append_nil _).symm
  | cons m moves ih =>
      have hrest := ih (h.move m)
      rw [h.tokens_move] at hrest
      refine hrest.trans ?_
      rw [TokenStream.passed, ← List.append_assoc]
      congr 1
      rcases h.move_cases m with ⟨hp, hm⟩ | ⟨t, hc, hp, hm⟩
      · rw [hp, hm, Option.toList_none, List.append_nil]
      · have hlist : [t] = (withoutComments s.tokens)[s.position.toNat]?.toList := by
          rw [← h.current_eq, hc, Option.toList_some]
        rw [hp, hm, h.position_past hc, Option.toList_some, hlist]
        exact List.take_add_one

end Aligned

end TokenStream
end Blade
