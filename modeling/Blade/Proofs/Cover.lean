import Blade.Limits.Development
import Blade.Proofs.Spans

/-!
# Proofs — Cover

How much of a source the delivered tokens cover.

Some characters are read without output: an `@` that escapes nothing, and the opener and closer of a
transparent raw block with an empty body.  The next token covers them; but at the end of input no
token follows (`Silent`), and they are left over.

* `silent_of_lexes`: what is left over has been read without output.
* `covered_and_silent`: the tokens of a source are consecutive and cover all but a silent end; they
  reach the end of input exactly if that is empty.
-/

namespace Blade

section
variable [Limits]

/-- Characters at the end of a source that are read without output. -/
inductive Silent (p : Preferences) : List Char → Prop where
  | nil : Silent p []
  /-- An `@` that escapes nothing. -/
  | escape : Silent p ['@']
  /-- The opener of a transparent raw block that the input ends in. -/
  | opener {name chunk : List Char} {list : Option ArgumentList} :
      p.strict = false → p.isTransparent (String.ofList name) = true →
        Piece p none chunk [] (.enter name list) → Silent p chunk
  /-- A transparent raw block with an empty body. -/
  | block {name chunk closer after : List Char} {list : Option ArgumentList} :
      p.isTransparent (String.ofList name) = true →
        Piece p none chunk (closer ++ after) (.enter name list) →
        Piece p (some (String.ofList name)) closer after .leave → Silent p after →
        Silent p (chunk ++ (closer ++ after))

variable {p : Preferences} {h : Held} {rest tail : List Char} {cuts : List Cut}

/-- Silent characters start with an `@`. -/
theorem Silent.head_eq {c : Char} (hs : Silent p (c :: rest)) : c = '@' := by
  generalize hcs : c :: rest = cs at hs
  cases hs with
  | nil => cases hcs
  | escape => exact (List.cons.inj hcs).1
  | opener _ _ hp => cases hp; exact (List.cons.inj hcs).1
  | block _ hp => cases hp; exact (List.cons.inj hcs).1

/-- With `h` held back, `rest` is read without output. -/
def Quiet (p : Preferences) (h : Held) (rest : List Char) : Prop :=
  h.text = [] ∧
    match h.block with
    | none => Silent p rest
    | some (name, _) => p.isTransparent name = true ∧ ((rest = [] ∧ p.strict = false) ∨
        ∃ closer after, rest = closer ++ after ∧ Piece p (some name) closer after .leave ∧
          Silent p after)

theorem Quiet.silent_of_enter {name chunk : List Char} {list : Option ArgumentList}
    {args : Option (List String)} {chars : List Char}
    (hp : Piece p none chunk rest (.enter name list))
    (hq : Quiet p ⟨some (String.ofList name, args), chars, []⟩ rest) :
    Silent p (chunk ++ rest) := by
  obtain ⟨-, htrans, ⟨rfl, hs⟩ | ⟨closer, after, rfl, hleave, hafter⟩⟩ := hq
  · rw [List.append_nil]
    exact .opener hs htrans hp
  · exact .block htrans hp hleave hafter

theorem Silent.of_stopsAt (hs : Silent p rest)
    (hstop : StopsAt (fun c => !Text.isBlank c) rest) : rest = [] := by
  cases rest with
  | nil => rfl
  | cons c rest =>
      rw [hs.head_eq, stopsAt_cons] at hstop
      exact absurd hstop (by decide)

/-- Where a piece cuts nothing off and quiet follows, it is quiet before the piece. -/
theorem quiet_of_piece {chunk : List Char} {e : Effect} (hp : Piece p h.openName? chunk rest e)
    (hc : h.cuts p chunk e = []) (hq : Quiet p (h.perform p chunk e) rest) :
    Quiet p h (chunk ++ rest) := by
  cases e with
  | hold value =>
      obtain ⟨hempty, hs⟩ := hq
      obtain ⟨htext, rfl⟩ := List.append_eq_nil_iff.mp hempty
      obtain ⟨hb, rfl, hstop⟩ := hp.hold_nil
      rw [Held.openName?_eq_none_iff] at hb
      simp only [Held.perform, hb] at hs
      refine ⟨htext, ?_⟩
      rw [hb, hs.of_stopsAt hstop]
      exact .escape
  | token token list => exact absurd hc (by simp [Held.cuts])
  | enter name list =>
      have hb := Held.openName?_eq_none_iff.mp hp.block_of_enter
      rw [hp.block_of_enter] at hp
      refine ⟨h.flushed_eq_nil_iff.mp hc, ?_⟩
      rw [hb]
      exact hq.silent_of_enter hp
  | leave =>
      obtain ⟨ht, htrans⟩ := (Held.closed_eq_nil_iff _).mp hc
      refine ⟨ht, ?_⟩
      cases hb : h.block with
      | none => rw [Held.openName?_eq_none_iff.mpr hb] at hp; cases hp
      | some block =>
          rw [Held.openName?, hb] at hp
          exact ⟨htrans _ _ hb, .inr ⟨chunk, rest, rfl, hp, hq.2⟩⟩

/-- Where a piece cuts something off and quiet follows, all that is left over is silent. -/
theorem silent_of_piece {chunk : List Char} {e : Effect} (hp : Piece p h.openName? chunk rest e)
    (hc : h.cuts p chunk e ≠ []) (hq : Quiet p (h.perform p chunk e) rest) :
    Silent p ((h.perform p chunk e).chars ++ rest) := by
  cases e with
  | hold value => exact absurd rfl hc
  | token token list =>
      have hb := Held.openName?_eq_none_iff.mp hp.block_of_token
      have hs := hq.2
      simp only [Held.perform, hb] at hs
      exact hs
  | enter name list =>
      rw [hp.block_of_enter] at hp
      simp only [Held.perform, h.kept_of_flushed_ne_nil hc]
      exact hq.silent_of_enter hp
  | leave =>
      simp only [Held.perform, Held.left_of_closed_ne_nil _ hc]
      exact hq.2

/-- **What is left over has been read without output**; before the first cut, so has everything. -/
theorem silent_of_lexes (hl : Lexes p h rest cuts tail) :
    (cuts ≠ [] → Silent p tail) ∧ (cuts = [] → Quiet p h rest) := by
  induction hl with
  | @done h hs =>
      refine ⟨fun hc => h.left_of_closed_ne_nil hc ▸ .nil, fun hc => ?_⟩
      obtain ⟨ht, htrans⟩ := h.closed_eq_nil_iff.mp hc
      refine ⟨ht, ?_⟩
      cases hb : h.block with
      | none => exact .nil
      | some block =>
          refine ⟨htrans _ _ hb, .inl ⟨rfl, hs.resolve_left ?_⟩⟩
          rw [hb]
          exact Option.some_ne_none block
  | @more h chunk after e cuts tail hp hl ih =>
      obtain ⟨ihcut, ihquiet⟩ := ih
      refine ⟨fun hne => ?_, fun hnil => ?_⟩
      · by_cases hc : cuts = []
        · -- with no cut to come, what is held back and what follows is all left over
          have htail := hl.slices_append_tail
          rw [hc, slices_nil, List.nil_append] at htail
          rw [htail]
          exact silent_of_piece hp (fun h0 => hne (by rw [h0, hc]; rfl)) (ihquiet hc)
        · exact ihcut hc
      · obtain ⟨hnow, hc⟩ := List.append_eq_nil_iff.mp hnil
        exact quiet_of_piece hp hnow (ihquiet hc)

variable {source : String} {tokens : List LocatedToken} {eof : LocatedToken}

/-- **The tokens of a source are consecutive and cover all but a silent end.**  The end of input is
a point at the end of the source; the spans reach it, and the slices are the source, exactly if the
silent end is empty.  A gap is reported exactly if it is not and there is a token before it. -/
theorem covered_and_silent (hd : (Lexer.ofSource source p).Drains tokens eof) :
    ∃ covered uncovered, source.toList = covered ++ uncovered ∧ Silent p uncovered ∧
      tokens.flatMap (fun t => (t.span.slice source).toList) = covered ∧
      Consecutive .start tokens (Position.start.advanceAll covered) ∧
      eof = ⟨.eof, .point (Position.start.afterText source)⟩ ∧
      (Consecutive .start (tokens ++ [eof]) (Position.start.afterText source) ↔
        uncovered = []) ∧
      (firstGap? (tokens ++ [eof]) = none ↔ uncovered = [] ∨ tokens = []) := by
  obtain ⟨cuts, tail, hlex, rfl, rfl⟩ := Lexer.drains_ofSource_iff.mp hd
  have hsource : source.toList = slices cuts ++ tail := hlex.slices_append_tail.symm
  have hcons := consecutive_place .start cuts
  have hreach : Position.start.advanceAll (slices cuts) = Position.start.afterText source ↔
      tail = [] := by
    rw [Position.afterText, hsource, eq_comm, advanceAll_append_eq_iff]
  -- the end of input starts where the last token ended, if that is where the source ends
  have heof : ∀ {start stop : Position} {ts : List LocatedToken}, Consecutive start ts stop →
      ((∃ q, Consecutive start (ts ++ [Lexer.eofToken (Position.start.afterText source)]) q) ↔
        stop = Position.start.afterText source) := by
    intro start stop ts hts
    simp only [consecutive_append, Lexer.eofToken, Span.point]
    constructor
    · rintro ⟨q, hq, -⟩
      exact hts.stop_unique hq
    · rintro rfl
      exact ⟨_, hts, rfl⟩
  refine ⟨slices cuts, tail, hsource, ?_, flatMap_slice_place hsource, hcons, rfl, ?_, ?_⟩
  · by_cases hc : cuts = []
    · have hquiet := ((silent_of_lexes hlex).2 hc).2
      rwa [hsource, hc] at hquiet
    · exact (silent_of_lexes hlex).1 hc
  · rw [← hreach, ← heof hcons]
    refine ⟨fun hq => ⟨_, hq⟩, ?_⟩
    rintro ⟨q, hq⟩
    rwa [← (consecutive_append.mp hq).2] at hq
  · cases cuts with
    | nil => simp [place, firstGap?]
    | cons cut cuts =>
        rw [place, List.cons_append, firstGap?_cons_eq_none_iff, heof hcons.2, hreach]
        simp

/-- The `@` in `{{x}}@` escapes nothing and ends the source. -/
theorem drains_data_escape (p : Preferences) :
    (Lexer.ofSource "\x7b\x7bx\x7d\x7d@" p).Drains
      [⟨dataToken true ['x'], ⟨⟨0, 1, 1⟩, ⟨5, 1, 6⟩⟩⟩] (Lexer.eofToken ⟨6, 1, 7⟩) := by
  have hdata : Piece p none (dataOpener true ++ (['x'] ++ Lexer.terminator true)) ['@']
      (.token (dataToken true ['x']) none) := by
    refine .data (.closed ⟨?_, trivial⟩) ?_ <;> decide
  have hescape : Piece p none ['@'] [] (.hold []) := .escape (by simp) (by simp) (by simp)
  have hend : Lexes p { chars := ['@'] } [] [] ['@'] := .done (.inl rfl)
  have hat : Lexes p {} ['@'] [] ['@'] := Lexes.more (h := {}) hescape hend
  have hlex := Lexes.more (h := {}) hdata hat
  exact Lexer.drains_ofSource_iff.mpr ⟨_, _, hlex, rfl, rfl⟩

end

/-- Its tokens cover all but the `@`. -/
theorem covered_and_silent_data_escape :
    ∃ tokens eof, (Lexer.ofSource "\x7b\x7bx\x7d\x7d@" {}).Drains tokens eof ∧
      ∃ covered uncovered, "\x7b\x7bx\x7d\x7d@".toList = covered ++ uncovered ∧
        Silent {} uncovered ∧
        tokens.flatMap (fun t => (t.span.slice "\x7b\x7bx\x7d\x7d@").toList) = covered ∧
        Consecutive .start tokens (Position.start.advanceAll covered) ∧
        eof = ⟨.eof, .point (Position.start.afterText "\x7b\x7bx\x7d\x7d@")⟩ ∧
        (Consecutive .start (tokens ++ [eof])
          (Position.start.afterText "\x7b\x7bx\x7d\x7d@") ↔ uncovered = []) ∧
        (firstGap? (tokens ++ [eof]) = none ↔ uncovered = [] ∨ tokens = []) :=
  ⟨_, _, drains_data_escape {}, covered_and_silent (drains_data_escape {})⟩

/-- **Spans are not always gapless**: there, the end of input does not start where the token before
it ended. -/
theorem not_gapless :
    ¬ ∀ (source : String) (p : Preferences) (tokens : List LocatedToken) (eof : LocatedToken),
      (Lexer.ofSource source p).Drains tokens eof →
        Consecutive .start (tokens ++ [eof]) (Position.start.afterText source) ∧
          firstGap? (tokens ++ [eof]) = none ∧
          (tokens ++ [eof]).flatMap (fun t => (t.span.slice source).toList) = source.toList := by
  intro hall
  have hgap := (hall _ _ _ _ (drains_data_escape {})).2.1
  exact absurd hgap (by decide)

end Blade
