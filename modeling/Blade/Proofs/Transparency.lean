import Blade.Limits.Development
import Blade.Proofs.RawBody

/-!
# Proofs — Transparency

Which raw directive is transparent changes how its blocks are reported, and nothing else.

The pieces that a source is read in depend on the raw directives and on strict termination only
(`Piece.showing`), so two runs that differ in the transparent name read the same pieces.  They cut
off different tokens, with different slices: a transparent block with an empty body cuts off none,
and the characters it was read from go to the next token.  What both hold back therefore differs in
the characters, but not in the text.

* `LexesTo.transparent`: the cuts of the two runs, block by block.
* `runs_transparent`: what the two runs of a source deliver, and that they end in the same way.
-/

namespace Blade

/-- The preferences under which the raw blocks of a directive are reported as text. -/
def Preferences.showing (p : Preferences) (name : String) : Preferences :=
  { p with transparent := name }

/-- What a token of a run without transparent blocks is reported as: a raw block as the tokens that
it has under the preferences `p`, any other token as itself. -/
def Token.reported (p : Preferences) : Token → List Token
  | .rawFunction name args content => blockTokens p name args content
  | token => [token]

variable {p q : Preferences} {h : Held} {rest : List Char} {cuts : List Cut} {flaw? : Option Flaw}

/-! ### What is read does not depend on the transparent name -/

section
variable [Limits]

theorem Piece.showing {block : Option String} {chunk after : List Char} {e : Effect}
    (hp : Piece p block chunk after e) (name : String) :
    Piece (p.showing name) block chunk after e := by
  cases hp with
  | plain hat hopen => exact .plain hat hopen
  | escape hs hrun hstop => exact .escape hs hrun hstop
  | comment he => exact .comment he
  | data he hno => exact .data he hno
  | function hn hraw hl => exact .function hn hraw hl
  | enter hn hraw hl => exact .enter hn hraw hl
  | body hc => exact .body hc
  | lone hs => exact .lone hs
  | other hn hne => exact .other hn hne
  | leave hn heq => exact .leave hn heq

theorem CutOff.showing {construct : Construct} (hc : CutOff p construct rest) (name : String) :
    CutOff (p.showing name) construct rest := by
  cases hc with
  | comment hno => exact .comment hno
  | data hno hdash => exact .data hno hdash
  | list hn hb hw => exact .list hn hb hw

theorem Mismatched.showing {fault : Fault} {before : List Char}
    (hm : Mismatched p fault before rest) (name : String) :
    Mismatched (p.showing name) fault before rest := by
  cases hm with
  | intro hn hb hw hc => exact .intro hn hb hw hc

/-! ### What is cut off -/

/-- A token of a piece is reported as itself. -/
theorem Piece.reported_token {block : Option String} {chunk after : List Char} {token : Token}
    {list : Option ArgumentList} (hp : Piece p block chunk after (.token token list)) :
    token.reported q = [token] := by
  cases hp <;> rfl

end

theorem Held.flatMap_reported_flushed (h : Held) :
    (h.flushed.map Cut.token).flatMap (Token.reported p) = h.flushed.map Cut.token := by
  unfold flushed
  split <;> rfl

/-- Every open raw block is one of a raw directive. -/
def Held.Opened (h : Held) (p : Preferences) : Prop :=
  ∀ name args, h.block = some (name, args) → p.isRawFunction name = true

theorem Held.Opened.perform [Limits] {chunk after : List Char} {e : Effect} (ho : h.Opened p)
    (hp : Piece p h.openName? chunk after e) (q : Preferences) :
    (h.perform q chunk e).Opened p := by
  cases e with
  | hold value => exact ho
  | token token list => exact ho
  | enter name list =>
      intro name' args hblock
      cases hblock
      generalize h.openName? = block at hp
      cases hp with
      | enter _ hraw _ => exact hraw
  | leave =>
      intro name args hblock
      cases hblock

section Reports
variable {t u : String} {chars : List Char}

theorem not_isTransparent_of_raw (hu : u ∉ p.rawFunctions) {name : String}
    (hraw : p.isRawFunction name = true) : (p.showing u).isTransparent name = false := by
  rw [Preferences.isTransparent, ← Bool.not_eq_true, beq_iff_eq]
  intro heq
  rw [Preferences.isRawFunction, List.contains_iff_mem, ← heq] at hraw
  exact hu hraw

/-- What closing a raw block cuts off is what the block is reported as. -/
theorem Held.map_token_closed_showing (hu : u ∉ p.rawFunctions) (ho : h.Opened p) :
    ({ h with chars }.closed (p.showing t)).map Cut.token =
      ((h.closed (p.showing u)).map Cut.token).flatMap (Token.reported (p.showing t)) := by
  obtain ⟨block, held, text⟩ := h
  cases block with
  | none =>
      have hflush := Held.flatMap_reported_flushed (p := p.showing t) ⟨none, held, text⟩
      exact (Held.map_token_flushed ⟨none, held, text⟩ chars).trans hflush.symm
  | some block =>
      obtain ⟨name, args⟩ := block
      have hno := not_isTransparent_of_raw hu (ho name args rfl)
      have hclosed : ((Held.closed ⟨some (name, args), held, text⟩ (p.showing u)).map Cut.token) =
          [.rawFunction name args (String.ofList text)] := by simp [closed, hno]
      rw [hclosed, List.flatMap_singleton]
      exact map_token_closed_block

theorem Held.map_token_cuts_showing [Limits] {chunk after : List Char} {e : Effect}
    (hu : u ∉ p.rawFunctions) (ho : h.Opened p) (hp : Piece p h.openName? chunk after e) :
    ({ h with chars }.cuts (p.showing t) chunk e).map Cut.token =
      ((h.cuts (p.showing u) chunk e).map Cut.token).flatMap (Token.reported (p.showing t)) := by
  cases e with
  | hold value => rfl
  | token token list =>
      simp only [cuts, List.map_append, List.flatMap_append, map_token_flushed,
        flatMap_reported_flushed, List.map_singleton, List.flatMap_singleton, hp.reported_token]
  | enter name list =>
      exact (map_token_flushed h chars).trans h.flatMap_reported_flushed.symm
  | leave => exact Held.map_token_closed_showing (h := { h with chars := h.chars ++ chunk }) hu ho

/-- What is held back after a piece differs in the characters only. -/
theorem Held.perform_showing (h : Held) (p : Preferences) (t u : String) (chars chunk : List Char)
    (e : Effect) : ∃ chars', { h with chars }.perform (p.showing t) chunk e =
      { h.perform (p.showing u) chunk e with chars := chars' } := by
  cases e <;> exact ⟨_, rfl⟩

end Reports

/-! ### Two runs -/

/-- Two ways to cut up the same characters, behind `chars` and behind `chars'`, end alike: at the
end of input, or in front of the same flaw. -/
inductive Alike (chars chars' : List Char) (cuts cuts' : List Cut) :
    Option Flaw → Option Flaw → Prop where
  | done : Alike chars chars' cuts cuts' none none
  | flawed {flaw flaw' : Flaw} (read : List Char) :
      flaw'.fault = flaw.fault → flaw'.covered = flaw.covered →
        slices cuts ++ flaw.before = chars ++ read →
        slices cuts' ++ flaw'.before = chars' ++ read →
        Alike chars chars' cuts cuts' (some flaw) (some flaw')

/-- Behind the same characters, what ends alike ends in the same reply. -/
theorem Alike.endingAt_eq {chars : List Char} {cuts cuts' : List Cut} {flaw?' : Option Flaw}
    (he : Alike chars chars cuts cuts' flaw? flaw?') (source : String) (start stop : Position) :
    endingAt source (start.advanceAll (slices cuts')) stop flaw?' =
      endingAt source (start.advanceAll (slices cuts)) stop flaw? := by
  cases he with
  | done => rfl
  | flawed _ hfault hcovered hread hread' =>
      simp only [endingAt, Flaw.error, ← Position.advanceAll_append, ← List.append_assoc, hread,
        hread', hfault, hcovered]

theorem Alike.more {chunk chars chars' held held' : List Char} {cut cut' cuts cuts' : List Cut}
    {flaw?' : Option Flaw} (he : Alike held held' cuts cuts' flaw? flaw?')
    (hcut : slices cut ++ held = chars ++ chunk) (hcut' : slices cut' ++ held' = chars' ++ chunk) :
    Alike chars chars' (cut ++ cuts) (cut' ++ cuts') flaw? flaw?' := by
  cases he with
  | done => exact .done
  | @flawed flaw flaw' read hfault hcovered hread hread' =>
      refine .flawed (chunk ++ read) hfault hcovered ?_ ?_
      · rw [slices_append, List.append_assoc, hread, ← List.append_assoc, hcut, List.append_assoc]
      · rw [slices_append, List.append_assoc, hread', ← List.append_assoc, hcut',
          List.append_assoc]

/-- **What a run without transparent blocks cuts off, a run with them cuts off as reported**, and
both end alike.  By induction on the first run; the two hold back the same text, in the same raw
block, for different characters. -/
theorem LexesTo.transparent [Limits] {t u : String} (hu : u ∉ p.rawFunctions) (ho : h.Opened p)
    (hl : LexesTo (p.showing u) h rest cuts flaw?) (chars : List Char) :
    ∃ cuts' flaw?', LexesTo (p.showing t) { h with chars } rest cuts' flaw?' ∧
      cuts'.map Cut.token = (cuts.map Cut.token).flatMap (Token.reported (p.showing t)) ∧
      Alike h.chars chars cuts cuts' flaw? flaw?' := by
  induction hl generalizing chars with
  | @done h hs =>
      exact ⟨_, none, .done (h := { h with chars }) hs, h.map_token_closed_showing hu ho, .done⟩
  | @cutOff h construct rest hs hb hc =>
      exact ⟨_, _, .cutOff (h := { h with chars }) hs hb (hc.showing t), rfl,
        .flawed [] rfl rfl (by simp) (by simp)⟩
  | @unclosed h name chunk body list hs hb hp hno =>
      refine ⟨_, _, .unclosed (h := { h with chars }) hs hb (hp.showing t) hno, ?_,
        .flawed [] rfl rfl ?_ ?_⟩
      · exact (h.map_token_flushed chars).trans h.flatMap_reported_flushed.symm
      · rw [h.slices_flushed, List.append_nil]
      · exact (Held.slices_flushed { h with chars }).trans (List.append_nil _).symm
  | @mismatched h fault before rest hb hm =>
      exact ⟨_, _, .mismatched (h := { h with chars }) hb (hm.showing t), rfl,
        .flawed _ rfl rfl rfl rfl⟩
  | @more h chunk after e cuts flaw? hp _ ih =>
      have hp' : Piece p h.openName? chunk after e := hp.showing p.transparent
      obtain ⟨held, hperform⟩ := h.perform_showing p t u chars chunk e
      obtain ⟨cuts', flaw?', hl', htokens, halike⟩ := ih (ho.perform hp' _) held
      rw [← hperform] at hl'
      refine ⟨_, flaw?', .more (h := { h with chars }) (hp.showing t) hl', ?_, ?_⟩
      · rw [List.map_append, List.map_append, List.flatMap_append, htokens,
          h.map_token_cuts_showing hu ho hp']
      · refine halike.more (h.slices_cuts (p.showing u) chunk e) ?_
        have hslices := Held.slices_cuts { h with chars } (p.showing t) chunk e
        rwa [hperform] at hslices

namespace Lexer

/-- **Transparency changes only how raw blocks are reported.**  Let no raw directive be called `u`.
For every source, the run that shows the blocks of `t` as text and the run that shows none deliver
the same tokens, but for the blocks of `t`: in the first run they are text, and nothing where they
are empty.  Both runs end in the same end of input or in the same error. -/
theorem runs_transparent [Limits] {u : String} (hu : u ∉ p.rawFunctions) (t source : String) :
    ∃ tokens plain ending m m',
      (ofSource source (p.showing t)).Runs tokens ending m ∧
        (ofSource source (p.showing u)).Runs plain ending m' ∧
        tokens.map (·.value) =
          (plain.map (·.value)).flatMap (Token.reported (p.showing t)) := by
  obtain ⟨cuts, flaw?, hl⟩ := exists_lexesTo (p.showing u) source.toList
  have hopened : ({} : Held).Opened p := fun name args hblock => by cases hblock
  obtain ⟨cuts', flaw?', hl', htokens, halike⟩ := hl.transparent (t := t) hu hopened []
  obtain ⟨m', hrun⟩ := runs_ofSource_iff.mpr ⟨cuts, flaw?, hl, rfl, rfl⟩
  obtain ⟨m, hrun'⟩ := runs_ofSource_iff.mpr ⟨cuts', flaw?', hl', rfl, rfl⟩
  rw [halike.endingAt_eq] at hrun'
  refine ⟨_, _, _, m, m', hrun', hrun, ?_⟩
  rw [map_value_place, map_value_place, htokens]

/-- The empty name is that of no raw directive, so under it no block is transparent. -/
theorem runs_transparent_verbatim : "" ∉ ({} : Preferences).rawFunctions ∧
    ∃ tokens plain ending m m',
      (ofSource "a@verbatim b @endverbatim@js c @endjs"
          (({} : Preferences).showing "verbatim")).Runs tokens ending m ∧
        (ofSource "a@verbatim b @endverbatim@js c @endjs"
          (({} : Preferences).showing "")).Runs plain ending m' ∧
        tokens.map (·.value) =
          (plain.map (·.value)).flatMap (Token.reported (({} : Preferences).showing "verbatim")) :=
  ⟨by decide, runs_transparent (by decide) "verbatim" "a@verbatim b @endverbatim@js c @endjs"⟩

end Lexer

end Blade
