import Blade.Limits.Development
import Blade.Proofs.Outcome

/-!
# Proofs — Appending

How far lexing looks ahead.  A piece reads as it does because of the characters it takes and a few
behind them, so with more text behind the source nearly all pieces stay as they are.

* `Piece.settled_or_openerFree`: a piece stays one in front of whatever is appended, unless neither
  an `@` nor a `{` follows it.
* `Lexes.append`: so a longer source is cut as before, but for the last two cuts.
* `Lexer.getElem?_of_append`: a token that two more follow is delivered as before, with the same
  index and span.
-/

namespace Blade

variable {p : Preferences} {h : Held} {block : Option String}
  {chunk after rest more : List Char} {e : Effect}

/-! ### One piece -/

/-- No directive, comment or output expression starts in `cs`. -/
def OpenerFree (cs : List Char) : Prop := '@' ∉ cs ∧ '\x7b' ∉ cs

theorem openerFree_nil : OpenerFree [] := ⟨List.not_mem_nil, List.not_mem_nil⟩

theorem OpenerFree.of_append {cs ds : List Char} (h : OpenerFree (cs ++ ds)) : OpenerFree ds :=
  ⟨fun hat => h.1 (List.mem_append_right cs hat),
    fun hbrace => h.2 (List.mem_append_right cs hbrace)⟩

/-- Blanks hold no opener. -/
theorem openerFree_of_forall {gap : Char → Bool} {cs : List Char} (hcs : ∀ c ∈ cs, gap c)
    (hat : gap '@' = false) (hbrace : gap '\x7b' = false) : OpenerFree cs := by
  constructor
  · intro hmem
    rw [hcs _ hmem] at hat
    cases hat
  · intro hmem
    rw [hcs _ hmem] at hbrace
    cases hbrace

/-- What encloses the inside of a construct stays, unless the end of input does. -/
theorem Enclosed.append {strict : Bool} {terminator interior : List Char}
    (he : Enclosed strict terminator chunk after interior) (more : List Char) :
    Enclosed strict terminator chunk (after ++ more) interior ∧ interior ++ terminator = chunk ∨
      after = [] := by
  cases he with
  | closed hfree => exact .inl ⟨.closed hfree, rfl⟩
  | cut => exact .inr rfl

/-- What is read for an argument list stays, unless the end of input follows the gap. -/
theorem ListRead.append [Limits] {strict : Bool} {gap : Char → Bool} {list : Option ArgumentList}
    (hl : ListRead strict gap chunk after list) :
    (chunk ++ after ≠ [] ∧ ∀ more, ListRead strict gap chunk (after ++ more) list) ∨
      ∀ c ∈ after, gap c := by
  cases hl with
  | absent hno =>
      by_cases hblank : after.dropWhile gap = []
      · exact .inr (List.dropWhile_eq_nil_iff.mp hblank)
      · refine .inl ⟨?_, fun more => .absent (not_opensList_append hno (absurd · hblank))⟩
        rintro rfl
        exact hblank rfl
  | closed hb hc => exact .inl ⟨by simp, fun more => .closed hb hc⟩
  | cut => exact .inr (List.forall_mem_nil _)

/-- Two braces, or a brace and `!!`, are seen within three characters. -/
theorem opensBraces_append {c : Char} (hno : ¬ OpensBraces c after) :
    (∀ more, ¬ OpensBraces c (after ++ more)) ∨ OpenerFree after := by
  match after with
  | [] => exact .inr openerFree_nil
  | ['!'] => exact .inr (by constructor <;> simp)
  | '!' :: '!' :: _ =>
      refine .inl fun more hopen => hno ⟨hopen.1, .inl (by simp)⟩
  | d :: d' :: rest =>
      refine .inl fun more hopen => hno ⟨hopen.1, ?_⟩
      simpa using hopen.2
  | [d] =>
      by_cases hd : d = '!'
      · subst hd
        exact .inr (by constructor <;> simp)
      · refine .inl fun more hopen => hno ⟨hopen.1, ?_⟩
        have hd' : '!' ≠ d := fun h => hd h.symm
        simpa [hd'] using hopen.2

theorem two_le_length_terminator (escaped : Bool) : 2 ≤ (Lexer.terminator escaped).length := by
  cases escaped <;> decide

section
variable [Limits]

/-- **A piece stays a piece when text is appended**, unless no opener follows it. -/
theorem Piece.settled_or_openerFree (hp : Piece p block chunk after e) :
    (∀ more, Piece p block chunk (after ++ more) e) ∨ OpenerFree after := by
  by_cases hnil : after = []
  · subst hnil
    exact .inr openerFree_nil
  cases hp with
  | plain hc hno =>
      exact (opensBraces_append hno).imp_left fun hsettled more => .plain hc (hsettled more)
  | escape hs hrun hstop =>
      refine .inl fun more => .escape ?_ hrun (hstop.append (absurd · hnil))
      rw [← List.append_assoc]
      exact hs.append (by simp [hnil])
  | comment he =>
      refine .inl fun more => .comment ?_
      exact ((he.append more).resolve_right hnil).1
  | @data escaped _ _ _ he hno =>
      refine .inl fun more => ?_
      obtain ⟨he', rfl⟩ := (he.append more).resolve_right hnil
      refine .data he' fun hescaped hpre => hno hescaped ?_
      -- the terminator alone is as long as what would make it a comment
      refine List.prefix_of_prefix_length_le hpre ?_ ?_
      · rw [← List.append_assoc]
        exact List.prefix_append _ more
      · simp only [List.length_append, List.length_cons, List.length_nil]
        exact by have := two_le_length_terminator escaped; omega
  | function hn hraw hl =>
      rcases hl.append with ⟨hne, hsettled⟩ | hblank
      · refine .inl fun more => .function ?_ hraw (hsettled more)
        rw [← List.append_assoc]
        exact hn.append (absurd · hne)
      · exact .inr (openerFree_of_forall hblank (by decide) (by decide))
  | enter hn hraw hl =>
      rcases hl.append with ⟨hne, hsettled⟩ | hblank
      · refine .inl fun more => .enter ?_ hraw (hsettled more)
        rw [← List.append_assoc]
        exact hn.append (absurd · hne)
      · exact .inr (openerFree_of_forall hblank (by decide) (by decide))
  | body hc => exact .inl fun more => .body hc
  | lone hs => exact .inl fun more => .lone (hs.append (absurd · hnil))
  | other hn hne => exact .inl fun more => .other (hn.append (absurd · hnil)) hne
  | leave hn hname => exact .inl fun more => .leave (hn.append (absurd · hnil)) hname

/-- Where no opener follows, everything is held back. -/
theorem Piece.hold_of_openerFree (hp : Piece p block chunk after e)
    (hfree : OpenerFree (chunk ++ after)) : ∃ value, e = .hold value := by
  cases hp with
  | plain | escape | body | lone | other => exact ⟨_, rfl⟩
  | comment => exact absurd hfree.2 (by simp [commentOpener])
  | @data escaped => exact absurd hfree.2 (by cases escaped <;> simp [dataOpener])
  | function | enter | leave => exact absurd hfree.1 (by simp)

/-- `cs` starts with a directive, a comment or an output expression. -/
inductive OpensConstruct : List Char → Prop where
  | directive {c : Char} {cs : List Char} : Text.isAsciiLetter c → OpensConstruct ('@' :: c :: cs)
  | braces {c : Char} {cs : List Char} : OpensBraces c cs → OpensConstruct (c :: cs)

/-- A token starts so, whatever follows it. -/
theorem Piece.opensConstruct {token : Token} {list : Option ArgumentList}
    (hp : Piece p block chunk after (.token token list)) (more : List Char) :
    OpensConstruct (chunk ++ more) := by
  cases hp with
  | comment => exact .braces ⟨rfl, .inr (by simp)⟩
  | @data escaped =>
      cases escaped with
      | true => exact .braces ⟨rfl, .inr (by simp)⟩
      | false => exact .braces ⟨rfl, .inl (by simp)⟩
  | @function name chunk _ _ hn =>
      obtain ⟨c, letters, rfl⟩ := List.exists_cons_of_ne_nil hn.1
      exact .directive (hn.2.1 c List.mem_cons_self)

/-- Nothing that starts so is held back. -/
theorem OpensConstruct.not_hold {value : List Char} (ho : OpensConstruct (chunk ++ after)) :
    ¬ Piece p none chunk after (.hold value) := by
  intro hp
  cases hp with
  | plain hat hbraces =>
      cases ho with
      | directive => exact hat rfl
      | braces hopen => exact hbraces hopen
  | escape hs =>
      rw [List.cons_append] at ho
      generalize value ++ after = cs at ho hs
      cases ho with
      | directive hc => simp [hc] at hs
      | braces hopen => exact absurd hopen.1 (by decide)

end

/-! ### The whole source -/

theorem Held.length_flushed_le (h : Held) : h.flushed.length ≤ 1 := by
  unfold Held.flushed
  split <;> simp

theorem Held.length_closed_le (h : Held) (p : Preferences) : (h.closed p).length ≤ 1 := by
  unfold Held.closed
  split
  · split
    · exact h.length_flushed_le
    · exact Nat.le_refl 1
  · exact h.length_flushed_le

section
variable [Limits]

/-- Where no opener follows, at most one token does. -/
theorem Lexes.length_le_of_openerFree {cuts : List Cut} {tail : List Char}
    (hl : Lexes p h rest cuts tail) (hfree : OpenerFree rest) : cuts.length ≤ 1 := by
  induction hl with
  | @done h _ => exact h.length_closed_le p
  | more hp _ ih =>
      obtain ⟨value, rfl⟩ := hp.hold_of_openerFree hfree
      exact ih hfree.of_append

/-- Default termination cuts every source. -/
theorem exists_lexesTo_of_lenient (hs : p.strict = false) (h : Held) (rest : List Char) :
    ∃ cuts flaw?, LexesTo p h rest cuts flaw? := by
  rcases cutUp p h rest with hl | ⟨block, args, -, hstrict, -⟩
  · exact hl
  · rw [hs] at hstrict
    cases hstrict

/-- **The text before a construct is cut off**, if the source is read to its end. -/
theorem LexesTo.flushed_prefix {cuts : List Cut} (hb : h.block = none) (ho : OpensConstruct rest)
    (hl : LexesTo p h rest cuts none) : h.flushed <+: cuts := by
  cases hl with
  | done => cases ho
  | @more _ chunk after e cuts _ hp _ =>
      rw [Held.openName?_eq_none_iff.mpr hb] at hp
      cases e with
      | hold value => exact absurd hp ho.not_hold
      | token token list =>
          rw [Held.cuts, List.append_assoc]
          exact List.prefix_append _ _
      | enter name list => exact List.prefix_append _ _
      | leave => cases hp

/-- All of `cuts` but the last two are cut off `rest` too, if `rest` has no flaw. -/
def CutAlike (p : Preferences) (h : Held) (rest : List Char) (cuts : List Cut) : Prop :=
  ∃ settled last cuts' flaw?, cuts = settled ++ last ∧ last.length ≤ 2 ∧
    LexesTo p h rest cuts' flaw? ∧ (flaw? = none → settled <+: cuts')

theorem cutAlike_of_length_le {cuts : List Cut} (hs : p.strict = false) (hlen : cuts.length ≤ 2) :
    CutAlike p h rest cuts := by
  obtain ⟨cuts', flaw?, hl⟩ := exists_lexesTo_of_lenient hs h rest
  exact ⟨[], cuts, cuts', flaw?, rfl, hlen, hl, fun _ => List.nil_prefix⟩

/-- The text before a token is settled, even where the token is not. -/
theorem cutAlike_token {cuts : List Cut} {token : Token} {list : Option ArgumentList}
    (hs : p.strict = false) (hp : Piece p h.openName? chunk after (.token token list))
    (hlen : cuts.length ≤ 1) (more : List Char) :
    CutAlike p h (chunk ++ after ++ more) (h.cuts p chunk (.token token list) ++ cuts) := by
  obtain ⟨cuts', flaw?, hl⟩ := exists_lexesTo_of_lenient hs h (chunk ++ after ++ more)
  refine ⟨h.flushed, ⟨token, h.kept ++ chunk⟩ :: cuts, cuts', flaw?, ?_, ?_, hl, ?_⟩
  · rw [Held.cuts, List.append_assoc, List.singleton_append]
  · exact Nat.succ_le_succ hlen
  · rintro rfl
    rw [List.append_assoc] at hl
    have hb := Held.openName?_eq_none_iff.mp hp.block_of_token
    exact hl.flushed_prefix hb (hp.opensConstruct _)

/-- **A longer source is cut as before, but for the last two cuts**: what they become depends on
the text that is appended. -/
theorem Lexes.append {cuts : List Cut} {tail : List Char} (hs : p.strict = false)
    (hl : Lexes p h rest cuts tail) (more : List Char) : CutAlike p h (rest ++ more) cuts := by
  induction hl with
  | @done h _ =>
      exact cutAlike_of_length_le hs ((h.length_closed_le p).trans (by decide))
  | @more h chunk after e cuts tail hp hlex ih =>
      rcases hp.settled_or_openerFree with hsettled | hfree
      · obtain ⟨settled, last, cuts', flaw?, rfl, hlast, hl', hpre⟩ := ih
        refine ⟨h.cuts p chunk e ++ settled, last, _, flaw?, by rw [List.append_assoc], hlast, ?_,
          fun hflaw => (List.prefix_append_right_inj _).mpr (hpre hflaw)⟩
        rw [List.append_assoc]
        exact .more (hsettled more) hl'
      · -- the piece may become another one; the rest holds at most one token
        have hrest := hlex.length_le_of_openerFree hfree
        cases e with
        | token token list => exact cutAlike_token hs hp hrest more
        | hold value => exact cutAlike_of_length_le hs (hrest.trans (by decide))
        | enter name list =>
            refine cutAlike_of_length_le hs ?_
            rw [List.length_append]
            exact Nat.add_le_add h.length_flushed_le hrest
        | leave =>
            refine cutAlike_of_length_le hs ?_
            rw [List.length_append]
            exact Nat.add_le_add (Held.length_closed_le _ p) hrest

end

namespace Lexer

section
variable [Limits]

/-- **Appending text does not disturb settled tokens.**  With default termination, where a source
and a longer one both come to the end of input, every token of the source that two more follow is a
token of the longer one, with the same index and the same span. -/
theorem getElem?_of_append {source appended : String} {tokens tokens' : List LocatedToken}
    {eof eof' t : LocatedToken} {i : Nat} (hs : p.strict = false)
    (hd : (ofSource source p).Drains tokens eof)
    (hd' : (ofSource (source ++ appended) p).Drains tokens' eof') (ht : tokens[i]? = some t)
    (hi : i + 2 < tokens.length) : tokens'[i]? = some t := by
  obtain ⟨cuts, tail, hlex, rfl, -⟩ := drains_ofSource_iff.mp hd
  obtain ⟨settled, last, cuts', flaw?, rfl, hlast, hlex', hpre⟩ := hlex.append hs appended.toList
  rw [← String.toList_append] at hlex'
  obtain ⟨m, hrun⟩ := runs_ofSource_iff.mpr ⟨cuts', flaw?, hlex', rfl, rfl⟩
  obtain ⟨m', hrun'⟩ := drains_iff_runs.mp hd'
  obtain ⟨rfl, hending, -⟩ := hrun.unique hrun'
  have hflaw : flaw? = none := by
    cases flaw? with
    | none => rfl
    | some flaw => cases hending
  obtain ⟨rest, rfl⟩ := hpre hflaw
  have hlt : i < (place .start settled).length := by
    rw [length_place, List.length_append] at hi
    rw [length_place]
    omega
  rw [place_append, List.getElem?_append_left hlt] at ht ⊢
  exact ht

/-- An output expression and a directive without a list, and a blank behind it. -/
theorem drains_data_directive_text :
    (ofSource "{{a}}@if " {}).Drains
      [⟨dataToken true ['a'], ⟨⟨0, 1, 1⟩, ⟨5, 1, 6⟩⟩⟩,
        ⟨.function "if" none, ⟨⟨5, 1, 6⟩, ⟨8, 1, 9⟩⟩⟩, ⟨.text " ", ⟨⟨8, 1, 9⟩, ⟨9, 1, 10⟩⟩⟩]
      (eofToken ⟨9, 1, 10⟩) := by
  have hdata : Piece {} none (dataOpener true ++ (['a'] ++ terminator true)) ['@', 'i', 'f', ' ']
      (.token (dataToken true ['a']) none) := by
    refine .data (.closed ⟨?_, trivial⟩) ?_ <;> decide
  have hname : NameBefore ['i', 'f'] ([] ++ [' ']) := by
    refine ⟨?_, ?_, ?_⟩ <;> simp [Text.isAsciiLetter]
  have hif : Piece {} none ('@' :: (['i', 'f'] ++ [])) [' '] (.token (.function "if" none) none) :=
    .function hname (by decide) (.absent (by simp [OpensList, Text.isBlank]))
  have hblank : Piece {} none [' '] [] (.hold [' ']) := .plain (by decide) (by simp [OpensBraces])
  have hend : Lexes {} { chars := [' '], text := [' '] } [] _ _ := .done (.inl rfl)
  have hlex := Lexes.more (h := {}) hdata (.more (h := {}) hif (.more (h := {}) hblank hend))
  exact drains_ofSource_iff.mpr ⟨_, _, hlex, rfl, rfl⟩

/-- With a list behind the blank, the directive takes both. -/
theorem drains_data_directive :
    (ofSource ("{{a}}@if " ++ "(b)") {}).Drains
      [⟨dataToken true ['a'], ⟨⟨0, 1, 1⟩, ⟨5, 1, 6⟩⟩⟩,
        ⟨.function "if" (some ["b"]), ⟨⟨5, 1, 6⟩, ⟨12, 1, 13⟩⟩⟩] (eofToken ⟨12, 1, 13⟩) := by
  have hdata : Piece {} none (dataOpener true ++ (['a'] ++ terminator true))
      ['@', 'i', 'f', ' ', '(', 'b', ')'] (.token (dataToken true ['a']) none) := by
    refine .data (.closed ⟨?_, trivial⟩) ?_ <;> decide
  have hname : NameBefore ['i', 'f'] (([' '] ++ '(' :: (['b'] ++ [')'])) ++ []) := by
    refine ⟨?_, ?_, ?_⟩ <;> simp [Text.isAsciiLetter]
  have hif : Piece {} none ('@' :: (['i', 'f'] ++ ([' '] ++ '(' :: (['b'] ++ [')'])))) [] _ :=
    .function hname (by decide) (.closed (by simp [Text.isBlank]) ⟨_, rfl, ⟨rfl, rfl⟩, rfl⟩)
  have hend : Lexes {} {} [] _ _ := .done (.inl rfl)
  have hlex := Lexes.more (h := {}) hdata (.more (h := {}) hif hend)
  exact drains_ofSource_iff.mpr ⟨_, _, hlex, rfl, rfl⟩

end

/-- There the output expression stays, the token that two more follow. -/
theorem getElem?_of_append_list :
    [⟨dataToken true ['a'], ⟨⟨0, 1, 1⟩, ⟨5, 1, 6⟩⟩⟩,
        (⟨.function "if" (some ["b"]), ⟨⟨5, 1, 6⟩, ⟨12, 1, 13⟩⟩⟩ : LocatedToken)][0]? =
      some ⟨dataToken true ['a'], ⟨⟨0, 1, 1⟩, ⟨5, 1, 6⟩⟩⟩ :=
  getElem?_of_append rfl drains_data_directive_text drains_data_directive rfl (by decide)

end Lexer

end Blade
