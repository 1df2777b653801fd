import Blade.Proofs.PrintedExpression
import Blade.Proofs.Tracking

/-!
# Proofs — Canonical

The form of the tokens that a lexer hands out.

* `Token.Canonical`: nothing is empty that can be left out, nothing has blank characters at its ends
  that mean nothing, and nothing holds what would have ended it.
* `upheld_canonical`: pieces make canonical tokens only.  In the body of a raw block this rests on
  what is held back: none of it ends the block (`Proper`).
* `delivered_canonical`: all tokens handed out are canonical, under any sequence of calls, and the
  end of input comes last.
-/

namespace Blade

/-! ### Canonical tokens -/

/-- The arguments of a directive have no blank characters at their ends. -/
def TrimmedArgs (args : Option (List String)) : Prop :=
  ∀ list ∈ args, ∀ a ∈ list, Text.Trimmed a.toList

/-- The form of a filter in an output expression that a terminator closes. -/
structure Filter.Canonical (terminator : List Char) (f : Filter) : Prop where
  name_ne_empty : f.name ≠ ""
  name_trimmed : Text.Trimmed f.name.toList
  name_no_colon : ':' ∉ f.name.toList
  name_open : ¬ terminator <:+: f.name.toList
  args_trimmed : ∀ a ∈ f.args, Text.Trimmed a.toList
  args_open : ∀ a ∈ f.args, ¬ terminator <:+: a.toList

/-- The form of a token. -/
def Token.Canonical (p : Preferences) : Token → Prop
  | .text value => value ≠ ""
  | .comment value => ¬ commentTerminator <:+: value.toList
  | .data escaped value filters =>
      Text.Trimmed value.toList ∧ ¬ Lexer.terminator escaped <:+: value.toList ∧
        filters ≠ some [] ∧ ∀ list ∈ filters, ∀ f ∈ list, f.Canonical (Lexer.terminator escaped)
  | .function name args =>
      name ≠ "" ∧ (∀ c ∈ name.toList, Text.isAsciiLetter c) ∧ name ∉ p.rawFunctions ∧
        TrimmedArgs args
  | .rawFunction name args content =>
      name ∈ p.rawFunctions ∧ name ≠ p.transparent ∧ ¬ HoldsEnd name content.toList ∧
        TrimmedArgs args
  | .eof => True

/-! ### Argument lists -/

theorem trimmed_finish [Limits] {s : ArgumentScan} {w : List Char} {terminated : Bool}
    (hw : ArgumentScan.feedAll? {} w = some s) :
    ∀ a ∈ (s.finish terminated).args, Text.Trimmed a.toList := by
  have hsorted : s.Sorted := ArgumentScan.Sorted.feedAll? ⟨by simp, rfl⟩ hw
  rw [ArgumentScan.args_finish]
  intro a ha
  rcases List.mem_append.mp (mem_of_mem_withoutEmptyLast ha) with ha | ha
  · exact (hsorted.args a ha).2
  · rw [List.mem_singleton.mp ha, Text.toList_trim]
    exact Text.trimmed_trimChars _

theorem trimmedArgs_of_listRead [Limits] {strict : Bool} {gap : Char → Bool}
    {chunk after : List Char} {list : Option ArgumentList} (hl : ListRead strict gap chunk after list) :
    TrimmedArgs (list.map ArgumentList.args) := by
  cases hl with
  | absent => exact nofun
  | closed _ hc =>
      obtain ⟨s, hw, -, rfl⟩ := hc
      intro args hargs
      rw [Option.map_some, Option.mem_some_iff] at hargs
      rw [← hargs]
      exact trimmed_finish hw
  | cut _ _ hc =>
      obtain ⟨s, hw, rfl⟩ := hc
      intro args hargs
      rw [Option.map_some, Option.mem_some_iff] at hargs
      rw [← hargs]
      exact trimmed_finish hw

/-! ### Output expressions -/

/-- What is enclosed does not hold its terminator. -/
theorem Enclosed.not_infix {strict : Bool} {terminator chunk after interior : List Char}
    (ht : terminator ≠ []) (he : Enclosed strict terminator chunk after interior) :
    ¬ terminator <:+: interior := by
  cases he with
  | closed hfree => exact hfree.not_infix ht
  | cut _ hno => exact hno

theorem canonical_of_parse? {terminator segment : List Char} {f : Filter}
    (h : Filter.parse? segment = some f) (hopen : ¬ terminator <:+: segment) :
    f.Canonical terminator := by
  rcases parse?_cases h with ⟨hcolon, hne, rfl⟩ | ⟨before, after, pieces, rfl, hcolon, hsplits, hne,
    rfl⟩
  · refine ⟨by simpa using hne, ?_, ?_, ?_, by simp, by simp⟩
    · simpa using Text.trimmed_trimChars segment
    · simpa using not_mem_trimChars hcolon
    · rw [String.toList_ofList]
      exact fun hin => hopen (hin.trans (Text.trimChars_infix segment))
  · have hbefore : before <:+: before ++ ':' :: after := (List.prefix_append before _).isInfix
    have hafter : after <:+: before ++ ':' :: after :=
      ((List.suffix_cons ':' after).trans (List.suffix_append before _)).isInfix
    refine ⟨by simpa using hne, ?_, ?_, ?_, fun a ha => ?_, fun a ha hin => hopen ?_⟩
    · simpa using Text.trimmed_trimChars before
    · simpa using not_mem_trimChars hcolon
    · rw [String.toList_ofList]
      exact fun hin => hopen ((hin.trans (Text.trimChars_infix before)).trans hbefore)
    · obtain ⟨piece, hpiece, rfl⟩ := List.mem_map.mp ha
      rw [String.toList_ofList]
      exact trimmed_of_mem_dropEmptyLast hpiece
    · obtain ⟨trimmed, htrimmed, rfl⟩ := List.mem_map.mp ha
      obtain ⟨piece, hpiece, rfl⟩ := List.mem_map.mp (mem_of_mem_dropEmptyLast htrimmed)
      rw [String.toList_ofList] at hin
      exact ((hin.trans (Text.trimChars_infix piece)).trans (hsplits.infix_of_mem piece hpiece)).trans
        hafter

theorem filtersOf_ne_some_nil (filters : List Filter) : filtersOf filters ≠ some [] := by
  cases filters <;> simp [filtersOf]

theorem mem_of_mem_filtersOf {filters list : List Filter} (h : list ∈ filtersOf filters) :
    list = filters := by
  cases filters with
  | nil => cases h
  | cons f filters => exact (Option.some.inj h).symm

theorem canonical_dataToken {p : Preferences} {escaped : Bool} {interior : List Char}
    (hopen : ¬ Lexer.terminator escaped <:+: interior) : (dataToken escaped interior).Canonical p := by
  obtain ⟨first, others, hsplits⟩ := exists_segments (String.ofList interior)
  have hinside := hsplits.infix_of_mem
  rw [String.toList_ofList, List.forall_mem_cons] at hinside
  rw [dataToken, parse_of_barSplits hsplits]
  refine ⟨?_, ?_, filtersOf_ne_some_nil _, fun list hlist f hf => ?_⟩
  · rw [String.toList_ofList]
    exact Text.trimmed_trimChars first
  · rw [String.toList_ofList]
    exact fun hin => hopen ((hin.trans (Text.trimChars_infix first)).trans hinside.1)
  · rw [mem_of_mem_filtersOf hlist] at hf
    obtain ⟨segment, hsegment, hparse⟩ := List.mem_filterMap.mp hf
    exact canonical_of_parse? hparse fun hin => hopen (hin.trans (hinside.2 segment hsegment))

/-! ### Pieces -/

variable {p : Preferences} {h : Held} {chunk after rest : List Char} {e : Effect}

theorem canonical_of_piece [Limits] {block : Option String} {token : Token}
    {list : Option ArgumentList} (hp : Piece p block chunk after (.token token list)) : token.Canonical p := by
  cases hp with
  | comment he =>
      rw [Token.Canonical, String.toList_ofList]
      exact he.not_infix (by decide)
  | data he _ => exact canonical_dataToken (he.not_infix (terminator_ne_nil _))
  | @function name _ _ _ hn hraw hl =>
      refine ⟨by simpa using hn.1, by simpa using hn.2.1, ?_, trimmedArgs_of_listRead hl⟩
      rw [Preferences.isRawFunction] at hraw
      simpa using hraw

/-- A piece of a body holds back what it is, in front of less too. -/
theorem Piece.hold_prefix [Limits] {block : String} {value tail : List Char}
    (hp : Piece p (some block) chunk after (.hold value)) (ht : tail <+: after) :
    value = chunk ∧ Piece p (some block) chunk tail (.hold value) := by
  obtain ⟨rest, rfl⟩ := ht
  cases hp with
  | body hc => exact ⟨rfl, .body hc⟩
  | lone hs => exact ⟨rfl, .lone hs.left⟩
  | other hn hne => exact ⟨rfl, .other ⟨hn.1, hn.2.1, hn.2.2.left⟩ hne⟩

/-- An open raw block is one of the raw blocks, its arguments are trimmed, and what is held back of
its body does not end it. -/
def Proper (p : Preferences) (h : Held) (rest : List Char) : Prop :=
  ∀ name args, h.block = some (name, args) → name ∈ p.rawFunctions ∧ TrimmedArgs args ∧
    ∀ tail, tail <+: rest → (HoldsEnd name (h.text ++ tail) ↔ HoldsEnd name tail)

theorem proper_of_none (hb : h.block = none) : Proper p h rest := by
  intro name args hsome
  rw [hb] at hsome
  cases hsome

theorem proper_hold [Limits] {value : List Char} (hk : Proper p h (chunk ++ after))
    (hp : Piece p h.openName? chunk after (.hold value)) :
    Proper p (h.perform p chunk (.hold value)) after := by
  intro name args hb
  change h.block = some (name, args) at hb
  obtain ⟨hraw, hargs, hend⟩ := hk name args hb
  rw [Held.openName?, hb] at hp
  refine ⟨hraw, hargs, fun tail ht => ?_⟩
  obtain ⟨rfl, hp'⟩ := hp.hold_prefix ht
  have hbefore := hend (value ++ tail) ((List.prefix_append_right_inj value).mpr ht)
  rw [← List.append_assoc] at hbefore
  exact hbefore.trans (holdsEnd_hold_iff hp')

theorem proper_enter [Limits] {name : List Char} {list : Option ArgumentList}
    (hp : Piece p h.openName? chunk after (.enter name list)) :
    Proper p (h.perform p chunk (.enter name list)) after := by
  intro name' args hb
  simp only [Held.perform, Option.some.injEq, Prod.mk.injEq] at hb
  obtain ⟨rfl, rfl⟩ := hb
  generalize h.openName? = block at hp
  cases hp with
  | enter _ hraw hl =>
      rw [Preferences.isRawFunction, List.contains_iff_mem] at hraw
      exact ⟨hraw, trimmedArgs_of_listRead hl, fun _ _ => Iff.rfl⟩

theorem canonical_flushed (h : Held) : ∀ cut ∈ h.flushed, cut.token.Canonical p := by
  unfold Held.flushed
  split
  · exact List.forall_mem_nil _
  · next ht => exact List.forall_mem_singleton.mpr (by simpa [Token.Canonical] using ht)

theorem canonical_closed (hk : Proper p h rest) :
    ∀ cut ∈ h.closed p, cut.token.Canonical p := by
  unfold Held.closed
  split
  · next name args hb =>
      split
      · exact canonical_flushed h
      · next ht =>
          obtain ⟨hraw, hargs, hend⟩ := hk name args hb
          refine List.forall_mem_singleton.mpr ⟨hraw, ?_, ?_, hargs⟩
          · rw [Preferences.isTransparent, beq_iff_eq] at ht
            exact Ne.symm ht
          · have hbody := hend [] (List.nil_prefix)
            rw [List.append_nil] at hbody
            rw [String.toList_ofList]
            exact hbody.not.mpr (not_holdsEnd_nil name)
  · exact canonical_flushed h

variable [Limits]

/-- **Pieces make canonical tokens only.** -/
theorem upheld_canonical (p : Preferences) : Upheld p (Proper p) (Token.Canonical p) where
  perform {h chunk after e} hk hp := by
    cases e with
    | hold value => exact proper_hold hk hp
    | token token list => exact proper_of_none (Held.openName?_eq_none_iff.mp hp.block_of_token)
    | enter name list => exact proper_enter hp
    | leave => exact proper_of_none rfl
  cuts {h chunk after e} hk hp := by
    cases e with
    | hold value => exact List.forall_mem_nil _
    | token token list =>
        exact List.forall_mem_append.mpr
          ⟨canonical_flushed h, List.forall_mem_singleton.mpr (canonical_of_piece hp)⟩
    | enter name list => exact canonical_flushed h
    | leave =>
        have hk' : Proper p { h with chars := h.chars ++ chunk } (chunk ++ after) := hk
        exact canonical_closed hk'
  flushed _ := canonical_flushed _
  closed hk := canonical_closed hk
  eof := trivial

/-- **Every token handed out is canonical**, under any sequence of calls, and the end of input is
handed out after all other tokens. -/
theorem delivered_canonical (source : String) (p : Preferences) (calls : List Call) :
    (∀ r ∈ (Lexer.ofSource source p).replies calls, ∀ t ∈ r.delivered, t.value.Canonical p) ∧
      EofLast (((Lexer.ofSource source p).replies calls).flatMap Reply.delivered) := by
  constructor
  · intro r hr t ht
    exact ((upheld_canonical p).replies (proper_of_none rfl) calls r hr).1 t ht |>.1
  · have hlast : (Lexer.ofSource source p).EndLast :=
      ⟨Lexer.reached_sound .start, by simp [Lexer.ofSource]⟩
    exact hlast.replies calls

end Blade
