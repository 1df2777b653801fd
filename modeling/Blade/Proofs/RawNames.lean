import Blade.Limits.Development
import Blade.Proofs.ArgumentGrammar
import Blade.Proofs.Lockstep
import Blade.Proofs.RawBody
import Blade.Settings.Basic

/-!
# Proofs — RawNames

The check of the raw directive names refuses those that can never be read, and no others.

What stands behind an `@` is read as far as there are ASCII letters, so a name with anything else in
it, or with nothing, is never asked for.  A name that the check accepts is read as a whole wherever
it stands behind an `@` and does not go on, and opens its block there.

* `neutral_reduced`: lexing does not notice when the names that the check refuses are left out.
* `listInOrder_iff`: what follows a name is in order exactly when it is read without an error.
* `LexesTo.starts_with_rawFunction`: an open raw block, unless transparent, is the next token.
* `Lexer.raw_names`: both for a lexer, from any source.
-/

namespace Blade

/-! ### Names that are refused -/

/-- The check accepts the preferences in which every raw name is one that a directive can have. -/
theorem validate_eq_ok_iff {p : Preferences} :
    p.validate = .ok () ↔ ∀ name ∈ p.rawFunctions, Preferences.isDirectiveName name = true := by
  have hnone : p.invalidName? = none ↔
      ∀ name ∈ p.rawFunctions, Preferences.isDirectiveName name = true := by
    simp [Preferences.invalidName?, List.find?_eq_none]
  rw [← hnone, Preferences.validate]
  cases p.invalidName? with
  | none => simp
  | some name => simp

/-- The preferences with those raw names only that the check accepts. -/
def Preferences.reduced (p : Preferences) : Preferences :=
  { p with rawFunctions := p.rawFunctions.filter isDirectiveName }

theorem validate_reduced (p : Preferences) : p.reduced.validate = .ok () := by
  refine validate_eq_ok_iff.mpr ?_
  intro name hname
  exact (List.mem_filter.mp hname).2

/-- **Lexing does not notice when the refused names are left out.** -/
theorem neutral_reduced : Neutral Preferences.reduced id where
  strict _ := rfl
  isTransparent _ _ := rfl
  isRawFunction p {name} hname := by
    rw [Bool.eq_iff_iff, Preferences.isRawFunction, Preferences.isRawFunction,
      List.contains_iff_mem, List.contains_iff_mem, Preferences.reduced, List.mem_filter]
    exact ⟨fun h => h.1, fun h => ⟨h, hname⟩⟩
  count _ _ _ := rfl
  noteDepth _ _ := rfl

/-! ### Names that are accepted -/

section
variable [Limits]

/-- What follows the name of a raw directive is in order: no argument list, or a list within the
limit that is closed or that the end of input cuts off. -/
inductive ListInOrder : List Char → Prop where
  | absent {cs : List Char} : ¬ OpensList Lexer.isInlineBlank cs → ListInOrder cs
  | closed {blanks w after : List Char} {n : Nat} :
      (∀ c ∈ blanks, Lexer.isInlineBlank c) → ArgumentText n w → n ≤ Limits.bracketDepth - 1 →
        ListInOrder (blanks ++ '(' :: (w ++ ')' :: after))
  | cut {blanks w more : List Char} {n : Nat} :
      (∀ c ∈ blanks, Lexer.isInlineBlank c) → ArgumentText n (w ++ more) →
        n ≤ Limits.bracketDepth - 1 → ListInOrder (blanks ++ '(' :: w)

/-- The start of a list is read as far as it goes. -/
theorem Closes.exists_runsOut {w more : List Char} {list : ArgumentList}
    (h : Closes (w ++ more) list) : ∃ list', RunsOut w list' := by
  obtain ⟨s, hread, -, -⟩ := h
  rw [ArgumentScan.feedAll?_append] at hread
  obtain ⟨s', hw, -⟩ := Option.bind_eq_some_iff.mp hread
  exact ⟨_, s', hw, rfl⟩

/-- **What follows a name is in order exactly when it is read** without an error. -/
theorem listInOrder_iff {cs : List Char} :
    ListInOrder cs ↔ ∃ chunk after list, cs = chunk ++ after ∧
      ListRead false Lexer.isInlineBlank chunk after list := by
  constructor
  · intro h
    cases h with
    | absent hno => exact ⟨[], cs, none, rfl, .absent hno⟩
    | @closed blanks w after n hb ht hn =>
        obtain ⟨list, hlist⟩ := ht.exists_closes (Nat.lt_of_le_pred Limits.bracketDepth_pos hn)
        exact ⟨_, after, some list, by simp, .closed hb hlist⟩
    | @cut blanks w more n hb ht hn =>
        obtain ⟨list, hlist⟩ := ht.exists_closes (Nat.lt_of_le_pred Limits.bracketDepth_pos hn)
        obtain ⟨list', hout⟩ := hlist.exists_runsOut
        exact ⟨_, [], some list', (List.append_nil _).symm, .cut rfl hb hout⟩
  · rintro ⟨chunk, after, list, rfl, hl⟩
    cases hl with
    | absent hno => exact .absent hno
    | @closed blanks w after list hb hc =>
        obtain ⟨n, ht, hn, hle⟩ := hc.argumentText
        rw [hn] at hle
        rw [List.append_assoc, List.cons_append, List.append_assoc]
        exact .closed hb ht (Nat.le_sub_one_of_lt hle)
    | @cut blanks w list _ hb hc =>
        obtain ⟨n, more, ht, hn, hle⟩ := hc.exists_completion
        rw [hn] at hle
        rw [List.append_nil]
        exact .cut hb ht (Nat.le_sub_one_of_lt hle)

end

variable {p : Preferences} {h : Held} {rest : List Char} {cuts : List Cut} {flaw? : Option Flaw}

theorem Held.closed_rawFunction {name : String} {args : Option (List String)}
    (hb : h.block = some (name, args)) (ht : p.isTransparent name = false) :
    h.closed p = [⟨.rawFunction name args (String.ofList h.text), h.chars⟩] := by
  simp [Held.closed, hb, ht]

/-- **An open raw block is the next token**, wherever it ends, unless it is transparent. -/
theorem LexesTo.starts_with_rawFunction [Limits] {name : String} {args : Option (List String)}
    (hl : LexesTo p h rest cuts flaw?) (hb : h.block = some (name, args))
    (ht : p.isTransparent name = false) :
    ∃ content slice more, cuts = ⟨.rawFunction name args content, slice⟩ :: more := by
  induction hl with
  | done _ => exact ⟨_, _, [], Held.closed_rawFunction hb ht⟩
  | cutOff _ hnone _ =>
      rw [hnone] at hb
      cases hb
  | unclosed _ hnone _ _ =>
      rw [hnone] at hb
      cases hb
  | mismatched hnone _ =>
      rw [hnone] at hb
      cases hb
  | @more h chunk after e cuts flaw? hp _ ih =>
      cases e with
      | hold value => exact ih hb
      | token token list =>
          have hnone := Held.openName?_eq_none_iff.mp hp.block_of_token
          rw [hnone] at hb
          cases hb
      | enter name' list =>
          have hnone := Held.openName?_eq_none_iff.mp hp.block_of_enter
          rw [hnone] at hb
          cases hb
      | leave =>
          have hleave := Held.closed_rawFunction (h := { h with chars := h.chars ++ chunk }) hb ht
          rw [Held.cuts, hleave]
          exact ⟨_, _, cuts, rfl⟩

namespace Lexer

section
variable [Limits]

/-- A run delivers its first token to the first pull. -/
theorem Runs.next_eq {l m : Lexer} {token : LocatedToken} {tokens : List LocatedToken}
    {ending : Except LexError LocatedToken} (hr : l.Runs (token :: tokens) ending m) :
    ∃ l', l.next = (.ok token, l') := by
  cases hr with
  | more hn _ _ => exact ⟨_, hn⟩

/-- **A raw name opens its block** wherever it stands behind an `@` and does not go on, when what
follows it is in order. -/
theorem next_rawFunction {name rest : String} (hname : Preferences.isDirectiveName name = true)
    (hraw : p.isRawFunction name = true) (ht : p.isTransparent name = false)
    (hs : p.strict = false) (hstop : StopsAt Text.isAsciiLetter rest.toList)
    (hlist : ListInOrder rest.toList) :
    ∃ args content span l', (ofSource ("@" ++ name ++ rest) p).next =
      (.ok ⟨.rawFunction name args content, span⟩, l') := by
  obtain ⟨chunk, after, list, hrest, hread⟩ := listInOrder_iff.mp hlist
  have hpiece : Piece p none ('@' :: (name.toList ++ chunk)) after (.enter name.toList list) := by
    refine .enter ?_ ?_ ?_
    · obtain ⟨hne, hletters⟩ := isDirectiveName_iff.mp hname
      exact ⟨hne, hletters, hrest ▸ hstop⟩
    · rwa [String.ofList_toList]
    · rwa [hs]
  let opened : Held := Held.perform {} p ('@' :: (name.toList ++ chunk)) (.enter name.toList list)
  have hblock : opened.block = some (name, list.map ArgumentList.args) := by
    simp [opened, Held.perform]
  obtain ⟨cuts, flaw?, hbody⟩ : ∃ cuts flaw?, LexesTo p opened after cuts flaw? := by
    rcases cutUp p opened after with hl | ⟨_, _, _, hstrict, _⟩
    · exact hl
    · rw [hs] at hstrict
      cases hstrict
  obtain ⟨content, slice, more, rfl⟩ := hbody.starts_with_rawFunction hblock ht
  have hlex := LexesTo.more (h := {}) hpiece hbody
  have hsource : ("@" ++ name ++ rest).toList = '@' :: (name.toList ++ chunk) ++ after := by
    simp [hrest]
  rw [← hsource] at hlex
  obtain ⟨m, hrun⟩ := runs_ofSource_iff.mpr ⟨_, flaw?, hlex, rfl, rfl⟩
  obtain ⟨l', hnext⟩ := hrun.next_eq
  exact ⟨_, content, _, l', hnext⟩

/-- **The check refuses exactly the raw names that can never be read.**  It accepts some names if it
accepts each of them.  Without the names that it refuses a lexer replies the same to all calls, and
is in the same state after them but for its preferences; and a raw name that it accepts, read at the
start of a source, is delivered as the first token. -/
theorem raw_names (p : Preferences) :
    (p.validate = .ok () ↔ ∀ name ∈ p.rawFunctions, Preferences.isDirectiveName name = true) ∧
      (p.reduced.validate = .ok () ∧ ∀ source calls,
        (ofSource source p.reduced).replies calls = (ofSource source p).replies calls ∧
          (ofSource source p.reduced).after calls =
            ((ofSource source p).after calls).map Preferences.reduced id) ∧
      ∀ name ∈ p.rawFunctions, Preferences.isDirectiveName name = true →
        p.transparent ≠ name → p.strict = false →
          ∀ rest : String, StopsAt Text.isAsciiLetter rest.toList → ListInOrder rest.toList →
            ∃ args content span l', (ofSource ("@" ++ name ++ rest) p).next =
              (.ok ⟨.rawFunction name args content, span⟩, l') := by
  refine ⟨validate_eq_ok_iff, ⟨validate_reduced p, ?_⟩, ?_⟩
  · intro source calls
    exact ⟨neutral_reduced.replies (ofSource source p) calls,
      neutral_reduced.after (ofSource source p) calls⟩
  · intro name hmem hname htransparent hs rest hstop hlist
    have ht : p.isTransparent name = false := by
      rw [Preferences.isTransparent, beq_eq_false_iff_ne]
      exact htransparent
    exact next_rawFunction hname (List.contains_iff_mem.mpr hmem) ht hs hstop hlist

end

/-- A list that the end of input cuts off is in order, and all of it belongs to the block. -/
theorem raw_names_cut :
    (⟨["a b", "js"], "verbatim", false, true⟩ : Preferences).reduced.rawFunctions = ["js"] ∧
      StopsAt Text.isAsciiLetter " ([x".toList ∧ ListInOrder " ([x".toList ∧
      ∃ args content span l',
        (ofSource ("@" ++ "js" ++ " ([x") ⟨["a b", "js"], "verbatim", false, true⟩).next =
          (.ok ⟨.rawFunction "js" args content, span⟩, l') := by
  have hstop : StopsAt Text.isAsciiLetter " ([x".toList :=
    (stopsAt_cons _ _ _).mpr (by decide)
  have hinside : ArgumentText 1 ("[x".toList ++ [']']) :=
    .bracketed .nil rfl (.char .nil rfl rfl rfl)
  have hlist : ListInOrder ([' '] ++ '(' :: "[x".toList) :=
    .cut (List.forall_mem_singleton.mpr rfl) hinside (by decide)
  exact ⟨by decide, hstop, hlist,
    (raw_names ⟨["a b", "js"], "verbatim", false, true⟩).2.2 "js" (by decide) (by decide)
      (by decide) rfl " ([x" hstop hlist⟩

end Lexer

end Blade
