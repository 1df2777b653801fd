import Blade.Proofs.ArgumentGrammar
import Mathlib.Algebra.Ring.Parity

/-!
# Proofs — TopLevel

Where a text is cut at its separators: exactly at those that stand at the top level, outside all
strings and brackets.

What is outside is said of any text, also of one whose brackets do not match: the text before has
its strings closed, and no end of it has more opening than closing brackets, those in strings aside
(`NothingOpen`).  A closing bracket closes an opening one whatever its shape, and nothing where none is
open.

* `Nesting.walk_eq_empty_iff`: a walk ends where it started exactly if nothing is open behind the
  text.
* `ArgumentText.start_iff`: where nothing is open in a text of the grammar, the text before is such a
  text itself.
* `splitTop_cut_iff`, `splitBars_cut_iff`: where the pieces of a text meet.
* `cuts_at_top`: the pieces make up the text again, and it is cut exactly where it should be.
-/

namespace Blade

/-! ### Outside all strings and brackets -/

/-- Whether a character is an opening bracket. -/
def isOpener (c : Char) : Bool := (closer? c).isSome

/-- The characters of a text outside its strings, which are all closed. -/
inductive Unquoted : List Char → List Char → Prop where
  | nil : Unquoted [] []
  | char {w bare : List Char} {c : Char} :
      Unquoted w bare → isQuote c = false → Unquoted (w ++ [c]) (bare ++ [c])
  | quoted {w bare inside : List Char} {quote : Char} :
      Unquoted w bare → isQuote quote = true → QuotedText quote inside →
        Unquoted (w ++ quote :: (inside ++ [quote])) bare

/-- What follows the text stands outside all strings and brackets: the strings of the text are
closed, and in no end of what is outside of them are there more opening than closing brackets. -/
def NothingOpen (w : List Char) : Prop :=
  ∃ bare, Unquoted w bare ∧
    ∀ ending, ending <:+ bare → ending.countP isOpener ≤ ending.countP isCloser

variable {w x bare : List Char} {c sep : Char} {k m n : Nat}

/-- A text is of some string, or it is not in one: its last string is open, or none is. -/
inductive Quoting : Option QuotedString → List Char → Prop where
  | outside {w bare : List Char} : Unquoted w bare → Quoting none w
  | inside {w bare inside : List Char} {s : QuotedString} :
      Unquoted w bare → isQuote s.quote = true → OpenString s inside →
        Quoting (some s) (w ++ s.quote :: inside)

namespace Nesting

theorem string_feed_of_some {n : Nesting} {s : QuotedString} (hs : n.string = some s) (c : Char) :
    (n.feed c).string = s.feed c := by
  simp [feed, hs]

theorem string_feed_of_none {n : Nesting} (hs : n.string = none) (c : Char) :
    (n.feed c).string = if isQuote c then some (.opened c) else none := by
  obtain ⟨string, depth⟩ := n
  cases hs
  by_cases hq : isQuote c = true
  · simp [feed, hq]
  · simp only [feed, hq, Bool.false_eq_true, if_false]
    split
    · rfl
    · split <;> rfl

theorem isCloser_of_closer? {closer : Char} (h : closer? c = some closer) : isCloser c = false := by
  rcases ArgumentScan.eq_of_closer? h with rfl | rfl | rfl <;> rfl

theorem feed_of_isCloser (h : isCloser c = true) (k : Nat) : feed ⟨none, k⟩ c = ⟨none, k - 1⟩ := by
  rcases ArgumentScan.isCloser_iff.mp h with rfl | rfl | rfl <;> rfl

/-- **A walk is in the string that is open in the text.** -/
theorem quoting_walk (w : List Char) : Quoting (walk {} w).string w := by
  induction w using List.reverseRecOn with
  | nil => exact .outside .nil
  | append_singleton w c ih =>
      rw [walk_append, walk_cons, walk_nil]
      generalize hstring : (walk {} w).string = string at ih
      cases ih with
      | outside hw =>
          rw [string_feed_of_none hstring]
          by_cases hq : isQuote c = true
          · rw [if_pos hq]
            exact .inside hw hq (.opened .nil)
          · rw [if_neg hq]
            exact .outside (hw.char (Bool.eq_false_iff.mpr hq))
      | @inside w bare inside s hw hq hs =>
          rw [string_feed_of_some hstring, List.append_assoc, List.cons_append]
          cases hfeed : s.feed c with
          | some s' =>
              rw [← QuotedString.quote_feed hfeed] at hq ⊢
              exact .inside hw hq (hs.feed hfeed)
          | none =>
              obtain ⟨rfl, hinside⟩ := hs.closed hfeed
              exact .outside (hw.quoted hq hinside)

/-- One character behind a text is one more behind each of its ends. -/
theorem forall_ending_concat :
    (∀ ending, ending <:+ bare ++ [c] → ending.countP isOpener ≤ ending.countP isCloser + m) ↔
      ∀ ending, ending <:+ bare → ending.countP isOpener + [c].countP isOpener ≤
        ending.countP isCloser + [c].countP isCloser + m := by
  constructor
  · intro h ending hending
    have := h (ending ++ [c]) (List.suffix_concat_iff.mpr (.inr ⟨ending, rfl, hending⟩))
    rwa [List.countP_append, List.countP_append] at this
  · intro h ending hending
    rcases List.suffix_concat_iff.mp hending with rfl | ⟨before, rfl, hbefore⟩
    · exact Nat.zero_le _
    · rw [List.countP_append, List.countP_append]
      exact h before hbefore

/-- Where the strings of a text are closed, a walk is as deep as the most opening brackets that an
end of the text has beyond its closing ones. -/
theorem exists_walk_of_unquoted (h : Unquoted w bare) :
    ∃ depth, walk {} w = ⟨none, depth⟩ ∧ ∀ m, depth ≤ m ↔
      ∀ ending, ending <:+ bare → ending.countP isOpener ≤ ending.countP isCloser + m := by
  induction h with
  | nil => exact ⟨0, rfl, fun m => by simp⟩
  | @char w bare c _ hq ih =>
      obtain ⟨depth, hwalk, hdepth⟩ := ih
      rw [walk_append, hwalk, walk_cons, walk_nil]
      simp only [forall_ending_concat]
      cases hopen : closer? c with
      | some closer =>
          refine ⟨depth + 1, feed_opener hopen depth, fun m => ?_⟩
          have hcount : [c].countP isOpener = 1 ∧ [c].countP isCloser = 0 := by
            simp [isOpener, hopen, isCloser_of_closer? hopen]
          rw [hcount.1, hcount.2]
          cases m with
          | zero => exact iff_of_false (by simp) fun h => by simpa using h [] List.nil_suffix
          | succ m =>
              rw [Nat.succ_le_succ_iff, hdepth]
              exact forall₂_congr fun ending _ => by omega
      | none =>
          cases hclose : isCloser c with
          | true =>
              refine ⟨depth - 1, feed_of_isCloser hclose depth, fun m => ?_⟩
              have hcount : [c].countP isOpener = 0 ∧ [c].countP isCloser = 1 := by
                simp [isOpener, hopen, hclose]
              rw [hcount.1, hcount.2, Nat.sub_le_iff_le_add, hdepth]
              exact forall₂_congr fun ending _ => by omega
          | false =>
              refine ⟨depth, feed_other hq hopen hclose depth, fun m => ?_⟩
              have hcount : [c].countP isOpener = 0 ∧ [c].countP isCloser = 0 := by
                simp [isOpener, hopen, hclose]
              rw [hcount.1, hcount.2, hdepth]
              rfl
  | @quoted w bare inside quote _ hq hinside ih =>
      obtain ⟨depth, hwalk, hdepth⟩ := ih
      obtain ⟨hwalk', -⟩ := walk_quoted hq hinside depth
      have hopen : feed ⟨none, depth⟩ quote = ⟨some (.opened quote), depth⟩ := by simp [feed, hq]
      refine ⟨depth, ?_, hdepth⟩
      rw [walk_append, hwalk, walk_cons, hopen, hwalk']

/-- **A walk ends where it started exactly if nothing is open behind the text.** -/
theorem walk_eq_empty_iff : walk {} w = {} ↔ NothingOpen w := by
  constructor
  · intro h
    have hquoting := quoting_walk w
    rw [h] at hquoting
    cases hquoting with
    | @outside _ bare hw =>
        obtain ⟨depth, hwalk, hdepth⟩ := exists_walk_of_unquoted hw
        rw [h] at hwalk
        cases hwalk
        exact ⟨bare, hw, (hdepth 0).mp (Nat.le_refl 0)⟩
  · rintro ⟨bare, hw, hends⟩
    obtain ⟨depth, hwalk, hdepth⟩ := exists_walk_of_unquoted hw
    rw [hwalk, Nat.le_zero.mp ((hdepth 0).mpr hends)]

end Nesting

/-! ### Starts of balanced text -/

theorem prefix_append_cases {t : List Char} (h : x <+: w ++ t) :
    x <+: w ∨ ∃ y, x = w ++ y ∧ y <+: t := by
  rcases List.prefix_or_prefix_of_prefix h (List.prefix_append w t) with hx | ⟨y, rfl⟩
  · exact .inl hx
  · exact .inr ⟨y, rfl, (List.prefix_append_right_inj w).mp h⟩

/-- A walk that has entered a string stays in it up to its closing quote. -/
theorem Nesting.walk_start_of_quoted {quote : Char} {inside : List Char} (hq : isQuote quote = true)
    (h : QuotedText quote inside) (hx : x <+: inside) (k : Nat) :
    ∃ s, walk ⟨some (.opened quote), k⟩ x = ⟨some s, k⟩ := by
  induction h generalizing x with
  | nil =>
      rw [List.prefix_nil.mp hx]
      exact ⟨_, rfl⟩
  | char hne hne' _ ih =>
      rcases List.prefix_cons_iff.mp hx with rfl | ⟨y, rfl, hy⟩
      · exact ⟨_, rfl⟩
      · rw [walk_cons, feed_inside hne hne']
        exact ih hy
  | escaped _ ih =>
      rcases List.prefix_cons_iff.mp hx with rfl | ⟨y, rfl, hy⟩
      · exact ⟨_, rfl⟩
      · rw [walk_cons, feed_backslash hq]
        rcases List.prefix_cons_iff.mp hy with rfl | ⟨z, rfl, hz⟩
        · exact ⟨_, rfl⟩
        · rw [walk_cons, feed_escaped]
          exact ih hz

namespace ArgumentText

/-- A walk over a start of a text of the grammar has entered more than it has left, unless the start
is such a text itself. -/
theorem start_cases (h : ArgumentText n w) (hx : x <+: w) :
    (∃ m, ArgumentText m x) ∨ ∀ k, ∃ string depth,
      Nesting.walk ⟨none, k⟩ x = ⟨string, depth⟩ ∧ (string ≠ none ∧ k ≤ depth ∨ k < depth) := by
  induction h generalizing x with
  | nil =>
      rw [List.prefix_nil.mp hx]
      exact .inl ⟨0, .nil⟩
  | char hw hq hopen hclose ih =>
      rcases List.prefix_concat_iff.mp hx with rfl | hx
      · exact .inl ⟨_, .char hw hq hopen hclose⟩
      · exact ih hx
  | @quoted n w inside quote hw hq hinside ih =>
      rcases prefix_append_cases hx with hx | ⟨y, rfl, hy⟩
      · exact ih hx
      rcases List.prefix_cons_iff.mp hy with rfl | ⟨z, rfl, hz⟩
      · rw [List.append_nil]
        exact .inl ⟨n, hw⟩
      rcases List.prefix_concat_iff.mp hz with rfl | hz
      · exact .inl ⟨_, .quoted hw hq hinside⟩
      -- the start ends inside the string
      refine .inr fun k => ?_
      obtain ⟨s, hs⟩ := Nesting.walk_start_of_quoted hq hinside hz k
      have hopen : Nesting.feed ⟨none, k⟩ quote = ⟨some (.opened quote), k⟩ := by
        simp [Nesting.feed, hq]
      refine ⟨some s, k, ?_, .inl ⟨Option.some_ne_none s, Nat.le_refl k⟩⟩
      rw [Nesting.walk_append, (hw.walk_eq k).1, Nesting.walk_cons, hopen, hs]
  | @bracketed m n w inside opener closer hw hopen hinside ihw ihinside =>
      rcases prefix_append_cases hx with hx | ⟨y, rfl, hy⟩
      · exact ihw hx
      rcases List.prefix_cons_iff.mp hy with rfl | ⟨z, rfl, hz⟩
      · rw [List.append_nil]
        exact .inl ⟨m, hw⟩
      rcases List.prefix_concat_iff.mp hz with rfl | hz
      · exact .inl ⟨_, .bracketed hw hopen hinside⟩
      -- the start ends inside the bracket
      refine .inr fun k => ?_
      rw [Nesting.walk_append, (hw.walk_eq k).1, Nesting.walk_cons, Nesting.feed_opener hopen]
      rcases ihinside hz with ⟨l, hl⟩ | hopened
      · exact ⟨none, k + 1, (hl.walk_eq (k + 1)).1, .inr (Nat.lt_succ_self k)⟩
      · obtain ⟨string, depth, hwalk, hdepth⟩ := hopened (k + 1)
        exact ⟨string, depth, hwalk, .inr (by omega)⟩

/-- **Where nothing is open in balanced text, the text before is balanced**, and only there. -/
theorem start_iff (h : ArgumentText n w) (hx : x <+: w) :
    NothingOpen x ↔ ∃ m, ArgumentText m x := by
  rw [← Nesting.walk_eq_empty_iff]
  constructor
  · intro hwalk
    rcases h.start_cases hx with hm | hopened
    · exact hm
    · obtain ⟨string, depth, hwalk', hdepth⟩ := hopened 0
      rw [hwalk] at hwalk'
      cases hwalk'
      simp at hdepth
  · rintro ⟨m, hm⟩
    exact (hm.walk_eq 0).1

end ArgumentText

/-! ### Where the pieces of a text meet -/

/-- The pieces are those of `before` and those of `after`, with a separator between them. -/
def CutBetween (sep : Char) (pieces : List (List Char)) (before after : List Char) : Prop :=
  ∃ left right, pieces = left ++ right ∧ left ≠ [] ∧ right ≠ [] ∧
    before = [sep].intercalate left ∧ after = [sep].intercalate right

variable {cs before after text : List Char} {i : Nat}

/-- A quote or a bracket never separates. -/
theorem sepFree_of_isDelimiter (hs : Nesting.isDelimiter sep = true) (n : Nesting)
    (cs : List Char) : SepFree sep n cs := by
  induction cs generalizing n with
  | nil => trivial
  | cons c cs ih =>
      refine ⟨fun h => ?_, ih (n.feed c)⟩
      simp only [Bool.and_eq_true, beq_iff_eq] at h
      obtain ⟨htop, rfl⟩ := h
      simp [Nesting.atTop, hs] at htop

/-- **The pieces of a text make it up again**, whatever the separator. -/
theorem intercalate_splitTop (sep : Char) (cs : List Char) :
    [sep].intercalate (splitTop sep cs) = cs := by
  cases hs : Nesting.isDelimiter sep with
  | true =>
      have hwhole := splitTopFrom_append (sepFree_of_isDelimiter hs {} cs) [] [] []
      rw [List.append_nil] at hwhole
      rw [splitTop, hwhole, splitTopFrom]
      simp
  | false => exact ((splitTop_eq_iff hs).mp rfl).eq_intercalate.symm

/-- **A text is cut at the separators before which nothing is open**, and nowhere else. -/
theorem splitTop_cut_iff (hs : Nesting.isDelimiter sep = false) :
    CutBetween sep (splitTop sep (before ++ sep :: after)) before after ↔ NothingOpen before := by
  rw [← Nesting.walk_eq_empty_iff]
  constructor
  · rintro ⟨left, right, heq, -, hright, rfl, -⟩
    have hchained := ((splitTop_eq_iff hs).mp heq).chained
    exact hchained.walk_intercalate (Nesting.feed_empty hs) hright
  · intro hw
    obtain ⟨left, hleft⟩ := exists_splits hs before
    obtain ⟨right, hright⟩ := exists_splits hs after
    exact ⟨left, right, (splitTop_eq_iff hs).mpr (hleft.append hs hw hright), hleft.ne_nil,
      hright.ne_nil, hleft.eq_intercalate, hright.eq_intercalate⟩

/-! ### Runs of bars -/

/-- The bar between `before` and `after` has `i` more bars in front of it, up to `text`, and `k`
behind it. -/
structure InRun (before after text : List Char) (i k : Nat) : Prop where
  before_eq : before = text ++ List.replicate i '|'
  first : text.getLast? ≠ some '|'
  after_eq : ∃ rest, after = List.replicate k '|' ++ rest ∧ ¬ ['|'] <+: rest

theorem eq_bars (h : ∀ c ∈ cs, (c == '|') = true) : cs = List.replicate cs.length '|' :=
  List.eq_replicate_iff.mpr ⟨rfl, fun c hc => beq_iff_eq.mp (h c hc)⟩

/-- Every bar stands in a run of bars that is as long as possible. -/
theorem exists_inRun (before after : List Char) : ∃ text i k, InRun before after text i k := by
  obtain ⟨bars, text, hbefore, hbars, hstop⟩ := exists_run (· == '|') before.reverse
  obtain ⟨bars', rest, rfl, hbars', hrest⟩ := exists_run (· == '|') after
  refine ⟨text.reverse, bars.length, bars'.length, ?_, ?_, rest, ?_, ?_⟩
  · rw [← List.reverse_replicate, ← eq_bars hbars, ← List.reverse_append, ← hbefore,
      List.reverse_reverse]
  · rw [List.getLast?_reverse]
    exact fun h => absurd (hstop '|' h) (by decide)
  · rw [← eq_bars hbars']
  · rintro ⟨more, rfl⟩
    exact absurd (hrest '|' rfl) (by decide)

/-- Bars are double ones when they are even in number. -/
theorem barFree_bars_iff (i : Nat) : BarFree {} (List.replicate i '|') ↔ Even i := by
  induction i using Nat.twoStepInduction with
  | zero => simp [BarFree]
  | one =>
      have htop : Nesting.atTop {} '|' = true := by decide
      simp [BarFree, htop]
  | more i ih _ =>
      have htop : (Nesting.atTop {} '|' && '|' == '|') = true := by decide
      rw [List.replicate_succ, List.replicate_succ, BarFree, if_pos htop,
        Nesting.feed_empty (by decide), ih, Nat.even_add_one, Nat.even_add_one, not_not]
      exact and_iff_right rfl

/-- Bars open nothing. -/
theorem walk_append_bars_iff :
    Nesting.walk {} (text ++ List.replicate i '|') = {} ↔ Nesting.walk {} text = {} := by
  have hplain : ∀ c ∈ List.replicate i '|', Nesting.Plain c := by
    intro c hc
    rw [List.eq_of_mem_replicate hc]
    exact ⟨by decide, by decide⟩
  rw [Nesting.walk_append, ← Nesting.settle_eq_empty_iff,
    Nesting.walk_plain (Nesting.sane_empty.walk text) hplain, Nesting.settle_eq_empty_iff]

/-- A segment ends with double bars, if with any. -/
theorem even_of_barFree (h : BarFree {} (text ++ List.replicate i '|'))
    (hw : Nesting.walk {} (text ++ List.replicate i '|') = {}) (hfirst : text.getLast? ≠ some '|') :
    Even i := by
  rw [barFree_append_iff fun hlast => absurd hlast hfirst, walk_append_bars_iff.mp hw] at h
  exact (barFree_bars_iff i).mp h.2

/-- The bars at the end of a text are all behind a bar that no other one follows. -/
theorem bars_at_end {rest : List Char} (hne : rest ≠ []) (hno : ¬ ['|'] <+: rest)
    (h : x ++ '|' :: rest = text ++ List.replicate i '|') :
    ∃ tail, text = x ++ '|' :: tail ∧ rest = tail ++ List.replicate i '|' := by
  obtain ⟨d, more, rfl⟩ := List.exists_cons_of_ne_nil hne
  have hd : d ∉ List.replicate i '|' := by
    intro hd
    rw [List.eq_of_mem_replicate hd] at hno
    exact hno (List.prefix_append ['|'] more)
  rw [List.append_cons] at h
  rcases List.append_eq_append_iff.mp h with ⟨tail, rfl, hrest⟩ | ⟨bars, -, hbars⟩
  · exact ⟨tail, (List.append_cons ..).symm, hrest⟩
  · rw [hbars] at hd
    exact absurd (List.mem_append_right bars (List.mem_cons_self ..)) hd

/-- **Where a text is cut at a bar**, no bar follows, and those in front of it are double ones. -/
theorem BarSplits.even_of_cut {left right : List (List Char)} (h : BarSplits cs (left ++ right))
    (hleft : left ≠ []) (hright : right ≠ []) :
    ¬ ['|'] <+: ['|'].intercalate right ∧ ∀ text i,
      ['|'].intercalate left = text ++ List.replicate i '|' → text.getLast? ≠ some '|' →
        Even i := by
  generalize hsegments : left ++ right = segments at h
  induction h generalizing left with
  | last =>
      obtain ⟨x, left, rfl⟩ := List.exists_cons_of_ne_nil hleft
      simp [hright] at hsegments
  | @cons x rest segments hx hw hno hr ih =>
      obtain ⟨y, left, rfl⟩ := List.exists_cons_of_ne_nil hleft
      rw [List.cons_append, List.cons.injEq] at hsegments
      obtain ⟨rfl, hsegments⟩ := hsegments
      by_cases hlast : left = []
      · subst hlast
        rw [List.nil_append] at hsegments
        subst hsegments
        rw [← hr.eq_intercalate, List.intercalate_singleton]
        refine ⟨hno, ?_⟩
        rintro text i rfl hfirst
        exact even_of_barFree hx hw hfirst
      · obtain ⟨hnext, heven⟩ := ih hlast hsegments
        refine ⟨hnext, fun text i heq hfirst => ?_⟩
        have hrest := hr.eq_intercalate
        rw [← hsegments, intercalate_append hlast hright, List.append_assoc] at hrest
        rw [hrest] at hno
        rw [List.intercalate_cons_of_ne_nil hlast, List.append_assoc] at heq
        -- the first bar is a single one, so there is more than bars behind it
        have hfull : ['|'].intercalate left ≠ [] := by
          intro hempty
          rw [hempty] at hno
          exact hno (List.prefix_append ['|'] _)
        obtain ⟨tail, rfl, htail⟩ := bars_at_end hfull
          (fun hpre => hno (hpre.trans (List.prefix_append _ _))) heq
        refine heven tail i htail fun hlast => hfirst ?_
        rw [List.getLast?_append, List.getLast?_cons, hlast]
        rfl

/-- A text that ends with double bars, if with any, is not cut at the last one. -/
theorem BarSplits.ne_concat_nil {segments init : List (List Char)} (heven : Even i)
    (hfirst : text.getLast? ≠ some '|') (h : BarSplits (text ++ List.replicate i '|') segments)
    (hinit : init ≠ []) : segments ≠ init ++ [[]] := by
  rintro rfl
  have hlast := h.eq_intercalate
  rw [intercalate_concat hinit, List.append_nil] at hlast
  cases i with
  | zero =>
      rw [List.replicate_zero, List.append_nil] at hlast
      refine hfirst ?_
      rw [hlast]
      simp
  | succ i =>
      -- the bars in front of that one would be odd in number
      rw [List.replicate_succ', ← List.append_assoc] at hlast
      have hbefore := (List.append_inj' hlast rfl).1
      have := (h.even_of_cut hinit (List.cons_ne_nil [] [])).2 text i hbefore.symm hfirst
      exact Nat.even_add_one.mp heven this

/-- **A text is cut at a bar** exactly if it is the last one of an odd number of bars that stand
outside all strings and brackets. -/
theorem splitBars_cut_iff (h : InRun before after text i k) :
    CutBetween '|' (splitBars (before ++ '|' :: after)) before after ↔
      k = 0 ∧ Odd (i + 1 + k) ∧ NothingOpen text := by
  obtain ⟨rfl, hfirst, rest, rfl, hrest⟩ := h
  rw [← Nesting.walk_eq_empty_iff]
  constructor
  · rintro ⟨left, right, heq, hleft, hright, hbefore, hafter⟩
    have hsplits := splitBars_eq_iff.mp heq
    obtain ⟨hno, heven⟩ := hsplits.even_of_cut hleft hright
    have hk : k = 0 := by
      cases k with
      | zero => rfl
      | succ k =>
          rw [← hafter, List.replicate_succ, List.cons_append] at hno
          exact absurd (List.prefix_append ['|'] _) hno
    have hwalk := hsplits.chained.walk_intercalate (Nesting.feed_empty (c := '|') (by decide)) hright
    rw [← hbefore] at hwalk
    refine ⟨hk, ?_, walk_append_bars_iff.mp hwalk⟩
    rw [hk, Nat.add_zero]
    exact (heven text i hbefore.symm hfirst).add_one
  · rintro ⟨rfl, hodd, hwalk⟩
    have heven : Even i := by
      rw [Nat.add_zero, Nat.odd_add_one, Nat.not_odd_iff_even] at hodd
      exact hodd
    obtain ⟨left, hleft⟩ := exists_barSplits (text ++ List.replicate i '|')
    obtain ⟨right, hright⟩ := exists_barSplits rest
    have hcut := hleft.append (walk_append_bars_iff.mpr hwalk) (fun _ => hleft.ne_concat_nil heven hfirst)
      hrest hright
    exact ⟨left, right, splitBars_eq_iff.mpr hcut, hleft.ne_nil, hright.ne_nil,
      hleft.eq_intercalate, hright.eq_intercalate⟩

/-- The segments of a text make it up again. -/
theorem intercalate_splitBars (cs : List Char) : ['|'].intercalate (splitBars cs) = cs :=
  (splitBars_eq_iff.mp rfl).eq_intercalate.symm

/-- **Texts are cut at the top level, and nothing of them is lost.**

The pieces of a text, joined by the separator, are the text again.  It is cut at the separators
before which no string and no bracket is open; in a balanced text those are the ones with a
balanced text before them.  At bars it is cut once for each run of bars, of an odd number of them,
before which nothing is open: at the last bar of the run. -/
theorem cuts_at_top :
    (∀ sep text, [sep].intercalate (splitTop sep text) = text) ∧
    (∀ sep before after, Nesting.isDelimiter sep = false →
      (CutBetween sep (splitTop sep (before ++ sep :: after)) before after ↔ NothingOpen before) ∧
      ∀ n, ArgumentText n (before ++ sep :: after) →
        (CutBetween sep (splitTop sep (before ++ sep :: after)) before after ↔
          ∃ m, ArgumentText m before)) ∧
    (∀ text, ['|'].intercalate (splitBars text) = text) ∧
    ∀ before after, (∃ text i k, InRun before after text i k) ∧
      ∀ text i k, InRun before after text i k →
        (CutBetween '|' (splitBars (before ++ '|' :: after)) before after ↔
          k = 0 ∧ Odd (i + 1 + k) ∧ NothingOpen text) := by
  refine ⟨intercalate_splitTop, fun sep before after hs => ⟨splitTop_cut_iff hs, fun n h => ?_⟩,
    intercalate_splitBars, fun before after => ⟨exists_inRun before after, fun text i k h => ?_⟩⟩
  · rw [splitTop_cut_iff hs, h.start_iff (List.prefix_append before _)]
  · exact splitBars_cut_iff h

/-- `[,],` is cut behind its bracket and not in it, `a|||b` at its third bar and not at its first. -/
theorem cuts_behind_bracket_and_bars :
    (CutBetween ',' (splitTop ',' "[,],".toList) "[,]".toList [] ∧
      ¬ CutBetween ',' (splitTop ',' "[,],".toList) "[".toList "],".toList) ∧
    CutBetween '|' (splitBars "a|||b".toList) "a||".toList "b".toList ∧
      ¬ CutBetween '|' (splitBars "a|||b".toList) "a".toList "||b".toList := by
  obtain ⟨-, hcut, -, hbars⟩ := cuts_at_top
  have hcomma : ArgumentText 0 ",".toList := .char .nil (by decide) (by decide) (by decide)
  have hbracket : ArgumentText 1 "[,]".toList := .bracketed .nil (by decide) hcomma
  have htext : ArgumentText 1 "[,],".toList :=
    .char hbracket (by decide) (by decide) (by decide)
  have hopen : ¬ NothingOpen "[".toList := by
    rw [← Nesting.walk_eq_empty_iff]
    decide
  have hnone : NothingOpen "a".toList := Nesting.walk_eq_empty_iff.mp (by decide)
  have hthird : InRun "a||".toList "b".toList "a".toList 2 0 :=
    ⟨rfl, by decide, "b".toList, rfl, by decide⟩
  have hfirst : InRun "a".toList "||b".toList "a".toList 0 2 :=
    ⟨rfl, by decide, "b".toList, rfl, by decide⟩
  refine ⟨⟨?_, fun h => ?_⟩, ?_, fun h => ?_⟩
  · exact ((hcut ',' "[,]".toList [] (by decide)).2 1 htext).mpr ⟨1, hbracket⟩
  · exact hopen ((hcut ',' "[".toList "],".toList (by decide)).1.mp h)
  · exact ((hbars "a||".toList "b".toList).2 _ 2 0 hthird).mpr ⟨rfl, by decide, hnone⟩
  · exact absurd (((hbars "a".toList "||b".toList).2 _ 0 2 hfirst).mp h).1 (by decide)

end Blade
