import Blade.Nesting
import Blade.Proofs.PrintedList

/-!
# Proofs — Splitting

Where a text is cut at separators outside all strings and brackets.

* `splitTop_eq_iff`: the pieces between separators hold none at the top level, and all but the last
  leave no string and no bracket open (`Splits`).
* `splitBars_eq_iff`: so do the segments between single bars (`BarSplits`), where two bars in a row
  are none.
* `walk_plain`: blank characters and separators all act alike on what is open, so that it does not
  matter how many of them stand together.
-/

namespace Blade

namespace Nesting

/-- The walk past some characters. -/
def walk (n : Nesting) (cs : List Char) : Nesting := cs.foldl feed n

@[simp] theorem walk_nil (n : Nesting) : n.walk [] = n := rfl

@[simp] theorem walk_cons (n : Nesting) (c : Char) (cs : List Char) :
    n.walk (c :: cs) = (n.feed c).walk cs := rfl

theorem walk_append (n : Nesting) (cs ds : List Char) :
    n.walk (cs ++ ds) = (n.walk cs).walk ds := List.foldl_append

/-- Outside all strings and brackets a walk is where it started. -/
theorem isOutside_iff {n : Nesting} : n.isOutside = true ↔ n = {} := by
  obtain ⟨string, depth⟩ := n
  cases string <;> simp [isOutside]

theorem atTop_iff {n : Nesting} {c : Char} (hc : isDelimiter c = false) :
    n.atTop c = true ↔ n = {} := by
  rw [atTop, hc, Bool.not_false, Bool.and_true, isOutside_iff]

/-! ### Characters that open and close nothing -/

/-- The character is no quote, no bracket and no backslash. -/
def Plain (c : Char) : Prop := isDelimiter c = false ∧ c ≠ '\\'

/-- The open string, if any, is opened by a quote. -/
def Sane (n : Nesting) : Prop := ∀ s ∈ n.string, isQuote s.quote = true

/-- The walk with no backslash before the next character. -/
def settle (n : Nesting) : Nesting :=
  { n with string := n.string.map fun s => ⟨s.quote, false⟩ }

theorem sane_empty : Sane {} := by simp [Sane]

theorem settle_settle (n : Nesting) : n.settle.settle = n.settle := by
  obtain ⟨string, depth⟩ := n
  cases string <;> rfl

theorem settle_eq_empty_iff {n : Nesting} : n.settle = {} ↔ n = {} := by
  obtain ⟨string, depth⟩ := n
  cases string <;> simp [settle]

variable {n : Nesting} {c : Char} {cs : List Char}

theorem isDelimiter_eq_false_iff : isDelimiter c = false ↔ isQuote c = false ∧ c ≠ '(' ∧ c ≠ '[' ∧
    c ≠ '{' ∧ c ≠ ')' ∧ c ≠ ']' ∧ c ≠ '}' := by
  simp [isDelimiter, and_assoc]

/-- What is no quote and no bracket opens nothing. -/
theorem feed_empty (h : isDelimiter c = false) : feed {} c = {} := by
  obtain ⟨hq, hop, hos, hob, hcp, hcs, hcb⟩ := isDelimiter_eq_false_iff.mp h
  simp [feed, hq, hop, hos, hob, hcp, hcs, hcb]

theorem plain_of_isBlank (h : Text.isBlank c = true) : Plain c :=
  ⟨isDelimiter_eq_false_iff.mpr ⟨isQuote_of_isBlank h, ne_of_isBlank h (by decide),
    ne_of_isBlank h (by decide), ne_of_isBlank h (by decide), ne_of_isBlank h (by decide),
    ne_of_isBlank h (by decide), ne_of_isBlank h (by decide)⟩, ne_of_isBlank h (by decide)⟩

theorem Sane.feed (h : n.Sane) (c : Char) : (n.feed c).Sane := by
  obtain ⟨string, depth⟩ := n
  cases string with
  | some s =>
      intro s' hs'
      rw [QuotedString.quote_feed (c := c) (s := s) hs']
      exact h s rfl
  | none =>
      unfold Nesting.feed
      dsimp only
      split
      · next hq =>
          rintro s ⟨⟩
          exact hq
      · split
        · exact sane_empty
        · split <;> exact sane_empty

theorem Sane.walk (h : n.Sane) (cs : List Char) : (n.walk cs).Sane := by
  induction cs generalizing n with
  | nil => exact h
  | cons c cs ih => exact ih (h.feed c)

/-- Characters that open and close nothing all act alike. -/
theorem feed_plain (h : n.Sane) (hc : Plain c) : n.feed c = n.settle := by
  obtain ⟨hq, hop, hos, hob, hcp, hcs, hcb⟩ := isDelimiter_eq_false_iff.mp hc.1
  obtain ⟨string, depth⟩ := n
  cases string with
  | some s =>
      have hne : c ≠ s.quote := by
        rintro rfl
        rw [h s rfl] at hq
        cases hq
      simp [feed, settle, QuotedString.feed, hne, hc.2]
  | none => simp [feed, settle, hq, hop, hos, hob, hcp, hcs, hcb]

/-- **However many characters that open and close nothing stand together**, they act like one. -/
theorem walk_plain (h : n.Sane) (hcs : ∀ c ∈ cs, Plain c) : (n.walk cs).settle = n.settle := by
  induction cs generalizing n with
  | nil => rfl
  | cons c cs ih =>
      rw [walk_cons, ih (h.feed c) fun d hd => hcs d (List.mem_cons_of_mem _ hd),
        feed_plain h (hcs c (List.mem_cons_self ..)), settle_settle]

theorem walk_plain_of_settled (h : n.Sane) (hn : n.settle = n) (hcs : ∀ c ∈ cs, Plain c) :
    n.walk cs = n := by
  induction cs with
  | nil => rfl
  | cons c cs ih =>
      rw [walk_cons, feed_plain h (hcs c (List.mem_cons_self ..)), hn]
      exact ih fun d hd => hcs d (List.mem_cons_of_mem _ hd)

end Nesting

open Nesting

/-! ### Separators outside all strings and brackets -/

/-- On the walk from `n` past `cs`, no `sep` stands at the top level. -/
def SepFree (sep : Char) : Nesting → List Char → Prop
  | _, [] => True
  | n, c :: cs => ¬ (n.atTop c && c == sep) = true ∧ SepFree sep (n.feed c) cs

/-- `cs` is the pieces, with a `sep` between any two of them, that stands at the top level. -/
inductive Splits (sep : Char) : List Char → List (List Char) → Prop where
  | last {x : List Char} : SepFree sep {} x → Splits sep x [x]
  | cons {x rest : List Char} {pieces : List (List Char)} :
      SepFree sep {} x → Nesting.walk {} x = {} → Splits sep rest pieces →
        Splits sep (x ++ sep :: rest) (x :: pieces)

variable {sep : Char} {n : Nesting} {cs : List Char} {pieces : List (List Char)}

theorem sepFree_append {xs ys : List Char} :
    SepFree sep n (xs ++ ys) ↔ SepFree sep n xs ∧ SepFree sep (n.walk xs) ys := by
  induction xs generalizing n with
  | nil => simp [SepFree]
  | cons c xs ih => simp only [List.cons_append, SepFree, ih, walk_cons, and_assoc]

theorem splitTopFrom_append {x : List Char} (h : SepFree sep n x) (done : List (List Char))
    (piece rest : List Char) :
    splitTopFrom sep n done piece (x ++ rest) =
      splitTopFrom sep (n.walk x) done (x.reverse ++ piece) rest := by
  induction x generalizing n piece with
  | nil => rfl
  | cons c x ih =>
      rw [List.cons_append, splitTopFrom, if_neg h.1, ih h.2]
      simp

theorem splitTopFrom_of_splits (hs : isDelimiter sep = false) (h : Splits sep cs pieces)
    (done : List (List Char)) : splitTopFrom sep {} done [] cs = done.reverse ++ pieces := by
  induction h generalizing done with
  | @last x hx =>
      have := splitTopFrom_append hx done [] []
      rw [List.append_nil] at this
      rw [this, splitTopFrom]
      simp
  | @cons x rest pieces hx hw _ ih =>
      have hsep : Nesting.atTop {} sep = true := (atTop_iff hs).mpr rfl
      rw [splitTopFrom_append hx, hw, splitTopFrom]
      simp only [hsep, beq_self_eq_true, Bool.and_self, if_true, feed_empty hs, ih]
      simp

/-- A text has no separator at the top level, or a first one. -/
theorem exists_first_sep (sep : Char) (n : Nesting) (cs : List Char) :
    SepFree sep n cs ∨ ∃ x rest, cs = x ++ sep :: rest ∧ SepFree sep n x ∧
      (n.walk x).atTop sep = true := by
  induction cs generalizing n with
  | nil => exact .inl trivial
  | cons c cs ih =>
      by_cases hc : (n.atTop c && c == sep) = true
      · simp only [Bool.and_eq_true, beq_iff_eq] at hc
        obtain ⟨htop, rfl⟩ := hc
        exact .inr ⟨[], cs, rfl, trivial, htop⟩
      · rcases ih (n.feed c) with hfree | ⟨x, rest, rfl, hx, htop⟩
        · exact .inl ⟨hc, hfree⟩
        · exact .inr ⟨c :: x, rest, rfl, ⟨hc, hx⟩, htop⟩

theorem exists_splits (hs : isDelimiter sep = false) (cs : List Char) :
    ∃ pieces, Splits sep cs pieces := by
  -- on the length, since only what follows the first separator is cut further
  induction hn : cs.length using Nat.strong_induction_on generalizing cs with
  | _ n ih =>
    rcases exists_first_sep sep {} cs with hfree | ⟨x, rest, rfl, hx, htop⟩
    · exact ⟨_, .last hfree⟩
    · obtain ⟨pieces, hpieces⟩ := ih rest.length (by simp at hn; omega) rest rfl
      exact ⟨_, .cons hx ((atTop_iff hs).mp htop) hpieces⟩

/-- **Cutting at the separators outside all strings and brackets.** -/
theorem splitTop_eq_iff (hs : isDelimiter sep = false) :
    splitTop sep cs = pieces ↔ Splits sep cs pieces := by
  constructor
  · rintro rfl
    obtain ⟨pieces, hpieces⟩ := exists_splits hs cs
    have := splitTopFrom_of_splits hs hpieces []
    rw [List.reverse_nil, List.nil_append] at this
    rw [splitTop, this]
    exact hpieces
  · intro h
    have := splitTopFrom_of_splits hs h []
    rwa [List.reverse_nil, List.nil_append] at this

theorem Splits.ne_nil (h : Splits sep cs pieces) : pieces ≠ [] := by cases h <;> simp

theorem Splits.eq_intercalate (h : Splits sep cs pieces) : cs = [sep].intercalate pieces := by
  induction h with
  | last => rw [List.intercalate_singleton]
  | cons _ _ hr ih =>
      rw [List.intercalate_cons_of_ne_nil hr.ne_nil, ← ih, List.append_assoc]
      rfl

/-- Texts with a top-level separator between them are cut there, and each where it is cut. -/
theorem Splits.append {ds : List Char} {pieces' : List (List Char)} (hs : isDelimiter sep = false)
    (h : Splits sep cs pieces) (hw : Nesting.walk {} cs = {}) (h' : Splits sep ds pieces') :
    Splits sep (cs ++ sep :: ds) (pieces ++ pieces') := by
  induction h with
  | last hx => exact .cons hx hw h'
  | @cons x rest pieces hx hx' _ ih =>
      rw [walk_append, hx', walk_cons, feed_empty hs] at hw
      rw [List.append_assoc, List.cons_append]
      exact .cons hx hx' (ih hw)

/-! ### Single bars outside all strings and brackets -/

/-- On the walk from `n` past `cs`, no single bar stands at the top level; the last character is no
bar that another one could follow. -/
def BarFree : Nesting → List Char → Prop
  | _, [] => True
  | n, [c] => ¬ (n.atTop c && c == '|') = true
  | n, c :: d :: cs =>
      if n.atTop c && c == '|' then d = '|' ∧ BarFree (n.feed c) cs
      else BarFree (n.feed c) (d :: cs)

/-- Characters that are some segments, with a single bar between any two of them, which stands at
the top level. -/
inductive BarSplits : List Char → List (List Char) → Prop where
  | last {x : List Char} : BarFree {} x → BarSplits x [x]
  | cons {x rest : List Char} {segments : List (List Char)} :
      BarFree {} x → Nesting.walk {} x = {} → ¬ ['|'] <+: rest → BarSplits rest segments →
        BarSplits (x ++ '|' :: rest) (x :: segments)

variable {segments : List (List Char)}

/-- A bar at the top level leaves the walk where it is. -/
theorem feed_bar {c : Char} (h : (n.atTop c && c == '|') = true) :
    n = {} ∧ c = '|' ∧ n.feed c = n := by
  simp only [Bool.and_eq_true, beq_iff_eq] at h
  obtain ⟨htop, rfl⟩ := h
  have hn := (atTop_iff (c := '|') (by decide)).mp htop
  subst hn
  exact ⟨rfl, rfl, by decide⟩

theorem barFree_cons_of_not {c : Char} (hc : ¬ (n.atTop c && c == '|') = true) :
    BarFree n (c :: cs) ↔ BarFree (n.feed c) cs := by
  cases cs <;> simp [BarFree, hc]

theorem barFree_cons {c : Char} (hc : c ≠ '|') : BarFree n (c :: cs) ↔ BarFree (n.feed c) cs :=
  barFree_cons_of_not (by simp [hc])

/-- A text is free of single bars where its parts are, if no bar stands on both sides of the cut. -/
theorem barFree_append_iff {xs ys : List Char}
    (h : xs.getLast? = some '|' → ¬ ['|'] <+: ys) :
    BarFree n (xs ++ ys) ↔ BarFree n xs ∧ BarFree (n.walk xs) ys := by
  induction n, xs using BarFree.induct with
  | case1 n => simp [BarFree]
  | case2 n c =>
      cases ys with
      | nil => simp [BarFree]
      | cons d ys =>
          by_cases htop : (n.atTop c && c == '|') = true
          · have hd : d ≠ '|' := by
              rintro rfl
              rw [(feed_bar htop).2.1] at h
              exact h rfl (List.prefix_append ['|'] ys)
            simp [BarFree, htop, hd]
          · simp [BarFree, htop]
  | case3 n c d xs htop ih =>
      obtain ⟨-, -, hfeed⟩ := feed_bar htop
      have hxs : xs.getLast? = some '|' → ¬ ['|'] <+: ys := by
        intro hlast
        exact h (by rw [List.getLast?_cons_cons, List.getLast?_cons, hlast]; rfl)
      simp only [List.cons_append, BarFree, htop, if_true, ih hxs, and_assoc]
      refine and_congr_right fun hd => and_congr_right fun _ => ?_
      -- two bars in a row leave the walk where it is
      have hbar : (n.atTop d && d == '|') = true := by
        rw [(feed_bar htop).2.1] at htop
        rwa [hd]
      rw [walk_cons, walk_cons, hfeed, (feed_bar hbar).2.2]
  | case4 n c d xs htop ih =>
      have hxs : (d :: xs).getLast? = some '|' → ¬ ['|'] <+: ys := by
        intro hlast
        exact h (by simpa using hlast)
      simp only [List.cons_append, BarFree, htop, Bool.false_eq_true, if_false] at ih ⊢
      exact ih hxs

theorem barFree_append {xs ys : List Char} (hy : ¬ ['|'] <+: ys) :
    BarFree n (xs ++ ys) ↔ BarFree n xs ∧ BarFree (n.walk xs) ys :=
  barFree_append_iff fun _ => hy

theorem splitBarsFrom_append {x : List Char} (h : BarFree n x) (done : List (List Char))
    (piece rest : List Char) :
    splitBarsFrom n done piece (x ++ rest) =
      splitBarsFrom (n.walk x) done (x.reverse ++ piece) rest := by
  induction n, x using BarFree.induct generalizing piece with
  | case1 n => rfl
  | case2 n c =>
      simp only [BarFree, Bool.not_eq_true] at h
      cases rest with
      | nil => simp [splitBarsFrom, h]
      | cons d rest => simp [splitBarsFrom, h]
  | case3 n c d xs htop ih =>
      simp only [BarFree, htop, if_true] at h
      obtain ⟨rfl, hxs⟩ := h
      obtain ⟨-, -, hfeed⟩ := feed_bar htop
      have hbar : (n.atTop '|' && '|' == '|') = true := by
        rw [(feed_bar htop).2.1] at htop
        exact htop
      -- both bars are copied, and the walk is where it was
      have hrest := ih hxs ('|' :: c :: piece)
      rw [hfeed] at hrest
      simp only [List.cons_append, splitBarsFrom, htop, if_true, walk_cons, hfeed,
        (feed_bar hbar).2.2, hrest]
      simp
  | case4 n c d xs htop ih =>
      rw [BarFree, if_neg htop] at h
      have := ih h (c :: piece)
      rw [List.cons_append, List.cons_append, splitBarsFrom, if_neg htop]
      simp only [List.cons_append] at this
      rw [this]
      simp

theorem splitBarsFrom_of_barSplits (h : BarSplits cs segments) (done : List (List Char)) :
    splitBarsFrom {} done [] cs = done.reverse ++ segments := by
  induction h generalizing done with
  | @last x hx =>
      have := splitBarsFrom_append hx done [] []
      rw [List.append_nil] at this
      rw [this, splitBarsFrom]
      simp
  | @cons x rest segments hx hw hno _ ih =>
      have htop : (Nesting.atTop {} '|' && '|' == '|') = true := by decide
      rw [splitBarsFrom_append hx, hw]
      cases rest with
      | nil =>
          have := ih (x :: done)
          rw [splitBarsFrom] at this
          rw [splitBarsFrom, if_pos htop]
          simpa using this
      | cons d rest =>
          have hd : d ≠ '|' := by
            rintro rfl
            exact hno (List.prefix_append ['|'] rest)
          rw [splitBarsFrom, if_pos htop, if_neg hd, (feed_bar htop).2.2, ih]
          simp

/-- A text has no single bar at the top level, or a first one. -/
theorem exists_first_bar (n : Nesting) (cs : List Char) :
    BarFree n cs ∨ ∃ x rest, cs = x ++ '|' :: rest ∧ BarFree n x ∧ n.walk x = {} ∧
      ¬ ['|'] <+: rest := by
  induction n, cs using BarFree.induct with
  | case1 n => exact .inl trivial
  | case2 n c =>
      by_cases htop : (n.atTop c && c == '|') = true
      · obtain ⟨hn, rfl, -⟩ := feed_bar htop
        exact .inr ⟨[], [], rfl, trivial, hn, by simp⟩
      · exact .inl htop
  | case3 n c d cs htop ih =>
      obtain ⟨hn, rfl, hfeed⟩ := feed_bar htop
      by_cases hd : d = '|'
      · subst hd
        rcases ih with hfree | ⟨x, rest, rfl, hx, hw, hno⟩
        · exact .inl (by rw [BarFree, if_pos htop]; exact ⟨rfl, hfree⟩)
        · refine .inr ⟨'|' :: '|' :: x, rest, rfl, ?_, ?_, hno⟩
          · rw [BarFree, if_pos htop]
            exact ⟨rfl, hx⟩
          · rw [walk_cons, walk_cons, hfeed]
            exact hw
      · refine .inr ⟨[], d :: cs, rfl, trivial, hn, fun hpre => hd ?_⟩
        exact ((List.cons_prefix_cons.mp hpre).1).symm
  | case4 n c d cs htop ih =>
      rcases ih with hfree | ⟨x, rest, hcs, hx, hw, hno⟩
      · exact .inl ((barFree_cons_of_not htop).mpr hfree)
      · exact .inr ⟨c :: x, rest, by rw [hcs]; rfl, (barFree_cons_of_not htop).mpr hx, hw, hno⟩

theorem exists_barSplits (cs : List Char) : ∃ segments, BarSplits cs segments := by
  induction hn : cs.length using Nat.strong_induction_on generalizing cs with
  | _ n ih =>
    rcases exists_first_bar {} cs with hfree | ⟨x, rest, rfl, hx, hw, hno⟩
    · exact ⟨_, .last hfree⟩
    · obtain ⟨segments, hsegments⟩ := ih rest.length (by simp at hn; omega) rest rfl
      exact ⟨_, .cons hx hw hno hsegments⟩

/-- **Cutting at the single bars outside all strings and brackets.** -/
theorem splitBars_eq_iff : splitBars cs = segments ↔ BarSplits cs segments := by
  constructor
  · rintro rfl
    obtain ⟨segments, hsegments⟩ := exists_barSplits cs
    have := splitBarsFrom_of_barSplits hsegments []
    rw [List.reverse_nil, List.nil_append] at this
    rw [splitBars, this]
    exact hsegments
  · intro h
    have := splitBarsFrom_of_barSplits h []
    rwa [List.reverse_nil, List.nil_append] at this

theorem BarSplits.ne_nil (h : BarSplits cs segments) : segments ≠ [] := by cases h <;> simp

theorem BarSplits.eq_intercalate (h : BarSplits cs segments) : cs = ['|'].intercalate segments := by
  induction h with
  | last => rw [List.intercalate_singleton]
  | cons _ _ _ hr ih =>
      rw [List.intercalate_cons_of_ne_nil hr.ne_nil, ← ih, List.append_assoc]
      rfl

/-- Texts with a bar between them are cut there, and each where it is cut, if neither of them makes
it a double one: the second one with a bar in front, the first one with a bar at its end that is a
cut itself. -/
theorem BarSplits.append {ds : List Char} {segments' : List (List Char)} (h : BarSplits cs segments)
    (hw : Nesting.walk {} cs = {}) (hend : ∀ init, init ≠ [] → segments ≠ init ++ [[]])
    (hno : ¬ ['|'] <+: ds) (h' : BarSplits ds segments') :
    BarSplits (cs ++ '|' :: ds) (segments ++ segments') := by
  induction h with
  | last hx => exact .cons hx hw hno h'
  | @cons x rest segments hx hx' hrest hr ih =>
      rw [walk_append, hx', walk_cons, feed_empty (by decide)] at hw
      have hsecond : ¬ ['|'] <+: rest ++ '|' :: ds := by
        cases rest with
        | nil =>
            have hempty : segments = [[]] := (splitBars_eq_iff.mpr hr).symm
            exact absurd (by rw [hempty]; rfl) (hend [x] (List.cons_ne_nil x []))
        | cons d rest => exact fun hpre => hrest (by simpa using hpre)
      rw [List.append_assoc, List.cons_append]
      refine .cons hx hx' hsecond (ih hw fun init hinit heq => ?_)
      exact hend (x :: init) (List.cons_ne_nil x init) (by rw [heq]; rfl)

/-! ### Pieces in a row -/

/-- Every piece is free of separators, and all but the last leave no string and no bracket open. -/
def Chained (free : List Char → Prop) : List (List Char) → Prop
  | [] => True
  | [x] => free x
  | x :: y :: xs => free x ∧ Nesting.walk {} x = {} ∧ Chained free (y :: xs)

variable {free : List Char → Prop} {x : List Char} {xs : List (List Char)}

theorem chained_cons_iff :
    Chained free (x :: xs) ↔ free x ∧ (xs ≠ [] → Nesting.walk {} x = {}) ∧ Chained free xs := by
  cases xs <;> simp [Chained]

theorem Splits.chained (h : Splits sep cs pieces) : Chained (SepFree sep {}) pieces := by
  induction h with
  | last hx => exact hx
  | cons hx hw _ ih => exact chained_cons_iff.mpr ⟨hx, fun _ => hw, ih⟩

theorem BarSplits.chained (h : BarSplits cs segments) : Chained (BarFree {}) segments := by
  induction h with
  | last hx => exact hx
  | cons hx hw _ _ ih => exact chained_cons_iff.mpr ⟨hx, fun _ => hw, ih⟩

/-- Pieces stay in a row when each is replaced, or left out, by one that leaves no more open. -/
theorem Chained.filterMap {g : List Char → Option (List Char)} (h : Chained free xs)
    (hg : ∀ x y, g x = some y → free x →
      free y ∧ (Nesting.walk {} x = {} → Nesting.walk {} y = {})) :
    Chained free (xs.filterMap g) := by
  induction xs with
  | nil => trivial
  | cons x xs ih =>
      obtain ⟨hx, hw, hxs⟩ := chained_cons_iff.mp h
      rw [List.filterMap_cons]
      split
      · exact ih hxs
      · next y hy =>
          obtain ⟨hfree, hwalk⟩ := hg x y hy hx
          refine chained_cons_iff.mpr ⟨hfree, fun hne => hwalk (hw ?_), ih hxs⟩
          rintro rfl
          exact hne rfl

theorem Chained.of_concat {last : List Char} (h : Chained free (xs ++ [last])) :
    Chained free xs := by
  induction xs with
  | nil => trivial
  | cons x xs ih =>
      obtain ⟨hx, hw, hxs⟩ := chained_cons_iff.mp h
      exact chained_cons_iff.mpr ⟨hx, fun _ => hw (by simp), ih hxs⟩

/-- Nothing is open behind the first pieces, with their separators, where more pieces follow. -/
theorem Chained.walk_intercalate {left right : List (List Char)} (hsep : Nesting.feed {} sep = {})
    (h : Chained free (left ++ right)) (hne : right ≠ []) :
    Nesting.walk {} ([sep].intercalate left) = {} := by
  induction left with
  | nil => rfl
  | cons x left ih =>
      obtain ⟨-, hw, hrest⟩ := chained_cons_iff.mp h
      have hx := hw (by simp [hne])
      cases left with
      | nil => rwa [List.intercalate_singleton]
      | cons y left =>
          rw [List.intercalate_cons_cons, walk_append, walk_append, hx, walk_cons, walk_nil, hsep]
          exact ih hrest

theorem Splits.infix_of_mem (h : Splits sep cs pieces) : ∀ x ∈ pieces, x <:+: cs := by
  induction h with
  | last => simp
  | @cons x rest pieces _ _ _ ih =>
      refine List.forall_mem_cons.mpr ⟨(List.prefix_append x _).isInfix, fun y hy => ?_⟩
      exact (ih y hy).trans ((List.suffix_cons sep rest).trans (List.suffix_append x _)).isInfix

theorem BarSplits.infix_of_mem (h : BarSplits cs segments) : ∀ x ∈ segments, x <:+: cs := by
  induction h with
  | last => simp
  | @cons x rest segments _ _ _ _ ih =>
      refine List.forall_mem_cons.mpr ⟨(List.prefix_append x _).isInfix, fun y hy => ?_⟩
      exact (ih y hy).trans ((List.suffix_cons '|' rest).trans (List.suffix_append x _)).isInfix

end Blade
