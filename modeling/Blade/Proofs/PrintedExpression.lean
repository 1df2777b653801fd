import Blade.Expression
import Blade.Proofs.Splitting

/-!
# Proofs — PrintedExpression

Output expressions printed and read again.  Printing changes only the blank characters beside
separators and at the two ends, and drops separators after which nothing is left; none of this opens
or closes a string or a bracket, or makes or breaks a single bar.

* `parse?_display`: a printed filter is read as it is, but for an empty last argument.
* `parse_printExpression`: so is the printed inside of an output expression.
* `not_infix_printExpression`: a terminator that is not inside an expression is not inside the
  printed one.
-/

namespace Blade

open Nesting

variable {n : Nesting} {sep : Char} {x : List Char}

/-- A walk that blank characters do not change. -/
structure Settled (n : Nesting) : Prop where
  sane : n.Sane
  settle : n.settle = n

theorem settled_empty : Settled {} := ⟨sane_empty, rfl⟩

theorem settled_settle (h : n.Sane) : Settled n.settle := by
  refine ⟨?_, settle_settle n⟩
  obtain ⟨string, depth⟩ := n
  cases string with
  | none => exact sane_empty
  | some s =>
      rintro s' ⟨⟩
      exact h s rfl

theorem plain_of_blanks {cs : List Char} (h : ∀ c ∈ cs, Text.isBlank c) : ∀ c ∈ cs, Plain c :=
  fun c hc => plain_of_isBlank (h c hc)

/-! ### Blank characters around a piece -/

theorem sepFree_blanks {cs : List Char} (hs : Text.isBlank sep = false)
    (hcs : ∀ c ∈ cs, Text.isBlank c) : SepFree sep n cs := by
  induction cs generalizing n with
  | nil => trivial
  | cons c cs ih =>
      have hne := ne_of_isBlank (hcs c (List.mem_cons_self ..)) hs
      exact ⟨by simp [hne], ih fun d hd => hcs d (List.mem_cons_of_mem _ hd)⟩

theorem barFree_blanks_append {cs ys : List Char} (hcs : ∀ c ∈ cs, Text.isBlank c) :
    BarFree n (cs ++ ys) ↔ BarFree (n.walk cs) ys := by
  induction cs generalizing n with
  | nil => rfl
  | cons c cs ih =>
      have hne := ne_of_isBlank (hcs c (List.mem_cons_self ..)) (d := '|') (by decide)
      rw [List.cons_append, barFree_cons hne, walk_cons]
      exact ih fun d hd => hcs d (List.mem_cons_of_mem _ hd)

theorem not_bar_prefix_blanks {cs : List Char} (hcs : ∀ c ∈ cs, Text.isBlank c) :
    ¬ ['|'] <+: cs := fun h =>
  ne_of_isBlank (hcs '|' (h.subset (List.mem_singleton_self _))) (d := '|') (by decide) rfl

/-- Blank characters around a piece change nothing behind it. -/
theorem settle_walk_pad {before after : List Char} (hn : Settled n)
    (hb : ∀ c ∈ before, Text.isBlank c) (ha : ∀ c ∈ after, Text.isBlank c) :
    (n.walk (before ++ x ++ after)).settle = (n.walk x).settle := by
  rw [walk_append, walk_append, walk_plain_of_settled hn.sane hn.settle (plain_of_blanks hb),
    walk_plain (hn.sane.walk x) (plain_of_blanks ha)]

/-- Blank characters around a piece make and break no separator. -/
theorem sepFree_pad {before after : List Char} (hs : Text.isBlank sep = false) (hn : Settled n)
    (hb : ∀ c ∈ before, Text.isBlank c) (ha : ∀ c ∈ after, Text.isBlank c) :
    SepFree sep n (before ++ x ++ after) ↔ SepFree sep n x := by
  rw [sepFree_append, sepFree_append,
    walk_plain_of_settled hn.sane hn.settle (plain_of_blanks hb)]
  exact ⟨fun h => h.1.2, fun h => ⟨⟨sepFree_blanks hs hb, h⟩, sepFree_blanks hs ha⟩⟩

/-- Blank characters around a piece make and break no single bar. -/
theorem barFree_pad {before after : List Char} (hn : Settled n)
    (hb : ∀ c ∈ before, Text.isBlank c) (ha : ∀ c ∈ after, Text.isBlank c) :
    BarFree n (before ++ x ++ after) ↔ BarFree n x := by
  rw [List.append_assoc, barFree_blanks_append hb,
    walk_plain_of_settled hn.sane hn.settle (plain_of_blanks hb),
    barFree_append (not_bar_prefix_blanks ha)]
  refine and_iff_left ?_
  have hafter : BarFree (n.walk x) (after ++ []) := (barFree_blanks_append ha).mpr trivial
  rwa [List.append_nil] at hafter

theorem settle_walk_trim (hn : Settled n) :
    (n.walk (Text.trimChars x)).settle = (n.walk x).settle := by
  obtain ⟨before, after, hx, hb, ha⟩ := Text.exists_trimChars x
  conv_rhs => rw [hx]
  exact (settle_walk_pad hn hb ha).symm

theorem sepFree_trim (hs : Text.isBlank sep = false) (hn : Settled n) (h : SepFree sep n x) :
    SepFree sep n (Text.trimChars x) := by
  obtain ⟨before, after, hx, hb, ha⟩ := Text.exists_trimChars x
  rw [hx] at h
  exact (sepFree_pad hs hn hb ha).mp h

theorem barFree_trim (hn : Settled n) (h : BarFree n x) : BarFree n (Text.trimChars x) := by
  obtain ⟨before, after, hx, hb, ha⟩ := Text.exists_trimChars x
  rw [hx] at h
  exact (barFree_pad hn hb ha).mp h

/-- A walk that ends outside all strings and brackets does so past a trimmed text. -/
theorem walk_trim_eq_empty (h : Nesting.walk {} x = {}) :
    Nesting.walk {} (Text.trimChars x) = {} := by
  rw [← settle_eq_empty_iff, settle_walk_trim settled_empty, h]
  rfl

/-! ### Separators inside a segment -/

theorem barFree_sep {y : List Char} (hn : n.Sane) (hs : Plain sep) (hbar : sep ≠ '|') :
    BarFree n (x ++ sep :: y) ↔ BarFree n x ∧ BarFree (n.walk x).settle y := by
  have hno : ¬ ['|'] <+: sep :: y := fun h => hbar (List.cons_prefix_cons.mp h).1.symm
  rw [barFree_append hno, barFree_cons hbar, feed_plain (hn.walk x) hs]

theorem walk_sep {y : List Char} (hn : n.Sane) (hs : Plain sep) :
    n.walk (x ++ sep :: y) = (n.walk x).settle.walk y := by
  rw [walk_append, walk_cons, feed_plain (hn.walk x) hs]

/-- The pieces of a segment, trimmed and with a blank after each comma, hold no more single bars
than the segment. -/
theorem barFree_respaced {pieces : List (List Char)} (hn : Settled n)
    (h : BarFree n ([','].intercalate pieces)) :
    BarFree n ([',', ' '].intercalate (pieces.map Text.trimChars)) ∧
      (n.walk ([',', ' '].intercalate (pieces.map Text.trimChars))).settle =
        (n.walk ([','].intercalate pieces)).settle := by
  have hcomma : Plain ',' := ⟨by decide, by decide⟩
  induction pieces generalizing n with
  | nil => exact ⟨trivial, rfl⟩
  | cons x pieces ih =>
      cases pieces with
      | nil =>
          rw [List.intercalate_singleton] at h
          rw [List.map_singleton, List.intercalate_singleton, List.intercalate_singleton]
          exact ⟨barFree_trim hn h, settle_walk_trim hn⟩
      | cons y pieces =>
          rw [List.intercalate_cons_cons, List.append_assoc, List.singleton_append] at h
          obtain ⟨hx, hrest⟩ := (barFree_sep hn.sane hcomma (by decide)).mp h
          have hm := settled_settle (hn.sane.walk x)
          obtain ⟨hfree, hwalk⟩ := ih hm hrest
          -- the blank behind the comma opens and closes nothing
          have hblank : (n.walk x).settle.feed ' ' = (n.walk x).settle := by
            rw [feed_plain hm.sane (plain_of_isBlank (by decide)), hm.settle]
          have hjoin : [',', ' '].intercalate ((x :: y :: pieces).map Text.trimChars) =
              Text.trimChars x ++
                ',' :: ' ' :: [',', ' '].intercalate ((y :: pieces).map Text.trimChars) := by
            rw [List.map_cons, List.map_cons, List.intercalate_cons_cons, List.append_assoc]
            rfl
          rw [hjoin, List.intercalate_cons_cons, List.append_assoc, List.singleton_append,
            barFree_sep hn.sane hcomma (by decide), walk_sep hn.sane hcomma,
            walk_sep hn.sane hcomma, settle_walk_trim hn, barFree_cons (by decide), walk_cons,
            hblank]
          exact ⟨⟨barFree_trim hn hx, hfree⟩, hwalk⟩

/-! ### Filters -/

theorem cutFirst_of_not_mem {cs : List Char} (h : sep ∉ cs) : Text.cutFirst sep cs = (cs, []) := by
  have hall : ∀ c ∈ cs, (c != sep) = true := fun c hc => by
    simpa using fun heq : c = sep => h (heq ▸ hc)
  rw [Text.cutFirst, List.takeWhile_eq_self_iff.mpr hall, List.dropWhile_eq_nil_iff.mpr hall]
  rfl

theorem cutFirst_append {cs ds : List Char} (h : sep ∉ cs) :
    Text.cutFirst sep (cs ++ sep :: ds) = (cs, ds) := by
  have hall : ∀ c ∈ cs, (c != sep) = true := fun c hc => by
    simpa using fun heq : c = sep => h (heq ▸ hc)
  have hstop : StopsAt (fun c => c != sep) (sep :: ds) := by simp
  rw [Text.cutFirst, takeWhile_append_stop hall hstop, dropWhile_append_stop hall hstop]
  rfl

theorem exists_cutFirst (sep : Char) (cs : List Char) :
    sep ∉ cs ∨ ∃ before after, cs = before ++ sep :: after ∧ sep ∉ before := by
  obtain ⟨xs, ys, rfl, hx, hy⟩ := exists_run (fun c => c != sep) cs
  have hnot : sep ∉ xs := fun h => by simpa using hx sep h
  cases ys with
  | nil => exact .inl (by rwa [List.append_nil])
  | cons c ys =>
      have hc : c = sep := by simpa using hy
      exact .inr ⟨xs, ys, by rw [hc], hnot⟩

theorem dropEmptyLast_concat (args : List (List Char)) (last : List Char) :
    dropEmptyLast (args ++ [last]) = if last = [] then args else args ++ [last] := by
  unfold dropEmptyLast
  rw [List.getLast?_concat, List.dropLast_concat]
  by_cases h : last = [] <;> simp [h]

/-- A filter as it is printed: its name, and its arguments after a colon. -/
theorem toList_display (name : List Char) (args : List (List Char)) :
    (Filter.display ⟨String.ofList name, args.map String.ofList⟩).toList =
      if args = [] then name else name ++ ':' :: [',', ' '].intercalate args := by
  cases args with
  | nil => simp [Filter.display]
  | cons a args =>
      simp [Filter.display, String.toList_intercalate, Function.comp_def]

/-- What a segment says when it is read as a filter: a name alone, or a name, a colon and pieces
between commas. -/
theorem parse?_cases {segment : List Char} {f : Filter} (h : Filter.parse? segment = some f) :
    (':' ∉ segment ∧ Text.trimChars segment ≠ [] ∧
        f = ⟨String.ofList (Text.trimChars segment), ([] : List (List Char)).map String.ofList⟩) ∨
      ∃ before after pieces, segment = before ++ ':' :: after ∧ ':' ∉ before ∧
        Splits ',' after pieces ∧ Text.trimChars before ≠ [] ∧
        f = ⟨String.ofList (Text.trimChars before),
          (dropEmptyLast (pieces.map Text.trimChars)).map String.ofList⟩ := by
  unfold Filter.parse? at h
  rcases exists_cutFirst ':' segment with hno | ⟨before, after, rfl, hno⟩
  · rw [cutFirst_of_not_mem hno] at h
    dsimp only at h
    split at h
    · cases h
    · next hne =>
        rw [Option.some.injEq] at h
        exact .inl ⟨hno, hne, h.symm⟩
  · rw [cutFirst_append hno] at h
    dsimp only at h
    split at h
    · cases h
    · next hne =>
        rw [Option.some.injEq] at h
        exact .inr ⟨before, after, _, rfl, hno, (splitTop_eq_iff (by decide)).mp rfl, hne, h.symm⟩

theorem trimChars_eq_nil_iff {cs : List Char} :
    Text.trimChars cs = [] ↔ ∀ c ∈ cs, Text.isBlank c = true := by
  constructor
  · intro h
    obtain ⟨before, after, hcs, hb, ha⟩ := Text.exists_trimChars cs
    rw [h, List.append_nil] at hcs
    rw [hcs]
    exact List.forall_mem_append.mpr ⟨hb, ha⟩
  · intro h
    rw [← List.append_nil cs]
    exact Text.trimChars_append_left ⟨stopsAt_nil _, stopsAt_nil _⟩ h

theorem intercalate_append {sep : List Char} {xs ys : List (List Char)} (hx : xs ≠ [])
    (hy : ys ≠ []) : sep.intercalate (xs ++ ys) = sep.intercalate xs ++ sep ++ sep.intercalate ys := by
  induction xs with
  | nil => exact absurd rfl hx
  | cons x xs ih =>
      by_cases hxs : xs = []
      · rw [hxs, List.singleton_append, List.intercalate_cons_of_ne_nil hy,
          List.intercalate_singleton]
      · rw [List.cons_append, List.intercalate_cons_of_ne_nil (by simp [hxs]), ih hxs,
          List.intercalate_cons_of_ne_nil hxs]
        simp only [List.append_assoc]

theorem intercalate_concat {sep last : List Char} {xs : List (List Char)} (h : xs ≠ []) :
    sep.intercalate (xs ++ [last]) = sep.intercalate xs ++ sep ++ last := by
  rw [intercalate_append h (List.cons_ne_nil last []), List.intercalate_singleton]

/-- So do the pieces without a blank last one. -/
theorem barFree_dropEmptyLast {pieces : List (List Char)} (hn : Settled n)
    (hne : dropEmptyLast (pieces.map Text.trimChars) ≠ [])
    (h : BarFree n ([','].intercalate pieces)) :
    BarFree n ([',', ' '].intercalate (dropEmptyLast (pieces.map Text.trimChars))) ∧
      (n.walk ([','].intercalate pieces) = {} →
        n.walk ([',', ' '].intercalate (dropEmptyLast (pieces.map Text.trimChars))) = {}) := by
  have hcomma : Plain ',' := ⟨by decide, by decide⟩
  rcases pieces.eq_nil_or_concat' with rfl | ⟨init, last, rfl⟩
  · exact absurd rfl hne
  · rw [List.map_append, List.map_singleton, dropEmptyLast_concat] at hne ⊢
    by_cases hlast : Text.trimChars last = []
    · rw [if_pos hlast] at hne ⊢
      have hinit : init ≠ [] := fun h0 => hne (by rw [h0]; rfl)
      rw [intercalate_concat hinit, List.append_assoc, List.singleton_append] at h ⊢
      have hfirst := ((barFree_sep hn.sane hcomma (by decide)).mp h).1
      obtain ⟨hfree, hsettle⟩ := barFree_respaced hn hfirst
      refine ⟨hfree, fun hw => ?_⟩
      -- nothing but blank characters follows the last comma
      rw [walk_sep hn.sane hcomma, walk_plain_of_settled (settled_settle (hn.sane.walk _)).sane
        (settle_settle _) (plain_of_blanks (trimChars_eq_nil_iff.mp hlast))] at hw
      rw [← settle_eq_empty_iff, hsettle, hw]
    · obtain ⟨hfree, hsettle⟩ := barFree_respaced hn h
      rw [List.map_append, List.map_singleton] at hfree hsettle
      rw [if_neg hlast]
      refine ⟨hfree, fun hw => ?_⟩
      rw [← settle_eq_empty_iff, hsettle, hw]
      rfl

/-- Without arguments, only blank characters follow the colon. -/
theorem blank_of_dropEmptyLast_eq_nil {pieces : List (List Char)}
    (h : dropEmptyLast (pieces.map Text.trimChars) = []) :
    ∀ c ∈ [','].intercalate pieces, Text.isBlank c = true := by
  rcases pieces.eq_nil_or_concat' with rfl | ⟨init, last, rfl⟩
  · simp
  · rw [List.map_append, List.map_singleton, dropEmptyLast_concat] at h
    by_cases hlast : Text.trimChars last = []
    · rw [if_pos hlast, List.map_eq_nil_iff] at h
      subst h
      rw [List.nil_append, List.intercalate_singleton]
      exact trimChars_eq_nil_iff.mp hlast
    · rw [if_neg hlast] at h
      simp at h

/-- **A printed filter holds no more single bars than its segment**, and leaves nothing open that
its segment does not. -/
theorem barFree_display {segment : List Char} {f : Filter} (h : Filter.parse? segment = some f)
    (hb : BarFree {} segment) :
    BarFree {} f.display.toList ∧
      (Nesting.walk {} segment = {} → Nesting.walk {} f.display.toList = {}) := by
  have hcolon : Plain ':' := ⟨by decide, by decide⟩
  rcases parse?_cases h with ⟨-, -, rfl⟩ | ⟨before, after, pieces, rfl, -, hsplits, -, rfl⟩
  · rw [toList_display, if_pos rfl]
    exact ⟨barFree_trim settled_empty hb, walk_trim_eq_empty⟩
  · obtain ⟨hbefore, hafter⟩ := (barFree_sep sane_empty hcolon (by decide)).mp hb
    have hm := settled_settle (sane_empty.walk before)
    rw [hsplits.eq_intercalate] at hafter ⊢
    rw [toList_display, walk_sep sane_empty hcolon]
    by_cases hargs : dropEmptyLast (pieces.map Text.trimChars) = []
    · rw [if_pos hargs]
      refine ⟨barFree_trim settled_empty hbefore, fun hw => walk_trim_eq_empty ?_⟩
      rwa [walk_plain_of_settled hm.sane hm.settle
        (plain_of_blanks (blank_of_dropEmptyLast_eq_nil hargs)), settle_eq_empty_iff] at hw
    · rw [if_neg hargs, barFree_sep sane_empty hcolon (by decide), walk_sep sane_empty hcolon,
        settle_walk_trim settled_empty]
      obtain ⟨hfree, hwalk⟩ := barFree_dropEmptyLast hm hargs hafter
      exact ⟨⟨barFree_trim settled_empty hbefore, hfree⟩, hwalk⟩

/-! ### Printed filters are read again -/

theorem blank_space : ∀ c ∈ [' '], Text.isBlank c = true :=
  List.forall_mem_singleton.mpr (by decide)

/-- Trimmed pieces joined by `, `, with blank characters around them, are cut apart again. -/
theorem exists_splits_respaced {args : List (List Char)} (hne : args ≠ [])
    (hc : Chained (SepFree ',' {}) args) (ht : ∀ a ∈ args, Text.Trimmed a) {before : List Char}
    (hb : ∀ c ∈ before, Text.isBlank c) :
    ∃ pieces, Splits ',' (before ++ [',', ' '].intercalate args ++ [' ']) pieces ∧
      pieces.map Text.trimChars = args := by
  induction args generalizing before with
  | nil => exact absurd rfl hne
  | cons a args ih =>
      obtain ⟨hfree, hw, hrest⟩ := chained_cons_iff.mp hc
      have hta := ht a (List.mem_cons_self ..)
      cases args with
      | nil =>
          refine ⟨[before ++ a ++ [' ']], ?_, ?_⟩
          · rw [List.intercalate_singleton]
            exact .last ((sepFree_pad (by decide) settled_empty hb blank_space).mpr hfree)
          · rw [List.map_singleton, Text.trimChars_append hta hb blank_space]
      | cons b args =>
          -- behind a comma, a piece has the blank of the separator in front
          obtain ⟨pieces, hpieces, hmap⟩ := ih (by simp) hrest
            (fun x hx => ht x (List.mem_cons_of_mem _ hx)) blank_space
          have hpad : SepFree ',' {} (before ++ a ++ []) :=
            (sepFree_pad (by decide) settled_empty hb (by simp)).mpr hfree
          have hwalk : (walk {} (before ++ a ++ [])).settle = (walk {} a).settle :=
            settle_walk_pad settled_empty hb (by simp)
          rw [hw (by simp)] at hwalk
          refine ⟨(before ++ a ++ []) :: pieces, ?_, ?_⟩
          · have := Splits.cons hpad (settle_eq_empty_iff.mp hwalk) hpieces
            rw [List.intercalate_cons_cons]
            simpa [List.append_assoc] using this
          · rw [List.map_cons, Text.trimChars_append hta hb (by simp), hmap]

/-- A filter that is printed with a blank on each side. -/
def padded (cs : List Char) : List Char := ' ' :: (cs ++ [' '])

theorem trimChars_padded {cs : List Char} (h : Text.Trimmed cs) :
    Text.trimChars (padded cs) = cs :=
  Text.trimChars_append h blank_space blank_space

theorem parse?_of_not_mem {segment : List Char} (h : ':' ∉ segment)
    (hne : Text.trimChars segment ≠ []) :
    Filter.parse? segment = some ⟨String.ofList (Text.trimChars segment), []⟩ := by
  unfold Filter.parse?
  rw [cutFirst_of_not_mem h]
  dsimp only
  split
  · next h0 => exact absurd h0 hne
  · rfl

theorem parse?_of_splits {before after : List Char} {pieces : List (List Char)} (h : ':' ∉ before)
    (hs : Splits ',' after pieces) (hne : Text.trimChars before ≠ []) :
    Filter.parse? (before ++ ':' :: after) = some ⟨String.ofList (Text.trimChars before),
      (dropEmptyLast (pieces.map Text.trimChars)).map String.ofList⟩ := by
  unfold Filter.parse?
  rw [cutFirst_append h, ← (splitTop_eq_iff (by decide)).mpr hs]
  dsimp only
  split
  · next h0 => exact absurd h0 hne
  · rfl

theorem not_mem_trimChars {c : Char} {cs : List Char} (h : c ∉ cs) : c ∉ Text.trimChars cs := by
  obtain ⟨before, after, hcs, -, -⟩ := Text.exists_trimChars cs
  intro hc
  rw [hcs] at h
  exact h (by simp [hc])

theorem chained_dropEmptyLast {pieces : List (List Char)} (h : Chained (SepFree ',' {}) pieces) :
    Chained (SepFree ',' {}) (dropEmptyLast (pieces.map Text.trimChars)) := by
  have htrim : Chained (SepFree ',' {}) (pieces.map Text.trimChars) := by
    rw [← List.filterMap_eq_map]
    refine h.filterMap fun x y hxy hx => ?_
    cases hxy
    exact ⟨sepFree_trim (by decide) settled_empty hx, walk_trim_eq_empty⟩
  rcases (pieces.map Text.trimChars).eq_nil_or_concat' with hnil | ⟨init, last, hconcat⟩
  · rw [hnil]; trivial
  · rw [hconcat] at htrim ⊢
    rw [dropEmptyLast_concat]
    split
    · exact htrim.of_concat
    · exact htrim

theorem mem_of_mem_dropEmptyLast {args : List (List Char)} {a : List Char}
    (h : a ∈ dropEmptyLast args) : a ∈ args := by
  unfold dropEmptyLast at h
  split at h
  · exact List.mem_of_mem_dropLast h
  · exact h

theorem trimmed_of_mem_dropEmptyLast {pieces : List (List Char)} {a : List Char}
    (h : a ∈ dropEmptyLast (pieces.map Text.trimChars)) : Text.Trimmed a := by
  obtain ⟨piece, -, rfl⟩ := List.mem_map.mp (mem_of_mem_dropEmptyLast h)
  exact Text.trimmed_trimChars piece

theorem map_dropEmptyLast (args : List (List Char)) :
    (dropEmptyLast args).map String.ofList = withoutEmptyLast (args.map String.ofList) := by
  rcases args.eq_nil_or_concat' with rfl | ⟨init, last, rfl⟩
  · rfl
  · rw [dropEmptyLast_concat, List.map_append, List.map_singleton, withoutEmptyLast_concat]
    by_cases h : last = [] <;> simp [h]

/-- The filter without the last argument when that is empty. -/
def Filter.reread (f : Filter) : Filter := { f with args := withoutEmptyLast f.args }

theorem Filter.reread_eq_iff {f : Filter} : f.reread = f ↔ f.args.getLast? ≠ some "" := by
  rw [← withoutEmptyLast_eq_iff]
  exact ⟨fun h => congrArg Filter.args h, fun h => by rw [Filter.reread, h]⟩

theorem Filter.map_reread_eq_iff {filters : List Filter} :
    filters.map Filter.reread = filters ↔ ∀ f ∈ filters, f.args.getLast? ≠ some "" := by
  conv_lhs => rhs; rw [← List.map_id filters]
  simp only [List.map_inj_left, id_eq, Filter.reread_eq_iff]

/-- **A printed filter is read as it is**, but for an empty last argument. -/
theorem parse?_display {segment : List Char} {f : Filter} (h : Filter.parse? segment = some f) :
    Filter.parse? (padded f.display.toList) = some f.reread := by
  rcases parse?_cases h with ⟨hno, hne, rfl⟩ | ⟨before, after, pieces, rfl, hno, hsplits, hne, rfl⟩
  · have htrim := trimChars_padded (Text.trimmed_trimChars segment)
    have hcolon : ':' ∉ padded (Text.trimChars segment) := by
      simp [padded, not_mem_trimChars hno]
    rw [toList_display, if_pos rfl, parse?_of_not_mem hcolon (by rwa [htrim]), htrim]
    rfl
  · have htrim := trimChars_padded (Text.trimmed_trimChars before)
    rw [toList_display]
    by_cases hargs : dropEmptyLast (pieces.map Text.trimChars) = []
    · have hcolon : ':' ∉ padded (Text.trimChars before) := by
        simp [padded, not_mem_trimChars hno]
      rw [if_pos hargs, parse?_of_not_mem hcolon (by rwa [htrim]), htrim, hargs]
      rfl
    · obtain ⟨printed, hprinted, hmap⟩ := exists_splits_respaced hargs
        (chained_dropEmptyLast hsplits.chained) (fun a ha => trimmed_of_mem_dropEmptyLast ha)
        (List.forall_mem_nil _)
      have hname : Text.trimChars (' ' :: Text.trimChars before) = Text.trimChars before :=
        Text.trimChars_append_left (Text.trimmed_trimChars before) blank_space
      have hcolon : ':' ∉ ' ' :: Text.trimChars before := by simp [not_mem_trimChars hno]
      have hread := parse?_of_splits hcolon hprinted (by rwa [hname])
      rw [hmap, map_dropEmptyLast, hname] at hread
      rw [if_neg hargs, Filter.reread, ← hread]
      simp [padded, List.append_assoc]

/-! ### Printed expressions are read again -/

/-- The printed inside of an expression: its value and its filters, joined by ` | `. -/
theorem toList_printExpression (value : String) (filters : Option (List Filter)) :
    (Token.printExpression value filters).toList =
      [' ', '|', ' '].intercalate
        (value.toList :: (filters.getD []).map fun f => f.display.toList) := by
  rw [Token.printExpression]
  generalize filters.getD [] = fs
  induction fs generalizing value with
  | nil => simp
  | cons f fs ih =>
      rw [List.foldl_cons, ih, List.map_cons, List.intercalate_cons_cons, String.toList_append,
        String.toList_append]
      generalize fs.map (fun f => f.display.toList) = rest
      cases rest with
      | nil => simp
      | cons d rest => simp [List.intercalate_cons_cons]

/-- Segments joined by ` | `, with a blank at each end, are cut apart again. -/
theorem barSplits_respaced {segments : List (List Char)} (hne : segments ≠ [])
    (hc : Chained (BarFree {}) segments) :
    BarSplits (padded ([' ', '|', ' '].intercalate segments)) (segments.map padded) := by
  induction segments with
  | nil => exact absurd rfl hne
  | cons s segments ih =>
      obtain ⟨hfree, hw, hrest⟩ := chained_cons_iff.mp hc
      have hpad : BarFree {} (padded s) :=
        (barFree_pad settled_empty blank_space blank_space).mpr hfree
      cases segments with
      | nil =>
          rw [List.intercalate_singleton, List.map_singleton]
          exact .last hpad
      | cons t segments =>
          have hwalk := settle_walk_pad (x := s) settled_empty blank_space blank_space
          rw [hw (by simp)] at hwalk
          have hno : ¬ ['|'] <+: padded ([' ', '|', ' '].intercalate (t :: segments)) := fun h =>
            absurd (List.cons_prefix_cons.mp h).1 (by decide)
          have := BarSplits.cons hpad (settle_eq_empty_iff.mp hwalk) hno (ih (by simp) hrest)
          rw [List.intercalate_cons_cons]
          simpa [padded, List.append_assoc] using this

/-- The filters of an expression, if there are any. -/
def filtersOf : List Filter → Option (List Filter)
  | [] => none
  | filters => some filters

theorem getD_filtersOf (filters : List Filter) : (filtersOf filters).getD [] = filters := by
  cases filters <;> rfl

/-- The expression with its filters without an empty last argument. -/
def Expression.reread (e : Expression) : Expression :=
  ⟨e.value, e.filters.map (·.map Filter.reread)⟩

theorem filtersOf_map_reread (filters : List Filter) :
    filtersOf (filters.map Filter.reread) = (filtersOf filters).map (·.map Filter.reread) := by
  cases filters <;> rfl

/-- An expression says the trimmed first segment and the filters in the others. -/
theorem parse_of_barSplits {interior : String} {first : List Char} {others : List (List Char)}
    (h : BarSplits interior.toList (first :: others)) :
    Expression.parse interior =
      ⟨String.ofList (Text.trimChars first), filtersOf (others.filterMap Filter.parse?)⟩ := by
  unfold Expression.parse
  simp only [splitBars_eq_iff.mpr h, List.headD_cons, List.tail_cons]
  cases others.filterMap Filter.parse? <;> rfl

theorem exists_segments (interior : String) :
    ∃ first others, BarSplits interior.toList (first :: others) := by
  obtain ⟨segments, h⟩ := exists_barSplits interior.toList
  obtain ⟨first, others, rfl⟩ := List.exists_cons_of_ne_nil h.ne_nil
  exact ⟨first, others, h⟩

/-- **The printed inside of an expression is read as the expression is**, but for the empty last
arguments of its filters. -/
theorem parse_printExpression (interior : String) :
    Expression.parse (" " ++ Token.printExpression (Expression.parse interior).value
      (Expression.parse interior).filters ++ " ") = (Expression.parse interior).reread := by
  obtain ⟨first, others, hsplits⟩ := exists_segments interior
  rw [parse_of_barSplits hsplits]
  obtain ⟨hfirst, hw, hothers⟩ := chained_cons_iff.mp hsplits.chained
  -- the printed filters, in place of their segments
  let displays := (others.filterMap Filter.parse?).map fun f => f.display.toList
  have hdisplays : displays = others.filterMap fun s =>
      (Filter.parse? s).map fun f => f.display.toList := List.map_filterMap
  have hchained : Chained (BarFree {}) (Text.trimChars first :: displays) := by
    refine chained_cons_iff.mpr ⟨barFree_trim settled_empty hfirst, fun hne => ?_, ?_⟩
    · refine walk_trim_eq_empty (hw ?_)
      rintro rfl
      exact hne rfl
    · rw [hdisplays]
      refine hothers.filterMap fun s d hd hs => ?_
      obtain ⟨f, hf, rfl⟩ := Option.map_eq_some_iff.mp hd
      exact barFree_display hf hs
  have hprinted := barSplits_respaced (by simp) hchained
  have hread : (displays.map padded).filterMap Filter.parse? =
      (others.filterMap Filter.parse?).map Filter.reread := by
    rw [List.map_map, List.filterMap_map, ← List.filterMap_eq_map]
    refine List.filterMap_congr fun f hf => ?_
    obtain ⟨segment, -, hsegment⟩ := List.mem_filterMap.mp hf
    exact parse?_display hsegment
  have hinterior : (" " ++ Token.printExpression (String.ofList (Text.trimChars first))
      (filtersOf (others.filterMap Filter.parse?)) ++ " ").toList =
        padded ([' ', '|', ' '].intercalate (Text.trimChars first :: displays)) := by
    simp only [String.toList_append, toList_printExpression, String.toList_ofList, getD_filtersOf]
    rfl
  rw [← hinterior, List.map_cons] at hprinted
  rw [parse_of_barSplits hprinted, hread, trimChars_padded (Text.trimmed_trimChars first),
    filtersOf_map_reread]
  rfl

/-! ### Terminators -/

variable {pattern : List Char}

/-- A prefix of `c :: ys` without `c` is empty. -/
theorem eq_nil_of_prefix_cons {c : Char} {q ys : List Char} (hc : c ∉ q) (h : q <+: c :: ys) :
    q = [] := by
  cases q with
  | nil => rfl
  | cons d q => exact absurd (by simp [(List.cons_prefix_cons.mp h).1]) hc

/-- A pattern that is in neither of two texts is not in them around a character foreign to it. -/
theorem not_infix_append_cons {xs ys : List Char} {c : Char} (hc : c ∉ pattern)
    (hx : ¬ pattern <:+: xs) (hy : ¬ pattern <:+: ys) : ¬ pattern <:+: xs ++ c :: ys := by
  intro h
  rcases List.infix_append_iff.mp h with h | h | ⟨p, q, rfl, hp, hq⟩
  · exact hx h
  · rcases List.infix_cons_iff.mp h with h | h
    · exact hx (eq_nil_of_prefix_cons hc h ▸ List.nil_infix)
    · exact hy h
  · have hq := eq_nil_of_prefix_cons (fun h => hc (List.mem_append_right p h)) hq
    rw [hq, List.append_nil] at hx
    exact hx hp.isInfix

/-- A pattern that is in no piece is not in the pieces joined by characters foreign to it. -/
theorem not_infix_intercalate {sep : List Char} {pieces : List (List Char)} (hp : pattern ≠ [])
    (hs : ∀ c ∈ sep, c ∉ pattern) (hsep : sep ≠ []) (h : ∀ x ∈ pieces, ¬ pattern <:+: x) :
    ¬ pattern <:+: sep.intercalate pieces := by
  have hnil : ¬ pattern <:+: [] := fun h => hp (List.infix_nil.mp h)
  have happend : ∀ {sep : List Char} {x y : List Char}, sep ≠ [] → (∀ c ∈ sep, c ∉ pattern) →
      ¬ pattern <:+: x → ¬ pattern <:+: y → ¬ pattern <:+: x ++ sep ++ y := by
    intro sep x y hsep hs hx hy
    induction sep generalizing x with
    | nil => exact absurd rfl hsep
    | cons c sep ih =>
        rw [List.append_assoc, List.cons_append]
        refine not_infix_append_cons (hs c (List.mem_cons_self ..)) hx ?_
        cases sep with
        | nil => exact hy
        | cons d sep =>
            exact ih (by simp) (fun e he => hs e (List.mem_cons_of_mem _ he)) hnil
  induction pieces with
  | nil => exact hnil
  | cons x pieces ih =>
      have hx := h x (List.mem_cons_self ..)
      cases pieces with
      | nil => rwa [List.intercalate_singleton]
      | cons y pieces =>
          rw [List.intercalate_cons_cons]
          exact happend hsep hs hx (ih fun z hz => h z (List.mem_cons_of_mem _ hz))

theorem not_infix_display {segment : List Char} {f : Filter} (hp : pattern ≠ [])
    (hforeign : ∀ c ∈ [' ', '|', ':', ','], c ∉ pattern) (hf : Filter.parse? segment = some f)
    (h : ¬ pattern <:+: segment) : ¬ pattern <:+: f.display.toList := by
  rcases parse?_cases hf with ⟨-, -, rfl⟩ | ⟨before, after, pieces, rfl, -, hsplits, -, rfl⟩
  · rw [toList_display, if_pos rfl]
    exact fun hin => h (hin.trans (Text.trimChars_infix segment))
  · have hname : ¬ pattern <:+: Text.trimChars before := fun hin =>
      h ((hin.trans (Text.trimChars_infix before)).trans (List.prefix_append before _).isInfix)
    rw [toList_display]
    split
    · exact hname
    · refine not_infix_append_cons (hforeign ':' (by simp)) hname ?_
      refine not_infix_intercalate hp (fun c hc => hforeign c ?_) (by simp) fun a ha hin => h ?_
      · rcases List.mem_pair.mp hc with rfl | rfl <;> simp
      · obtain ⟨piece, hpiece, rfl⟩ := List.mem_map.mp (mem_of_mem_dropEmptyLast ha)
        have hafter := (Text.trimChars_infix piece).trans (hsplits.infix_of_mem piece hpiece)
        exact (hin.trans hafter).trans
          ((List.suffix_cons ':' after).trans (List.suffix_append before _)).isInfix

/-- **A terminator that is not inside an expression is not inside the printed one**, when no
separator is part of it. -/
theorem not_infix_printExpression {interior : String} (hp : pattern ≠ [])
    (hforeign : ∀ c ∈ [' ', '|', ':', ','], c ∉ pattern) (h : ¬ pattern <:+: interior.toList) :
    ¬ pattern <:+: (Token.printExpression (Expression.parse interior).value
      (Expression.parse interior).filters).toList := by
  obtain ⟨first, others, hsplits⟩ := exists_segments interior
  rw [parse_of_barSplits hsplits, toList_printExpression, getD_filtersOf, String.toList_ofList]
  have hsegment : ∀ s ∈ first :: others, ¬ pattern <:+: s := fun s hs hin =>
    h (hin.trans (hsplits.infix_of_mem s hs))
  refine not_infix_intercalate hp (fun c hc => hforeign c ?_) (by simp) ?_
  · simp only [List.mem_cons, List.not_mem_nil, or_false] at hc
    rcases hc with rfl | rfl | rfl <;> simp
  · refine List.forall_mem_cons.mpr ⟨fun hin => ?_, ?_⟩
    · exact hsegment first (List.mem_cons_self ..) (hin.trans (Text.trimChars_infix first))
    · rintro d hd
      obtain ⟨f, hf, rfl⟩ := List.mem_map.mp hd
      obtain ⟨s, hs, hparse⟩ := List.mem_filterMap.mp hf
      exact not_infix_display hp hforeign hparse (hsegment s (List.mem_cons_of_mem _ hs))

end Blade
