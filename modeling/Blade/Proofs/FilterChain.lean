import Blade.Limits.Development
import Blade.Proofs.ArgumentText

/-!
# Proofs — FilterChain

Filter chains, and the arguments that filters share with directives.

A chain is read segment by segment, and each segment and each argument is trimmed.  So blank
characters around an expression change nothing, and a chain that is printed with one blank around
each bar is read again as it stands, without any blanks around the whole.

* `Filter.parse?_pad`, `Expression.parse_pad`: blank characters around a segment, and around an
  expression, change nothing.
* `Expression.parse_print`: the printed expression is read as the expression, exactly if none of its
  filters ends with an empty argument.
* `Cursor.arguments_eq_filter_args`: behind the colon of a filter, the text of an argument list has
  the arguments of that list.
-/

namespace Blade

open Nesting

variable {sep : Char} {cs before after : List Char} {pieces segments : List (List Char)}

/-! ### Blank characters around a text -/

/-- Blank characters around a text go to its first and last pieces. -/
theorem exists_splits_pad (hs : Text.isBlank sep = false) (h : Splits sep cs pieces)
    (hb : ∀ c ∈ before, Text.isBlank c) (ha : ∀ c ∈ after, Text.isBlank c) :
    ∃ padded, Splits sep (before ++ cs ++ after) padded ∧
      padded.map Text.trimChars = pieces.map Text.trimChars := by
  induction h generalizing before with
  | @last x hx =>
      refine ⟨[before ++ x ++ after], .last ((sepFree_pad hs settled_empty hb ha).mpr hx), ?_⟩
      rw [List.map_singleton, List.map_singleton, Text.trimChars_pad hb ha]
  | @cons x rest pieces hx hw _ ih =>
      have hnil : ∀ c ∈ ([] : List Char), Text.isBlank c := List.forall_mem_nil _
      obtain ⟨padded, hpadded, hmap⟩ := ih hnil
      have hfree := (sepFree_pad hs settled_empty hb hnil).mpr hx
      have hwalk := settle_walk_pad (x := x) settled_empty hb hnil
      rw [hw] at hwalk
      refine ⟨(before ++ x ++ []) :: padded, ?_, ?_⟩
      · have := Splits.cons hfree (settle_eq_empty_iff.mp hwalk) hpadded
        simpa [List.append_assoc] using this
      · rw [List.map_cons, List.map_cons, Text.trimChars_pad hb hnil, hmap]

/-- So they do with segments. -/
theorem exists_barSplits_pad (h : BarSplits cs segments) (hb : ∀ c ∈ before, Text.isBlank c)
    (ha : ∀ c ∈ after, Text.isBlank c) :
    ∃ padded, BarSplits (before ++ cs ++ after) padded ∧
      padded.map Text.trimChars = segments.map Text.trimChars := by
  induction h generalizing before with
  | @last x hx =>
      refine ⟨[before ++ x ++ after], .last ((barFree_pad settled_empty hb ha).mpr hx), ?_⟩
      rw [List.map_singleton, List.map_singleton, Text.trimChars_pad hb ha]
  | @cons x rest segments hx hw hno _ ih =>
      have hnil : ∀ c ∈ ([] : List Char), Text.isBlank c := List.forall_mem_nil _
      obtain ⟨padded, hpadded, hmap⟩ := ih hnil
      have hfree := (barFree_pad settled_empty hb hnil).mpr hx
      have hwalk := settle_walk_pad (x := x) settled_empty hb hnil
      rw [hw] at hwalk
      -- blank characters behind the last bar do not make it a double one
      have hno' : ¬ ['|'] <+: [] ++ rest ++ after := by
        cases rest with
        | nil => exact not_bar_prefix_blanks ha
        | cons d rest => exact fun hpre => hno (by simpa using hpre)
      refine ⟨(before ++ x ++ []) :: padded, ?_, ?_⟩
      · have := BarSplits.cons hfree (settle_eq_empty_iff.mp hwalk) hno' hpadded
        simpa [List.append_assoc] using this
      · rw [List.map_cons, List.map_cons, Text.trimChars_pad hb hnil, hmap]

theorem splitTop_pad (hd : isDelimiter sep = false) (hs : Text.isBlank sep = false)
    (hb : ∀ c ∈ before, Text.isBlank c) (ha : ∀ c ∈ after, Text.isBlank c) (cs : List Char) :
    (splitTop sep (before ++ cs ++ after)).map Text.trimChars =
      (splitTop sep cs).map Text.trimChars := by
  obtain ⟨pieces, hpieces⟩ := exists_splits hd cs
  obtain ⟨padded, hpadded, hmap⟩ := exists_splits_pad hs hpieces hb ha
  rw [(splitTop_eq_iff hd).mpr hpadded, (splitTop_eq_iff hd).mpr hpieces, hmap]

/-- Blank characters around a segment go to the two ends of its name and its arguments. -/
theorem exists_cutFirst_pad (segment : List Char) (hb : ∀ c ∈ before, Text.isBlank c)
    (ha : ∀ c ∈ after, Text.isBlank c) :
    ∃ name args, Text.cutFirst ':' (before ++ segment ++ after) = (name, args) ∧
      Text.trimChars name = Text.trimChars (Text.cutFirst ':' segment).1 ∧
      (splitTop ',' args).map Text.trimChars =
        (splitTop ',' (Text.cutFirst ':' segment).2).map Text.trimChars := by
  have hnil : ∀ c ∈ ([] : List Char), Text.isBlank c := List.forall_mem_nil _
  have hno : ∀ {blanks : List Char}, (∀ c ∈ blanks, Text.isBlank c) → ':' ∉ blanks := by
    intro blanks hblanks hcolon
    exact absurd (hblanks ':' hcolon) (by decide)
  rcases exists_cutFirst ':' segment with hsegment | ⟨name, args, rfl, hname⟩
  · have hpad : ':' ∉ before ++ segment ++ after := by simp [hno hb, hsegment, hno ha]
    refine ⟨_, [], cutFirst_of_not_mem hpad, ?_, ?_⟩
    · rw [cutFirst_of_not_mem hsegment, Text.trimChars_pad hb ha]
    · rw [cutFirst_of_not_mem hsegment]
  · have hpad : ':' ∉ before ++ name ++ [] := by simp [hno hb, hname]
    have hsplit : before ++ (name ++ ':' :: args) ++ after =
        (before ++ name ++ []) ++ ':' :: ([] ++ args ++ after) := by simp
    rw [hsplit, cutFirst_append hname]
    refine ⟨_, _, cutFirst_append hpad, Text.trimChars_pad hb hnil name, ?_⟩
    exact splitTop_pad (by decide) (by decide) hnil ha args

/-- **Blank characters around a segment change nothing.** -/
theorem Filter.parse?_pad (segment : List Char) (hb : ∀ c ∈ before, Text.isBlank c)
    (ha : ∀ c ∈ after, Text.isBlank c) :
    Filter.parse? (before ++ segment ++ after) = Filter.parse? segment := by
  obtain ⟨name, args, hcut, hname, hargs⟩ := exists_cutFirst_pad segment hb ha
  simp only [Filter.parse?, hcut, hname, hargs]

/-- A segment says what it says without the blank characters at its ends. -/
theorem Filter.parse?_trimChars (segment : List Char) :
    Filter.parse? (Text.trimChars segment) = Filter.parse? segment := by
  obtain ⟨before, after, hsegment, hb, ha⟩ := Text.exists_trimChars segment
  conv_rhs => rw [hsegment]
  exact (Filter.parse?_pad _ hb ha).symm

/-- **Blank characters around an expression change nothing.** -/
theorem Expression.parse_pad (interior : String) {before after : String}
    (hb : ∀ c ∈ before.toList, Text.isBlank c) (ha : ∀ c ∈ after.toList, Text.isBlank c) :
    Expression.parse (before ++ interior ++ after) = Expression.parse interior := by
  obtain ⟨first, others, hsplits⟩ := exists_segments interior
  obtain ⟨padded, hpadded, hmap⟩ := exists_barSplits_pad hsplits hb ha
  obtain ⟨first', others', rfl⟩ := List.exists_cons_of_ne_nil hpadded.ne_nil
  rw [List.map_cons, List.map_cons, List.cons.injEq] at hmap
  have hread : ∀ segments : List (List Char), segments.filterMap Filter.parse? =
      (segments.map Text.trimChars).filterMap Filter.parse? := by
    intro segments
    rw [List.filterMap_map]
    exact List.filterMap_congr fun segment _ => (Filter.parse?_trimChars segment).symm
  rw [← String.toList_append, ← String.toList_append] at hpadded
  rw [parse_of_barSplits hpadded, parse_of_barSplits hsplits, hmap.1, hread others', hmap.2,
    ← hread others]

/-! ### Printed chains -/

/-- An expression reads as it is again where no filter ends with an empty argument. -/
theorem Expression.reread_eq_iff {e : Expression} :
    e.reread = e ↔ ∀ f ∈ e.filters.getD [], f.args.getLast? ≠ some "" := by
  obtain ⟨value, filters⟩ := e
  cases filters with
  | none => simp [Expression.reread]
  | some filters => simp [Expression.reread, Filter.map_reread_eq_iff]

/-- The source of an expression: its value, and each of its filters behind ` | `. -/
def Expression.print (e : Expression) : String :=
  Token.printExpression e.value e.filters

/-- **A printed expression is read again as it stands.**  Whatever text an expression was read from,
printed it reads as the expression without the empty last arguments of its filters, and so as the
expression itself exactly if no filter has one. -/
theorem Expression.parse_print (interior : String) :
    Expression.parse (Expression.parse interior).print = (Expression.parse interior).reread ∧
      (Expression.parse (Expression.parse interior).print = Expression.parse interior ↔
        ∀ f ∈ (Expression.parse interior).filters.getD [], f.args.getLast? ≠ some "") := by
  have hblank : ∀ c ∈ (" " : String).toList, Text.isBlank c := blank_space
  have hprint : Expression.parse (Expression.parse interior).print =
      (Expression.parse interior).reread := by
    rw [← parse_printExpression interior, Expression.parse_pad _ hblank hblank, Expression.print]
  refine ⟨hprint, ?_⟩
  rw [hprint]
  exact Expression.reread_eq_iff

example : (Expression.parse "a || b | f:'x|y', | | g").print = "a || b | f:'x|y' | g" := by rfl

/-! ### Arguments of directives and of filters -/

/-- **A filter and a directive read the same arguments.**  What an argument list has read, its `)`
left out, is cut at its top-level commas into its arguments, each of them trimmed, without an empty
last one; so behind the colon of a filter it is read as the same arguments. -/
theorem Cursor.arguments_eq_filter_args [Limits] {c c' : Cursor} {list : ArgumentList}
    (h : c.arguments = (.ok list, c')) :
    ∃ w, (list.terminated = true ∧ c.rest = w ++ ')' :: c'.rest ∨
        list.terminated = false ∧ c.rest = w ∧ c'.rest = []) ∧
      list.args = (dropEmptyLast ((splitTop ',' w).map Text.trimChars)).map String.ofList ∧
      ∀ name : List Char, name ≠ [] → Text.trimChars name = name → ':' ∉ name →
        Filter.parse? (name ++ ':' :: w) = some ⟨String.ofList name, list.args⟩ := by
  have hfilter : ∀ w : List Char, list.args = argumentsOf w → ∀ name : List Char, name ≠ [] →
      Text.trimChars name = name → ':' ∉ name →
        Filter.parse? (name ++ ':' :: w) = some ⟨String.ofList name, list.args⟩ := by
    intro w hargs name hne htrim hcolon
    have hsplits : Splits ',' w (splitTop ',' w) := (splitTop_eq_iff (by decide)).mp rfl
    rw [parse?_of_splits hcolon hsplits (by rwa [htrim]), htrim, hargs, argumentsOf]
  rcases arguments_eq_ok_iff.mp h with ⟨w, after, hr, hcloses, rfl⟩ | ⟨hout, rfl⟩
  · have hrest : (c.skip (w.length + 1)).rest = after := by
      rw [rest_skip, hr, List.append_cons, ← List.length_singleton, ← List.length_append,
        List.drop_left]
    refine ⟨w, .inl ⟨hcloses.terminated, by rw [hrest, hr]⟩, hcloses.args_eq, ?_⟩
    exact hfilter w hcloses.args_eq
  · have hargs : list.args = argumentsOf c.rest := by
      obtain ⟨s, hs, rfl⟩ := hout
      exact ArgumentScan.args_finish_of_feedAll? hs
    exact ⟨c.rest, .inr ⟨hout.terminated, rfl, rfl⟩, hargs, hfilter c.rest hargs⟩

/-- In `@f(é, [a, 'b)` neither the string nor the bracket nor the list is closed; behind a colon the
same text has the same two arguments. -/
theorem Cursor.arguments_eq_filter_args_cut :
    (ofSource "é, [a, 'b)").arguments =
        (.ok ⟨["é", "[a, 'b)"], 2, false⟩, ⟨"é, [a, 'b)", [], ⟨11, 1, 11⟩⟩) ∧
      Filter.parse? ("join".toList ++ ':' :: "é, [a, 'b)".toList) =
        some ⟨"join", ["é", "[a, 'b)"]⟩ := by
  have h : (ofSource "é, [a, 'b)").arguments =
      (.ok ⟨["é", "[a, 'b)"], 2, false⟩, ⟨"é, [a, 'b)", [], ⟨11, 1, 11⟩⟩) := rfl
  obtain ⟨w, ⟨hclosed, -⟩ | ⟨-, hrest, -⟩, -, hfilter⟩ := arguments_eq_filter_args h
  · cases hclosed
  · refine ⟨h, ?_⟩
    rw [show "é, [a, 'b)".toList = w from hrest]
    exact hfilter "join".toList (by decide) (by decide) (by decide)

end Blade
