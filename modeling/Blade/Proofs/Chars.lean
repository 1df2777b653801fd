import Blade.Cursor
import Blade.Text.Blank
import Mathlib.Data.List.Infix
import Mathlib.Data.List.TakeWhile

/-!
# Proofs — Chars

Facts about lists of characters that readers rest on: where a maximal run ends, what trimming
leaves, and where a pattern first stands.

* `takeWhile_append_stop`, `dropWhile_append_stop`: a run of accepted characters ends where a
  character is not accepted.
* `trimChars_eq_iff`: the trimmed text is the one that has no blank end and only blanks around it.
* `findFrom_eq_some_iff`: the place found for a pattern is the length of the text that stands free
  before it (`FreeBefore`).
-/

namespace Blade

/-! ### Maximal runs -/

/-- `cs` is at its end, or goes on with a character that `q` does not accept. -/
def StopsAt (q : Char → Bool) (cs : List Char) : Prop := ∀ c ∈ cs.head?, q c = false

@[simp] theorem stopsAt_nil (q : Char → Bool) : StopsAt q [] := by simp [StopsAt]

@[simp] theorem stopsAt_cons (q : Char → Bool) (c : Char) (cs : List Char) :
    StopsAt q (c :: cs) ↔ q c = false := by simp [StopsAt]

variable {q : Char → Bool}

theorem takeWhile_append_stop {xs ys : List Char} (hx : ∀ c ∈ xs, q c) (hy : StopsAt q ys) :
    (xs ++ ys).takeWhile q = xs := by
  rw [List.takeWhile_append_of_pos hx]
  cases ys with
  | nil => simp
  | cons c ys => simp [(stopsAt_cons q c ys).mp hy]

theorem dropWhile_append_stop {xs ys : List Char} (hx : ∀ c ∈ xs, q c) (hy : StopsAt q ys) :
    (xs ++ ys).dropWhile q = ys := by
  rw [List.dropWhile_append_of_pos hx]
  cases ys with
  | nil => rfl
  | cons c ys => simp [(stopsAt_cons q c ys).mp hy]

theorem stopsAt_dropWhile (q : Char → Bool) (cs : List Char) : StopsAt q (cs.dropWhile q) := by
  induction cs with
  | nil => simp
  | cons c cs ih =>
      by_cases h : q c
      · rwa [List.dropWhile_cons_of_pos h]
      · rw [List.dropWhile_cons_of_neg h, stopsAt_cons]
        exact Bool.eq_false_iff.mpr h

/-- A text is its maximal run and what stops it. -/
theorem exists_run (q : Char → Bool) (cs : List Char) :
    ∃ xs ys, cs = xs ++ ys ∧ (∀ c ∈ xs, q c) ∧ StopsAt q ys :=
  ⟨cs.takeWhile q, cs.dropWhile q, List.takeWhile_append_dropWhile.symm,
    fun _ hc => List.mem_takeWhile_imp hc, stopsAt_dropWhile q cs⟩

/-- A text stops where a longer one does, unless it is empty before. -/
theorem StopsAt.left {cs ds : List Char} (h : StopsAt q (cs ++ ds)) : StopsAt q cs := by
  cases cs with
  | nil => simp
  | cons c cs => simpa using h

/-- A longer text stops where a shorter one does, or where what follows the empty one does. -/
theorem StopsAt.append {cs ds : List Char} (h : StopsAt q cs) (hd : cs = [] → StopsAt q ds) :
    StopsAt q (cs ++ ds) := by
  cases cs with
  | nil => exact hd rfl
  | cons c cs => simpa using h

end Blade

namespace Blade.Text

/-! ### Trimming -/

/-- A text that neither starts nor ends with a blank. -/
def Trimmed (cs : List Char) : Prop := StopsAt isBlank cs ∧ StopsAt isBlank cs.reverse

theorem exists_trimEnd (cs : List Char) :
    ∃ blanks, cs = trimEnd cs ++ blanks ∧ (∀ c ∈ blanks, isBlank c) := by
  obtain ⟨xs, ys, hcs, hx, hy⟩ := exists_run isBlank cs.reverse
  refine ⟨xs.reverse, ?_, fun c hc => hx c (List.mem_reverse.mp hc)⟩
  rw [trimEnd, hcs, dropWhile_append_stop hx hy, ← List.reverse_append, ← hcs, List.reverse_reverse]

theorem trimEnd_append {cs blanks : List Char} (hc : StopsAt isBlank cs.reverse)
    (hb : ∀ c ∈ blanks, isBlank c) : trimEnd (cs ++ blanks) = cs := by
  have hb' : ∀ c ∈ blanks.reverse, isBlank c := fun c h => hb c (List.mem_reverse.mp h)
  rw [trimEnd, List.reverse_append, dropWhile_append_stop hb' hc, List.reverse_reverse]

theorem stopsAt_reverse_trimEnd (cs : List Char) : StopsAt isBlank (trimEnd cs).reverse := by
  rw [trimEnd, List.reverse_reverse]
  exact stopsAt_dropWhile isBlank cs.reverse

/-- What trimming takes away are blanks at the two ends. -/
theorem exists_trimChars (cs : List Char) :
    ∃ before after, cs = before ++ trimChars cs ++ after ∧ (∀ c ∈ before, isBlank c) ∧
      ∀ c ∈ after, isBlank c := by
  obtain ⟨after, h, ha⟩ := exists_trimEnd (cs.dropWhile isBlank)
  refine ⟨cs.takeWhile isBlank, after, ?_, fun _ hc => List.mem_takeWhile_imp hc, ha⟩
  rw [trimChars, List.append_assoc, ← h, List.takeWhile_append_dropWhile]

theorem trimChars_infix (cs : List Char) : trimChars cs <:+: cs := by
  obtain ⟨before, after, h, -, -⟩ := exists_trimChars cs
  exact ⟨before, after, h.symm⟩

theorem trimmed_trimChars (cs : List Char) : Trimmed (trimChars cs) := by
  refine ⟨?_, stopsAt_reverse_trimEnd _⟩
  obtain ⟨after, h, -⟩ := exists_trimEnd (cs.dropWhile isBlank)
  have hstop := stopsAt_dropWhile isBlank cs
  rw [h] at hstop
  exact hstop.left

theorem trimChars_append {before cs after : List Char} (hc : Trimmed cs)
    (hb : ∀ c ∈ before, isBlank c) (ha : ∀ c ∈ after, isBlank c) :
    trimChars (before ++ cs ++ after) = cs := by
  rw [trimChars, List.append_assoc, List.dropWhile_append_of_pos hb]
  cases cs with
  | nil =>
      rw [List.nil_append, List.dropWhile_eq_nil_iff.mpr ha]
      rfl
  | cons c cs =>
      rw [List.cons_append, List.dropWhile_cons_of_neg (by simp [(stopsAt_cons _ _ _).mp hc.1]),
        ← List.cons_append]
      exact trimEnd_append hc.2 ha

theorem trimChars_append_left {before cs : List Char} (hc : Trimmed cs)
    (hb : ∀ c ∈ before, isBlank c) : trimChars (before ++ cs) = cs := by
  rw [← List.append_nil (before ++ cs)]
  exact trimChars_append hc hb (by simp)

theorem trimChars_eq_iff {cs t : List Char} :
    trimChars cs = t ↔ Trimmed t ∧ ∃ before after, cs = before ++ t ++ after ∧
      (∀ c ∈ before, isBlank c) ∧ ∀ c ∈ after, isBlank c := by
  constructor
  · rintro rfl
    exact ⟨trimmed_trimChars cs, exists_trimChars cs⟩
  · rintro ⟨ht, before, after, rfl, hb, ha⟩
    exact trimChars_append ht hb ha

/-- Blanks around a text are trimmed with those at its ends. -/
theorem trimChars_pad {before after : List Char} (hb : ∀ c ∈ before, isBlank c)
    (ha : ∀ c ∈ after, isBlank c) (cs : List Char) :
    trimChars (before ++ cs ++ after) = trimChars cs := by
  obtain ⟨blanks, blanks', hcs, hb', ha'⟩ := exists_trimChars cs
  refine trimChars_eq_iff.mpr ⟨trimmed_trimChars cs, before ++ blanks, blanks' ++ after, ?_,
    List.forall_mem_append.mpr ⟨hb, hb'⟩, List.forall_mem_append.mpr ⟨ha', ha⟩⟩
  conv_lhs => rw [hcs]
  simp only [List.append_assoc]

end Blade.Text

namespace Blade

/-! ### The first occurrence of a pattern -/

/-- In `text ++ pattern`, no occurrence of `pattern` starts inside `text`. -/
def FreeBefore (pattern : List Char) : List Char → Prop
  | [] => True
  | c :: text => ¬ pattern <+: c :: (text ++ pattern) ∧ FreeBefore pattern text

variable {pattern : List Char}

/-- An occurrence of `pattern` in front of more text is one in front of less. -/
theorem isPrefix_append_pattern_iff (text : List Char) {after : List Char} :
    pattern <+: text ++ pattern ++ after ↔ pattern <+: text ++ pattern := by
  constructor
  · intro h
    exact List.prefix_of_prefix_length_le h (List.prefix_append _ after) (by simp)
  · exact fun h => h.trans (List.prefix_append _ after)

theorem FreeBefore.not_infix {text : List Char} (h : FreeBefore pattern text)
    (hp : pattern ≠ []) : ¬ pattern <:+: text := by
  induction text with
  | nil => simpa using hp
  | cons c text ih =>
      rw [List.infix_cons_iff]
      rintro (hpre | hin)
      · exact h.1 (hpre.trans (List.prefix_append (c :: text) pattern))
      · exact ih h.2 hin

/-- A text free of `pattern` that ends with a character foreign to `pattern` stays free before
`pattern`. -/
theorem freeBefore_concat {text : List Char} {c : Char} (h : ¬ pattern <:+: text ++ [c])
    (hc : c ∉ pattern) : FreeBefore pattern (text ++ [c]) := by
  induction text with
  | nil =>
      refine ⟨fun hpre => ?_, trivial⟩
      cases pattern with
      | nil => exact h (List.nil_infix)
      | cons d ds => exact hc (by simp [(List.cons_prefix_cons.mp hpre).1])
  | cons d text ih =>
      rw [List.cons_append, List.infix_cons_iff, not_or] at h
      refine ⟨fun hpre => ?_, ih h.2⟩
      -- an occurrence that does not end inside the text covers its last character
      rcases Nat.le_total pattern.length (d :: (text ++ [c])).length with hle | hle
      · exact h.1 (List.prefix_of_prefix_length_le hpre
          (List.prefix_append (d :: (text ++ [c])) pattern) hle)
      · have hin : d :: (text ++ [c]) <+: pattern :=
          List.prefix_of_prefix_length_le (List.prefix_append (d :: (text ++ [c])) pattern) hpre hle
        exact hc (hin.subset (by simp))

theorem findFrom_append (hp : pattern ≠ []) {text : List Char} (h : FreeBefore pattern text)
    (k : Nat) (after : List Char) :
    Cursor.findFrom pattern k (text ++ pattern ++ after) = some (k + text.length) := by
  induction text generalizing k with
  | nil =>
      cases pattern with
      | nil => exact absurd rfl hp
      | cons d ds =>
          have : (d :: ds).isPrefixOf (d :: (ds ++ after)) = true :=
            List.isPrefixOf_iff_prefix.mpr (List.prefix_append (d :: ds) after)
          simp [Cursor.findFrom, this]
  | cons c text ih =>
      have hno : ¬ pattern.isPrefixOf (c :: (text ++ pattern ++ after)) = true := by
        rw [List.isPrefixOf_iff_prefix]
        exact fun hpre => h.1 ((isPrefix_append_pattern_iff (c :: text)).mp hpre)
      rw [List.cons_append, List.cons_append, Cursor.findFrom, if_neg hno, ih h.2,
        List.length_cons]
      congr 1
      omega

/-- A pattern that is found divides the text into what is free before it, itself and the rest. -/
theorem exists_of_findFrom {k n : Nat} {cs : List Char}
    (h : Cursor.findFrom pattern k cs = some n) :
    ∃ text after, cs = text ++ pattern ++ after ∧ n = k + text.length ∧
      FreeBefore pattern text := by
  induction cs generalizing k with
  | nil => cases h
  | cons c cs ih =>
      rw [Cursor.findFrom] at h
      split at h
      · next hpre =>
          cases h
          obtain ⟨after, hafter⟩ := List.isPrefixOf_iff_prefix.mp hpre
          exact ⟨[], after, by simp [hafter], rfl, trivial⟩
      · next hpre =>
          obtain ⟨text, after, rfl, rfl, hfree⟩ := ih h
          refine ⟨c :: text, after, rfl, by simp; omega, fun hin => hpre ?_, hfree⟩
          exact List.isPrefixOf_iff_prefix.mpr
            ((isPrefix_append_pattern_iff (c :: text)).mpr hin)

theorem findFrom_eq_none_iff (hp : pattern ≠ []) {k : Nat} {cs : List Char} :
    Cursor.findFrom pattern k cs = none ↔ ¬ pattern <:+: cs := by
  induction cs generalizing k with
  | nil => simpa [Cursor.findFrom] using hp
  | cons c cs ih =>
      rw [Cursor.findFrom, List.infix_cons_iff, ← List.isPrefixOf_iff_prefix]
      split
      · next h => simp [h]
      · next h => simp [h, ih]

theorem findFrom_eq_some_iff (hp : pattern ≠ []) {k n : Nat} {cs : List Char} :
    Cursor.findFrom pattern k cs = some n ↔ ∃ text after, cs = text ++ pattern ++ after ∧
      n = k + text.length ∧ FreeBefore pattern text := by
  constructor
  · exact exists_of_findFrom
  · rintro ⟨text, after, rfl, rfl, h⟩
    exact findFrom_append hp h k after

end Blade
