import Blade.Proofs.ArgumentText
import Blade.Proofs.Reading

/-!
# Proofs — ArgumentDepth

How deep brackets stand in each other in an argument list.

The scan of a list notes its depth while it reads; a reader of the tokens sees only the trimmed
arguments.  Both come to the same: outside its own parenthesis the list is as deep as its deepest
argument, since commas between arguments and the blanks around them open nothing.

* `Nesting.deepest_trimChars`: trimming keeps the depth of a text.
* `ArgumentScan.measured_of_feedAll?`: what a scan has noted, by what it has read.
* `ListRead.maxDepth_eq`: the depth of a list that is read is that of its arguments.
-/

namespace Blade

/-! ### The greatest of some numbers -/

/-- The greatest of some numbers, 0 where there are none. -/
def greatest (ns : List Nat) : Nat := ns.foldr max 0

@[simp] theorem greatest_nil : greatest [] = 0 := rfl

@[simp] theorem greatest_cons (n : Nat) (ns : List Nat) :
    greatest (n :: ns) = max n (greatest ns) := rfl

@[simp] theorem greatest_append (ms ns : List Nat) :
    greatest (ms ++ ns) = max (greatest ms) (greatest ns) := by
  induction ms with
  | nil => simp
  | cons m ms ih => rw [List.cons_append, greatest_cons, greatest_cons, ih, Nat.max_assoc]

/-! ### The depth of a text -/

namespace Nesting

variable {n : Nesting} {cs ds : List Char}

/-- The most brackets open at once on a walk over some characters. -/
def deepest (n : Nesting) : List Char → Nat
  | [] => n.depth
  | c :: cs => max n.depth ((n.feed c).deepest cs)

theorem depth_le_deepest (n : Nesting) (cs : List Char) : n.depth ≤ n.deepest cs := by
  cases cs with
  | nil => exact Nat.le_refl _
  | cons c cs => exact Nat.le_max_left _ _

theorem deepest_append (n : Nesting) (cs ds : List Char) :
    n.deepest (cs ++ ds) = max (n.deepest cs) ((n.walk cs).deepest ds) := by
  induction cs generalizing n with
  | nil => exact (Nat.max_eq_right (n.depth_le_deepest ds)).symm
  | cons c cs ih => rw [List.cons_append, deepest, deepest, ih, walk_cons, Nat.max_assoc]

theorem depth_walk_le (n : Nesting) (cs : List Char) : (n.walk cs).depth ≤ n.deepest cs := by
  have h := n.deepest_append cs []
  rw [List.append_nil] at h
  rw [h]
  exact Nat.le_max_right _ _

theorem depth_settle (n : Nesting) : n.settle.depth = n.depth := rfl

/-- Characters that open and close nothing leave a walk as deep as it is. -/
theorem deepest_plain (hn : n.Sane) (hcs : ∀ c ∈ cs, Plain c) : n.deepest cs = n.depth := by
  induction cs generalizing n with
  | nil => rfl
  | cons c cs ih =>
      rw [List.forall_mem_cons] at hcs
      rw [deepest, ih (hn.feed c) hcs.2, feed_plain hn hcs.1, depth_settle, Nat.max_self]

/-- **Trimming keeps the depth of a text.** -/
theorem deepest_trimChars (cs : List Char) :
    deepest {} (Text.trimChars cs) = deepest {} cs := by
  obtain ⟨before, after, hcs, hb, ha⟩ := Text.exists_trimChars cs
  have hwalk : walk {} before = {} :=
    walk_plain_of_settled sane_empty rfl fun c hc => plain_of_isBlank (hb c hc)
  have hbefore : deepest {} before = 0 :=
    deepest_plain sane_empty fun c hc => plain_of_isBlank (hb c hc)
  have hafter : (walk {} (Text.trimChars cs)).deepest after =
      (walk {} (Text.trimChars cs)).depth :=
    deepest_plain (sane_empty.walk _) fun c hc => plain_of_isBlank (ha c hc)
  conv => rhs; rw [hcs]
  rw [List.append_assoc, deepest_append, hbefore, hwalk, deepest_append, hafter, Nat.zero_max]
  exact (Nat.max_eq_left (depth_walk_le _ _)).symm

end Nesting

/-- The most brackets open at once in an argument, outside its strings. -/
def bracketNesting (arg : String) : Nat :=
  Nesting.deepest {} arg.toList

theorem bracketNesting_trim (s : String) : bracketNesting (Text.trim s) = bracketNesting s := by
  rw [bracketNesting, Text.toList_trim, Nesting.deepest_trimChars, bracketNesting]

/-- The depth of an argument list: its own parenthesis, and the deepest of its arguments. -/
def listDepth (args : List String) : Nat :=
  1 + greatest (args.map bracketNesting)

theorem listDepth_concat (args : List String) (last : String) :
    listDepth (args ++ [last]) = max (listDepth args) (1 + bracketNesting last) := by
  rw [listDepth, listDepth, List.map_append, greatest_append, List.map_singleton, greatest_cons,
    greatest_nil]
  omega

/-- A blank argument at the end adds nothing. -/
theorem listDepth_withoutEmptyLast (args : List String) (last : String) :
    listDepth (withoutEmptyLast (args ++ [last])) = listDepth (args ++ [last]) := by
  rw [withoutEmptyLast_concat]
  by_cases h : last = ""
  · subst h
    rw [if_pos rfl, List.append_nil, listDepth_concat]
    exact (Nat.max_eq_left (Nat.le_add_right 1 _)).symm
  · rw [if_neg h]

/-! ### The depth that a scan notes -/

variable [Limits]

namespace ArgumentScan

variable {s s' : ArgumentScan} {c : Char} {w : List Char}

/-- A character of an argument deepens the scan by the bracket it opens, up to the limit. -/
theorem maxDepth_of_bracketing (hb : s.bracketing.feed? c = some s'.bracketing)
    (hf : s.feed c = .more s') (hd : s.depth ≤ s.maxDepth)
    (hle : s.maxDepth ≤ Limits.bracketDepth) :
    s'.maxDepth = max s.maxDepth s'.depth ∧ s'.maxDepth ≤ Limits.bracketDepth := by
  obtain ⟨args, current, pending, maxDepth, string⟩ := s
  rw [depth] at hd
  dsimp only at hd hle
  generalize hto : s'.bracketing = b at hb
  cases Bracketing.feed?_eq_some_iff.mp hb with
  | inside =>
      cases hf
      exact ⟨(Nat.max_eq_left hd).symm, hle⟩
  | quote hq =>
      simp only [feed, hq, if_true, Outcome.more.injEq] at hf
      subst hf
      exact ⟨(Nat.max_eq_left hd).symm, hle⟩
  | opener hq hopen hroom =>
      have hno : ¬ Limits.bracketDepth < pending.length + 2 := Nat.not_lt.mpr hroom
      simp only [feed, hq, hopen, openBracket, depth, hno, Bool.false_eq_true, if_false,
        Outcome.more.injEq] at hf
      subst hf
      exact ⟨rfl, max_le hle hroom⟩
  | closer hq hopen hclose =>
      simp only [feed, hq, hopen, hclose, closeBracket, Bool.false_eq_true, if_false, if_true,
        Outcome.more.injEq] at hf
      subst hf
      exact ⟨(Nat.max_eq_left (Nat.le_of_succ_le hd)).symm, hle⟩
  | plain hq hopen hclose hcomma =>
      simp only [feed, hq, hopen, hclose, hcomma, Bool.false_eq_true, if_false,
        Outcome.more.injEq] at hf
      subst hf
      exact ⟨(Nat.max_eq_left hd).symm, hle⟩

/-- The scan has noted the depth of what it has read, and walks the current argument as deep as it
stands in brackets. -/
structure Measured (s : ArgumentScan) : Prop where
  walk : Nesting.walk {} s.current.toList = ⟨s.string, s.pending.length⟩
  depth : s.maxDepth = listDepth (s.args.toList ++ [s.current])
  le : s.maxDepth ≤ Limits.bracketDepth

theorem Measured.depth_le (h : s.Measured) : s.depth ≤ s.maxDepth := by
  have hwalk : s.pending.length ≤ bracketNesting s.current := by
    have hle := Nesting.depth_walk_le {} s.current.toList
    rwa [h.walk] at hle
  rw [h.depth, listDepth_concat, ArgumentScan.depth]
  omega

theorem measured_empty : Measured {} := ⟨rfl, rfl, Limits.bracketDepth_pos⟩

theorem Measured.feed (h : s.Measured) (hf : s.feed c = .more s') : s'.Measured := by
  rcases feed_cases hf with ⟨-, htop, rfl⟩ | ⟨hb, hargs, hcurrent⟩
  · refine ⟨?_, ?_, h.le⟩
    · rw [cut, htop.1, htop.2]
      rfl
    · -- the argument that the comma ends is as deep as it was, the next one has nothing open
      have hempty : bracketNesting "" = 0 := rfl
      rw [cut, Array.toList_push, listDepth_concat, hempty, listDepth_concat,
        bracketNesting_trim, ← listDepth_concat, ← h.depth]
      have hdepth := h.depth_le
      rw [ArgumentScan.depth] at hdepth
      dsimp only
      omega
  · obtain ⟨hstring, hpending, -⟩ :=
      walk_of_bracketing (n := ⟨s.string, s.pending.length⟩) hb rfl rfl
    obtain ⟨hmax, hle⟩ := maxDepth_of_bracketing hb hf h.depth_le h.le
    have hstep : Nesting.feed ⟨s.string, s.pending.length⟩ c = ⟨s'.string, s'.pending.length⟩ := by
      change _ = (⟨s'.bracketing.string, s'.bracketing.pending.length⟩ : Nesting)
      rw [← hstring, ← hpending]
    have hnesting : bracketNesting s'.current =
        max (bracketNesting s.current) (max s.pending.length s'.pending.length) := by
      rw [hcurrent, bracketNesting, String.toList_push, Nesting.deepest_append, h.walk,
        Nesting.deepest, hstep]
      rfl
    refine ⟨?_, ?_, hle⟩
    · rw [hcurrent, String.toList_push, Nesting.walk_append, h.walk, Nesting.walk_cons, hstep]
      rfl
    · have hdepth := h.depth_le
      rw [ArgumentScan.depth] at hdepth
      have hscan := h.depth
      rw [listDepth_concat] at hscan ⊢
      rw [hmax, hargs, hnesting, ArgumentScan.depth]
      omega

/-- **A scan has noted the depth of what it has read.** -/
theorem measured_of_feedAll? (h : s.Measured) (hw : s.feedAll? w = some s') : s'.Measured := by
  induction w generalizing s with
  | nil =>
      cases hw
      exact h
  | cons c w ih =>
      rw [feedAll?] at hw
      split at hw
      · next s₁ hc => exact ih (h.feed hc) hw
      · cases hw

/-- However the list ends, its depth is that of its arguments. -/
theorem Measured.finish (h : s.Measured) (terminated : Bool) :
    (s.finish terminated).maxDepth = listDepth (s.finish terminated).args ∧
      (s.finish terminated).maxDepth ≤ Limits.bracketDepth := by
  refine ⟨?_, h.le⟩
  rw [args_finish, listDepth_withoutEmptyLast, listDepth_concat, bracketNesting_trim,
    ← listDepth_concat, ← h.depth]
  rfl

end ArgumentScan

/-- **A list that is read is as deep as its arguments**, and no deeper than the limit. -/
theorem ListRead.maxDepth_eq {strict : Bool} {gap : Char → Bool} {chunk after : List Char}
    {list : ArgumentList} (hl : ListRead strict gap chunk after (some list)) :
    list.maxDepth = listDepth list.args ∧ list.maxDepth ≤ Limits.bracketDepth := by
  cases hl with
  | closed _ hc =>
      obtain ⟨s, hw, -, rfl⟩ := hc
      exact (ArgumentScan.measured_of_feedAll? ArgumentScan.measured_empty hw).finish true
  | cut _ _ hc =>
      obtain ⟨s, hw, rfl⟩ := hc
      exact (ArgumentScan.measured_of_feedAll? ArgumentScan.measured_empty hw).finish false

end Blade
