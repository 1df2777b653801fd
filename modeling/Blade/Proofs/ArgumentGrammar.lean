import Blade.Limits.Development
import Blade.Proofs.ArgumentDepth

/-!
# Proofs — ArgumentGrammar

Which argument lists are accepted: those that the grammar of argument text writes, within the limit.

A scan keeps the closing brackets it waits for and the string it stands in.  What it has read up to
there is text of the grammar in which these brackets, and this string at its end, are still open
(`OpenText`, `Viable`); one character more opens, closes or continues one of them.

* `Bracketing.Viable.feed`: what a character of a list does to the text before it.
* `Closes.argumentText`, `RunsOut.exists_completion`: what a closed list has read is text of the
  grammar, as deep as the scan has noted, and what the end of input cuts off is the start of one.
* `ArgumentText.deepest_eq`: the grammar writes a text at one depth only, the most brackets that are
  open at once in it.
* `Cursor.arguments_terminated_iff`: a list is read up to its `)` exactly where the input starts
  with such a text and a `)`, of which there is then one.
-/

namespace Blade

/-! ### Strings that are still open -/

theorem QuotedText.append {quote : Char} {cs ds : List Char} (h : QuotedText quote cs)
    (h' : QuotedText quote ds) : QuotedText quote (cs ++ ds) := by
  induction h with
  | nil => exact h'
  | char hne hne' _ ih => exact .char hne hne' ih
  | escaped _ ih => exact .escaped ih

/-- What a string has read of its inside: pairs and plain characters, and at the end perhaps a
backslash without the character that it pairs with. -/
inductive OpenString : QuotedString → List Char → Prop where
  | opened {quote : Char} {inside : List Char} :
      QuotedText quote inside → OpenString ⟨quote, false⟩ inside
  | escaped {quote : Char} {inside : List Char} :
      QuotedText quote inside → OpenString ⟨quote, true⟩ (inside ++ ['\\'])

namespace OpenString

variable {string string' : QuotedString} {inside : List Char} {c : Char}

/-- A string that a character does not close goes on behind it. -/
theorem feed (h : OpenString string inside) (hf : string.feed c = some string') :
    OpenString string' (inside ++ [c]) := by
  cases h with
  | @opened quote _ ht =>
      simp only [QuotedString.feed, and_true, Option.ite_none_left_eq_some, Option.some.injEq,
        Bool.not_false, Bool.and_true] at hf
      obtain ⟨hne, rfl⟩ := hf
      by_cases hc : c = '\\'
      · subst hc
        exact .escaped ht
      · rw [beq_eq_false_iff_ne.mpr hc]
        exact .opened (ht.append (.char hne hc .nil))
  | @escaped quote inside ht =>
      simp only [QuotedString.feed, Bool.true_eq_false, and_false, if_false, Option.some.injEq,
        Bool.not_true, Bool.and_false] at hf
      subst hf
      rw [List.append_assoc]
      exact .opened (ht.append (.escaped .nil))

/-- Only its own quote closes a string, and only behind whole pairs. -/
theorem closed (h : OpenString string inside) (hf : string.feed c = none) :
    c = string.quote ∧ QuotedText string.quote inside := by
  cases h with
  | opened ht =>
      simp only [QuotedString.feed, and_true, ite_eq_left_iff, reduceCtorEq, imp_false,
        not_not] at hf
      exact ⟨hf, ht⟩
  | escaped ht => simp [QuotedString.feed] at hf

/-- The inside of a string can be brought to an end in front of its quote. -/
theorem exists_completion (h : OpenString string inside) :
    ∃ more, QuotedText string.quote (inside ++ more) := by
  cases h with
  | opened ht =>
      refine ⟨[], ?_⟩
      rwa [List.append_nil]
  | @escaped quote inside ht =>
      refine ⟨[quote], ?_⟩
      rw [List.append_assoc]
      exact ht.append (.escaped .nil)

end OpenString

/-! ### Text with open brackets -/

/-- Text in which the brackets that `pending` closes are open, innermost first, and at most `n`
were at once. -/
inductive OpenText : List Char → Nat → List Char → Prop where
  | top {n : Nat} {w : List Char} : ArgumentText n w → OpenText [] n w
  | inside {pending w text : List Char} {m n : Nat} {opener closer : Char} :
      OpenText pending m w → closer? opener = some closer → ArgumentText n text →
        OpenText (closer :: pending) (max m (pending.length + 1 + n)) (w ++ opener :: text)

namespace OpenText

variable {pending w chunk : List Char} {n : Nat} {c closer : Char}

theorem length_le (h : OpenText pending n w) : pending.length ≤ n := by
  cases h with
  | top => exact Nat.zero_le _
  | inside _ _ _ => exact Nat.le_trans (Nat.le_add_right _ _) (Nat.le_max_right _ _)

/-- What goes on any text of the grammar goes on text with open brackets. -/
theorem append (h : OpenText pending n w)
    (hchunk : ∀ {n w}, ArgumentText n w → ArgumentText n (w ++ chunk)) :
    OpenText pending n (w ++ chunk) := by
  cases h with
  | top ht => exact .top (hchunk ht)
  | inside hw hopen ht =>
      rw [List.append_assoc, List.cons_append]
      exact .inside hw hopen (hchunk ht)

theorem bracket (h : OpenText pending n w) (hopen : closer? c = some closer) :
    OpenText (closer :: pending) (max n (pending.length + 1)) (w ++ [c]) :=
  .inside h hopen .nil

theorem close (h : OpenText (closer :: pending) n w) : OpenText pending n (w ++ [closer]) := by
  cases h with
  | @inside _ w text m k opener _ hw hopen ht =>
      rw [List.append_assoc, List.cons_append]
      cases hw with
      | top hw =>
          rw [List.length_nil, Nat.zero_add, Nat.add_comm 1 k]
          exact .top (.bracketed hw hopen ht)
      | @inside pending w text' m m' opener' _ hw hopen' ht' =>
          -- the bracket is closed in the text of the one around it
          have hdepth : max (max m (pending.length + 1 + m')) (pending.length + 1 + 1 + k) =
              max m (pending.length + 1 + max m' (k + 1)) := by
            omega
          rw [List.length_cons, hdepth, List.append_assoc, List.cons_append]
          exact .inside hw hopen' (.bracketed ht' hopen ht)

/-- The closing brackets that are waited for complete the text, as deep as it was. -/
theorem append_pending (h : OpenText pending n w) : ArgumentText n (w ++ pending) := by
  induction pending generalizing w with
  | nil =>
      cases h with
      | top ht => rwa [List.append_nil]
  | cons closer pending ih =>
      rw [List.append_cons]
      exact ih h.close

end OpenText

/-! ### What a scan has read -/

namespace Bracketing

/-- Text that a list may start with, where it has these brackets open, and this string at its
end. -/
inductive Viable : Bracketing → Nat → List Char → Prop where
  | outside {pending w : List Char} {n : Nat} : OpenText pending n w → Viable ⟨pending, none⟩ n w
  | inside {pending w inside : List Char} {n : Nat} {string : QuotedString} :
      OpenText pending n w → isQuote string.quote = true → OpenString string inside →
        Viable ⟨pending, some string⟩ n (w ++ string.quote :: inside)

namespace Viable

variable {b b' : Bracketing} {n : Nat} {w : List Char} {c : Char}

theorem length_le (h : b.Viable n w) : b.pending.length ≤ n := by
  cases h with
  | outside hw => exact hw.length_le
  | inside hw _ _ => exact hw.length_le

/-- Any character but quotes and brackets goes on outside the strings, the comma included. -/
theorem plain {pending : List Char} (h : Viable ⟨pending, none⟩ n w) (hq : isQuote c = false)
    (hopen : closer? c = none) (hclose : isCloser c = false) :
    Viable ⟨pending, none⟩ n (w ++ [c]) := by
  cases h with
  | outside hw => exact .outside (hw.append fun ht => .char ht hq hopen hclose)

/-- **What a character of a list does to the text before it.** -/
theorem feed [Limits] (h : b.Viable n w) (hf : b.Feeds c b') :
    b'.Viable (max n b'.pending.length) (w ++ [c]) := by
  have hle := h.length_le
  cases hf with
  | @inside pending string c =>
      rw [Nat.max_eq_left hle]
      cases h with
      | inside hw hq hs =>
          rw [List.append_assoc, List.cons_append]
          cases hstring : string.feed c with
          | some string' =>
              rw [← QuotedString.quote_feed hstring] at hq ⊢
              exact .inside hw hq (hs.feed hstring)
          | none =>
              obtain ⟨rfl, ht⟩ := hs.closed hstring
              exact .outside (hw.append fun hw => .quoted hw hq ht)
  | quote hq =>
      rw [Nat.max_eq_left hle]
      cases h with
      | outside hw => exact .inside hw hq (.opened .nil)
  | opener hq hopen hroom =>
      cases h with
      | outside hw => exact .outside (hw.bracket hopen)
  | closer hq hopen hclose =>
      rw [Nat.max_eq_left (Nat.le_of_succ_le hle)]
      cases h with
      | outside hw => exact .outside hw.close
  | plain hq hopen hclose hcomma =>
      rw [Nat.max_eq_left hle]
      exact h.plain hq hopen hclose

theorem exists_completion (h : b.Viable n w) : ∃ more, ArgumentText n (w ++ more) := by
  cases h with
  | @outside pending w n hw => exact ⟨pending, hw.append_pending⟩
  | @inside pending w inside n string hw hq hs =>
      obtain ⟨more, ht⟩ := hs.exists_completion
      have hclosed : OpenText pending n (w ++ string.quote :: (inside ++ more ++ [string.quote])) :=
        hw.append fun hw => .quoted hw hq ht
      refine ⟨more ++ string.quote :: pending, ?_⟩
      have htext := hclosed.append_pending
      simpa using htext

end Viable

end Bracketing

section
variable [Limits]

namespace ArgumentScan

variable {s s' : ArgumentScan} {v w : List Char} {n : Nat} {c : Char}

/-- One character on: the text before it goes on with it, and the scan notes its depth. -/
theorem viable_of_feed (h : s.bracketing.Viable n v) (hn : s.maxDepth = n + 1)
    (hle : s.maxDepth ≤ Limits.bracketDepth) (hf : s.feed c = .more s') :
    ∃ m, s'.bracketing.Viable m (v ++ [c]) ∧ s'.maxDepth = m + 1 ∧
      s'.maxDepth ≤ Limits.bracketDepth := by
  rcases feed_cases hf with ⟨rfl, htop, rfl⟩ | ⟨hb, -, -⟩
  · have hbracketing : s.bracketing = ⟨[], none⟩ := by rw [bracketing, htop.1, htop.2]
    rw [hbracketing] at h
    refine ⟨n, ?_, hn, hle⟩
    change Bracketing.Viable s.bracketing n _
    rw [hbracketing]
    exact h.plain (by decide) (by decide) (by decide)
  · have hdepth : s.depth ≤ s.maxDepth := by
      rw [hn, depth]
      exact Nat.succ_le_succ h.length_le
    obtain ⟨hmax, hle'⟩ := maxDepth_of_bracketing hb hf hdepth hle
    refine ⟨_, h.feed (Bracketing.feed?_eq_some_iff.mp hb), ?_, hle'⟩
    rw [hmax, hn, depth, Nat.succ_max_succ]
    rfl

/-- **What a scan has read is text with its open brackets and its open string.** -/
theorem viable_of_feedAll? (h : s.bracketing.Viable n v) (hn : s.maxDepth = n + 1)
    (hle : s.maxDepth ≤ Limits.bracketDepth) (hw : s.feedAll? w = some s') :
    ∃ m, s'.bracketing.Viable m (v ++ w) ∧ s'.maxDepth = m + 1 ∧
      s'.maxDepth ≤ Limits.bracketDepth := by
  induction w generalizing s v n with
  | nil =>
      cases hw
      rw [List.append_nil]
      exact ⟨n, h, hn, hle⟩
  | cons c w ih =>
      rw [feedAll?] at hw
      split at hw
      · next s₁ hc =>
          obtain ⟨m, hm, hnext, hle'⟩ := viable_of_feed h hn hle hc
          rw [List.append_cons]
          exact ih hm hnext hle' hw
      · cases hw

theorem exists_viable (hw : feedAll? {} w = some s) :
    ∃ n, s.bracketing.Viable n w ∧ s.maxDepth = n + 1 ∧ s.maxDepth ≤ Limits.bracketDepth :=
  viable_of_feedAll? (s := {}) (.outside (.top .nil)) rfl Limits.bracketDepth_pos hw

end ArgumentScan

/-- **What a closed list has read is text of the grammar**, and its depth is one more than the
depth of that text. -/
theorem Closes.argumentText {w : List Char} {list : ArgumentList} (h : Closes w list) :
    ∃ n, ArgumentText n w ∧ list.maxDepth = n + 1 ∧ list.maxDepth ≤ Limits.bracketDepth := by
  obtain ⟨s, hs, htop, rfl⟩ := h
  obtain ⟨n, hw, hn, hle⟩ := ArgumentScan.exists_viable hs
  rw [ArgumentScan.bracketing, htop.1, htop.2] at hw
  cases hw with
  | outside hw =>
      cases hw with
      | top ht => exact ⟨n, ht, hn, hle⟩

/-- What the end of input cuts off is the start of such a text. -/
theorem RunsOut.exists_completion {w : List Char} {list : ArgumentList} (h : RunsOut w list) :
    ∃ n more, ArgumentText n (w ++ more) ∧ list.maxDepth = n + 1 ∧
      list.maxDepth ≤ Limits.bracketDepth := by
  obtain ⟨s, hs, rfl⟩ := h
  obtain ⟨n, hw, hn, hle⟩ := ArgumentScan.exists_viable hs
  obtain ⟨more, ht⟩ := hw.exists_completion
  exact ⟨n, more, ht, hn, hle⟩

end

/-! ### The depth of a text -/

namespace Nesting

variable {cs : List Char} {c opener closer quote : Char}

theorem feed_opener (hopen : closer? opener = some closer) (k : Nat) :
    feed ⟨none, k⟩ opener = ⟨none, k + 1⟩ := by
  rcases ArgumentScan.eq_of_closer? hopen with rfl | rfl | rfl <;> rfl

theorem feed_closer (hclose : isQuote c = false ∧ closer? c = none ∧ isCloser c = true) (k : Nat) :
    feed ⟨none, k + 1⟩ c = ⟨none, k⟩ := by
  rcases ArgumentScan.isCloser_iff.mp hclose.2.2 with rfl | rfl | rfl <;> rfl

theorem feed_other (hq : isQuote c = false) (hopen : closer? c = none) (hclose : isCloser c = false)
    (k : Nat) : feed ⟨none, k⟩ c = ⟨none, k⟩ := by
  have hno : ¬ (c = ')' ∨ c = ']' ∨ c = '\x7d') :=
    mt ArgumentScan.isCloser_iff.mpr (by simp [hclose])
  simp [feed, hq, ArgumentScan.ne_of_closer? hopen, hno]

/-- A character that neither ends a string nor starts a pair leaves it as it is. -/
theorem feed_inside (hne : c ≠ quote) (hne' : c ≠ '\\') (k : Nat) :
    feed ⟨some (.opened quote), k⟩ c = ⟨some (.opened quote), k⟩ := by
  simp [feed, QuotedString.feed, QuotedString.opened, hne, hne']

/-- A backslash in a string pairs with the character behind it. -/
theorem feed_backslash (hq : isQuote quote) (k : Nat) :
    feed ⟨some (.opened quote), k⟩ '\\' = ⟨some ⟨quote, true⟩, k⟩ := by
  have hback : '\\' ≠ quote := by
    rintro rfl
    cases hq
  simp [feed, QuotedString.feed, QuotedString.opened, hback]

theorem feed_escaped (c : Char) (k : Nat) :
    feed ⟨some ⟨quote, true⟩, k⟩ c = ⟨some (.opened quote), k⟩ := by
  simp [feed, QuotedString.feed, QuotedString.opened]

/-- A string in quotes is left where it is entered, and opens no bracket. -/
theorem walk_quoted (hq : isQuote quote) (ht : QuotedText quote cs) (k : Nat) :
    walk ⟨some (.opened quote), k⟩ (cs ++ [quote]) = ⟨none, k⟩ ∧
      deepest ⟨some (.opened quote), k⟩ (cs ++ [quote]) = k := by
  induction ht with
  | nil => simp [walk, deepest, feed, QuotedString.feed, QuotedString.opened]
  | @char c cs hne hne' _ ih =>
      rw [List.cons_append, walk_cons, deepest, feed_inside hne hne', ih.1, ih.2]
      exact ⟨rfl, Nat.max_self k⟩
  | @escaped c cs _ ih =>
      rw [List.cons_append, List.cons_append, walk_cons, walk_cons, deepest, deepest,
        feed_backslash hq, feed_escaped, ih.1, ih.2]
      exact ⟨rfl, by rw [Nat.max_self, Nat.max_self]⟩

end Nesting

namespace ArgumentText

variable {m n : Nat} {w : List Char}

/-- Text of the grammar is left where it is entered, and is `n` brackets deeper in between. -/
theorem walk_eq (h : ArgumentText n w) (k : Nat) :
    Nesting.walk ⟨none, k⟩ w = ⟨none, k⟩ ∧ Nesting.deepest ⟨none, k⟩ w = k + n := by
  induction h generalizing k with
  | nil => exact ⟨rfl, rfl⟩
  | @char n w c _ hq hopen hclose ih =>
      obtain ⟨hwalk, hdeep⟩ := ih k
      have hfeed := Nesting.feed_other hq hopen hclose k
      rw [Nesting.walk_append, Nesting.deepest_append, hwalk, hdeep, Nesting.walk_cons,
        Nesting.deepest, hfeed]
      exact ⟨rfl, by simp [Nesting.deepest]⟩
  | @quoted n w inside quote _ hq ht ih =>
      obtain ⟨hwalk, hdeep⟩ := ih k
      obtain ⟨hwalk', hdeep'⟩ := Nesting.walk_quoted hq ht k
      have hfeed : Nesting.feed ⟨none, k⟩ quote = ⟨some (.opened quote), k⟩ := by
        simp [Nesting.feed, hq]
      rw [Nesting.walk_append, Nesting.deepest_append, hwalk, hdeep, Nesting.walk_cons,
        Nesting.deepest, hfeed, hwalk', hdeep']
      exact ⟨rfl, by simp⟩
  | @bracketed m n w inside opener closer _ hopen _ ihw ihinside =>
      obtain ⟨hwalk, hdeep⟩ := ihw k
      obtain ⟨hwalk', hdeep'⟩ := ihinside (k + 1)
      obtain ⟨-, hclose⟩ := ArgumentScan.isQuote_of_closer? hopen
      have hfeed := Nesting.feed_opener hopen k
      have hfeed' := Nesting.feed_closer hclose k
      rw [Nesting.walk_append, Nesting.deepest_append, hwalk, hdeep, Nesting.walk_cons,
        Nesting.deepest, hfeed, Nesting.walk_append, Nesting.deepest_append, hwalk', hdeep',
        Nesting.walk_cons, Nesting.deepest, hfeed']
      refine ⟨rfl, ?_⟩
      change max (k + m) (max k (max (k + 1 + n) (max (k + 1) k))) = k + max m (n + 1)
      omega

/-- **The depth at which the grammar writes a text is the most brackets open at once in it.** -/
theorem deepest_eq (h : ArgumentText n w) : Nesting.deepest {} w = n := by
  rw [(h.walk_eq 0).2, Nat.zero_add]

theorem depth_unique (h : ArgumentText m w) (h' : ArgumentText n w) : m = n :=
  h.deepest_eq.symm.trans h'.deepest_eq

end ArgumentText

/-! ### The lists that are accepted -/

section
variable [Limits]

/-- The input starts with text of the grammar, its brackets `n` deep in each other and within the
limit, and with the `)` that ends the list. -/
structure StartsWithList (input w : List Char) (n : Nat) : Prop where
  text : ArgumentText n w
  room : n ≤ Limits.bracketDepth - 1
  starts : w ++ [')'] <+: input

/-- Such an input is read up to its `)`. -/
theorem StartsWithList.exists_arguments {c : Cursor} {w : List Char} {n : Nat}
    (h : StartsWithList c.rest w n) :
    ∃ list after, c.rest = w ++ ')' :: after ∧
      c.arguments = (.ok list, ⟨c.source, after, c.position.advanceAll (w ++ [')'])⟩) ∧
        list.terminated = true ∧ list.maxDepth = 1 + n := by
  obtain ⟨after, hafter⟩ := h.starts
  have hrest : c.rest = w ++ ')' :: after := by
    rw [← hafter, List.append_assoc]
    rfl
  have hskip : c.skip (w.length + 1) =
      ⟨c.source, after, c.position.advanceAll (w ++ [')'])⟩ := by
    rw [← Cursor.skip_append hafter.symm, List.length_append, List.length_singleton]
  obtain ⟨list, hlist⟩ := h.text.exists_closes (Nat.lt_of_le_pred Limits.bracketDepth_pos h.room)
  obtain ⟨m, hm, hdepth, -⟩ := hlist.argumentText
  refine ⟨list, after, hrest, ?_, hlist.terminated, ?_⟩
  · rw [Cursor.arguments_of_closes hlist hrest, hskip]
  · rw [hdepth, hm.depth_unique h.text, Nat.add_comm]

/-- An input starts with one list at most, since one scan finds where it ends. -/
theorem StartsWithList.unique {input w w' : List Char} {n n' : Nat}
    (h : StartsWithList input w n) (h' : StartsWithList input w' n') : w' = w := by
  let c : Cursor := ⟨"", input, .start⟩
  obtain ⟨list, after, hrest, hlist, -⟩ := h.exists_arguments (c := c)
  obtain ⟨list', after', hrest', hlist', -⟩ := h'.exists_arguments (c := c)
  have hafter : after' = after :=
    congrArg Cursor.rest (Prod.mk.inj (hlist'.symm.trans hlist)).2
  subst hafter
  exact List.append_cancel_right (hrest'.symm.trans hrest)

/-- **The argument lists that are accepted are those of the grammar.**  A list is read up to a `)`
if and only if the input starts with text of the grammar within the limit and a `)`.  There is then
one such text; the reader stops just behind its `)`, and the list is one deeper than the text. -/
theorem Cursor.arguments_terminated_iff (c : Cursor) :
    ((∃ list c', c.arguments = (.ok list, c') ∧ list.terminated = true) ↔
        ∃ w n, StartsWithList c.rest w n) ∧
      ∀ w n, StartsWithList c.rest w n →
        (∀ w' n', StartsWithList c.rest w' n' → w' = w) ∧
          ∃ list after, c.rest = w ++ ')' :: after ∧
            c.arguments = (.ok list, ⟨c.source, after, c.position.advanceAll (w ++ [')'])⟩) ∧
              list.terminated = true ∧ list.maxDepth = 1 + n := by
  refine ⟨⟨?_, ?_⟩, ?_⟩
  · rintro ⟨list, c', hc, hterminated⟩
    rcases arguments_eq_ok_iff.mp hc with ⟨w, after, hr, hcloses, -⟩ | ⟨hout, -⟩
    · obtain ⟨n, ht, hn, hle⟩ := hcloses.argumentText
      rw [hn] at hle
      refine ⟨w, n, ht, Nat.le_sub_one_of_lt hle, after, ?_⟩
      rw [hr, List.append_assoc]
      rfl
    · rw [hout.terminated] at hterminated
      cases hterminated
  · rintro ⟨w, n, h⟩
    obtain ⟨list, after, -, hlist, hterminated, -⟩ := h.exists_arguments
    exact ⟨list, _, hlist, hterminated⟩
  · intro w n h
    exact ⟨fun _ _ h' => h.unique h', h.exists_arguments⟩

end

/-- The `)` in a string ends no list, and the string stands in one pair of brackets. -/
theorem Cursor.arguments_terminated_quoted :
    StartsWithList (Cursor.ofSource "[x')']) y").rest "[x')']".toList 1 ∧
      ∃ list after, (Cursor.ofSource "[x')']) y").arguments = (.ok list, after) ∧
        list.maxDepth = 2 := by
  have hinside : ArgumentText 0 "x')'".toList :=
    .quoted (.char .nil rfl rfl rfl) rfl (.char (by decide) (by decide) .nil)
  have h : StartsWithList (Cursor.ofSource "[x')']) y").rest "[x')']".toList 1 :=
    ⟨.bracketed .nil rfl hinside, by decide, [' ', 'y'], rfl⟩
  obtain ⟨-, list, after, -, hlist, -, hdepth⟩ :=
    (Cursor.arguments_terminated_iff (Cursor.ofSource "[x')']) y")).2 _ _ h
  exact ⟨h, list, _, hlist, hdepth⟩

end Blade
