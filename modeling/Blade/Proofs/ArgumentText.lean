import Blade.Proofs.PrintedExpression

/-!
# Proofs — ArgumentText

The texts that can stand between the parentheses of an argument list, as a grammar: any characters
but quotes and brackets, strings in quotes, and texts in matching brackets (`ArgumentText`).

* `ArgumentText.exists_closes`: with no more brackets in each other than the limit allows, such a
  text is an argument list.
* `Closes.args_eq`: its arguments are the trimmed pieces between its top-level commas, without one
  empty piece at the end (`argumentsOf`).
-/

namespace Blade

/-- The inside of a string in quotes: a backslash pairs with the character behind it. -/
inductive QuotedText (quote : Char) : List Char → Prop where
  | nil : QuotedText quote []
  | char {c : Char} {cs : List Char} :
      c ≠ quote → c ≠ '\\' → QuotedText quote cs → QuotedText quote (c :: cs)
  | escaped {c : Char} {cs : List Char} : QuotedText quote cs → QuotedText quote ('\\' :: c :: cs)

/-- Text with its strings closed and its brackets matched, which stand `n` deep in each other. -/
inductive ArgumentText : Nat → List Char → Prop where
  | nil : ArgumentText 0 []
  | char {n : Nat} {w : List Char} {c : Char} :
      ArgumentText n w → isQuote c = false → closer? c = none → isCloser c = false →
        ArgumentText n (w ++ [c])
  | quoted {n : Nat} {w inside : List Char} {quote : Char} :
      ArgumentText n w → isQuote quote → QuotedText quote inside →
        ArgumentText n (w ++ quote :: (inside ++ [quote]))
  | bracketed {m n : Nat} {w inside : List Char} {opener closer : Char} :
      ArgumentText m w → closer? opener = some closer → ArgumentText n inside →
        ArgumentText (max m (n + 1)) (w ++ opener :: (inside ++ [closer]))

/-- The arguments that a text writes: its pieces between commas outside all strings and brackets,
trimmed, without one empty piece at the end. -/
def argumentsOf (w : List Char) : List String :=
  (dropEmptyLast ((splitTop ',' w).map Text.trimChars)).map String.ofList

namespace ArgumentScan

variable {s s' : ArgumentScan} {c : Char} {cs ds w : List Char}

/-! ### Texts of the grammar are read -/

section
variable [Limits]

/-- Reading `cs` leaves the scan with some open brackets, in a string or in none. -/
def Reads (s : ArgumentScan) (cs pending : List Char) (string : Option QuotedString) : Prop :=
  ∃ s', s.feedAll? cs = some s' ∧ s'.pending = pending ∧ s'.string = string

theorem reads_append {pending pending' : List Char} {string string' : Option QuotedString}
    (h : s.Reads cs pending string)
    (h' : ∀ s' : ArgumentScan, s'.pending = pending → s'.string = string →
      s'.Reads ds pending' string') : s.Reads (cs ++ ds) pending' string' := by
  obtain ⟨s₁, hread, hp, hs⟩ := h
  obtain ⟨s₂, hread', hp', hs'⟩ := h' s₁ hp hs
  refine ⟨s₂, ?_, hp', hs'⟩
  rw [feedAll?_append, hread, Option.bind_some, hread']

theorem reads_cons {pending pending' : List Char} {string string' : Option QuotedString}
    (h : s.Reads [c] pending string)
    (h' : ∀ s' : ArgumentScan, s'.pending = pending → s'.string = string →
      s'.Reads cs pending' string') : s.Reads (c :: cs) pending' string' :=
  reads_append h h'

/-- A character of an argument is read as its bracketing says. -/
theorem reads_of_feeds {b b' : Bracketing} (hb : s.bracketing = b) (h : b.Feeds c b') :
    s.Reads [c] b'.pending b'.string := by
  subst hb
  obtain ⟨maxDepth, hfeed⟩ := feed_of_bracketing (Bracketing.feed?_eq_some_iff.mpr h)
  exact ⟨⟨s.args, s.current.push c, b'.pending, maxDepth, b'.string⟩,
    by simp only [feedAll?, hfeed], rfl, rfl⟩

theorem reads_in_string {string : QuotedString} (hs : s.string = some string) (c : Char) :
    s.Reads [c] s.pending (string.feed c) := by
  have hopen : s.bracketing = ⟨s.pending, some string⟩ := by rw [bracketing, hs]
  exact reads_of_feeds hopen .inside

/-- The inside of a string and the quote behind it end the string. -/
theorem reads_quoted {quote : Char} (hq : isQuote quote) (ht : QuotedText quote cs)
    (hs : s.string = some (.opened quote)) : s.Reads (cs ++ [quote]) s.pending none := by
  have hback : '\\' ≠ quote := by
    rintro rfl
    cases hq
  induction ht generalizing s with
  | nil =>
      have hend := reads_in_string hs quote
      rwa [QuotedString.feed, if_pos ⟨rfl, rfl⟩] at hend
  | @char c cs hne hne' _ ih =>
      have hfeed : (QuotedString.opened quote).feed c = some (.opened quote) := by
        simp [QuotedString.feed, QuotedString.opened, hne, hne']
      refine reads_cons (hfeed ▸ reads_in_string hs c) fun s' hp' hs' => ?_
      rw [← hp']
      exact ih hs'
  | @escaped c cs _ ih =>
      have hfeed : (QuotedString.opened quote).feed '\\' = some ⟨quote, true⟩ := by
        simp [QuotedString.feed, QuotedString.opened, hback]
      refine reads_cons (hfeed ▸ reads_in_string hs '\\') fun s₁ hp₁ hs₁ => ?_
      -- behind the backslash even the quote is a character of the string
      have hfeed' : QuotedString.feed ⟨quote, true⟩ c = some (.opened quote) := by
        simp [QuotedString.feed, QuotedString.opened]
      refine reads_cons (hfeed' ▸ reads_in_string hs₁ c) fun s₂ hp₂ hs₂ => ?_
      rw [← hp₁, ← hp₂]
      exact ih hs₂

end

theorem bracketing_of_no_string (hs : s.string = none) : s.bracketing = ⟨s.pending, none⟩ := by
  rw [bracketing, hs]

theorem reads_plain [Limits] (hq : isQuote c = false) (hopen : closer? c = none)
    (hclose : isCloser c = false) (hs : s.string = none) : s.Reads [c] s.pending none := by
  by_cases hcomma : c = ',' ∧ s.pending = []
  · obtain ⟨rfl, hp⟩ := hcomma
    exact ⟨s.cut, by simp only [feedAll?, feed_comma ⟨hs, hp⟩], rfl, hs⟩
  · exact reads_of_feeds (bracketing_of_no_string hs) (.plain hq hopen hclose hcomma)

theorem isQuote_of_closer? {opener closer : Char} (h : closer? opener = some closer) :
    isQuote opener = false ∧ isQuote closer = false ∧ closer? closer = none ∧
      isCloser closer = true := by
  unfold closer? at h
  split at h
  · cases h; decide
  · cases h; decide
  · cases h; decide
  · cases h

variable [Limits]

theorem reads_opener {closer : Char} (hopen : closer? c = some closer) (hs : s.string = none)
    (hn : s.depth < Limits.bracketDepth) : s.Reads [c] (closer :: s.pending) none :=
  reads_of_feeds (bracketing_of_no_string hs) (.opener (isQuote_of_closer? hopen).1 hopen hn)

theorem reads_closer {pending : List Char} {opener : Char} (hopen : closer? opener = some c)
    (hs : s.string = none) (hp : s.pending = c :: pending) : s.Reads [c] pending none := by
  obtain ⟨-, hq, hno, hclose⟩ := isQuote_of_closer? hopen
  have hb : s.bracketing = ⟨c :: pending, none⟩ := by rw [bracketing_of_no_string hs, hp]
  exact reads_of_feeds hb (.closer hq hno hclose)

/-- **Text of the grammar leaves a scan as deep as it was**, if there is room for its brackets. -/
theorem reads_argumentText {n : Nat} (ht : ArgumentText n w) (hs : s.string = none)
    (hn : s.depth + n ≤ Limits.bracketDepth) : s.Reads w s.pending none := by
  induction ht generalizing s with
  | nil => exact ⟨s, rfl, rfl, hs⟩
  | char _ hq hopen hclose ih =>
      refine reads_append (ih hs hn) fun s' hp' hs' => ?_
      rw [← hp']
      exact reads_plain hq hopen hclose hs'
  | @quoted n w inside quote _ hq ht ih =>
      refine reads_append (ih hs hn) fun s₁ hp₁ hs₁ => ?_
      have hopen : s₁.Reads [quote] s₁.pending (some (.opened quote)) :=
        reads_of_feeds (bracketing_of_no_string hs₁) (.quote hq)
      refine reads_cons hopen fun s₂ hp₂ hs₂ => ?_
      rw [← hp₁, ← hp₂]
      exact reads_quoted hq ht hs₂
  | @bracketed m n w inside opener closer _ hopen _ ihw ihinside =>
      refine reads_append (ihw hs (by omega)) fun s₁ hp₁ hs₁ => ?_
      have hdepth₁ : s₁.depth = s.depth := by rw [depth, depth, hp₁]
      refine reads_cons (reads_opener hopen hs₁ (by omega)) fun s₂ hp₂ hs₂ => ?_
      have hdepth₂ : s₂.depth = s.depth + 1 := by
        rw [← hdepth₁, depth, depth, hp₂, List.length_cons]
      refine reads_append (ihinside hs₂ (by omega)) fun s₃ hp₃ hs₃ => ?_
      rw [← hp₁]
      exact reads_closer hopen hs₃ (hp₃.trans hp₂)

end ArgumentScan

/-- **Such a text is an argument list.** -/
theorem ArgumentText.exists_closes [Limits] {n : Nat} {w : List Char} (h : ArgumentText n w)
    (hn : n < Limits.bracketDepth) : ∃ list, Closes w list := by
  have hroom : ({} : ArgumentScan).depth + n ≤ Limits.bracketDepth := by
    rw [ArgumentScan.depth, List.length_nil, Nat.zero_add, Nat.add_comm]
    exact hn
  obtain ⟨s, hread, hp, hs⟩ := ArgumentScan.reads_argumentText (s := {}) h rfl hroom
  exact ⟨_, s, hread, ⟨hs, hp⟩, rfl⟩

/-! ### The arguments that are read -/

namespace ArgumentScan

variable {s s' : ArgumentScan} {c : Char} {w : List Char} {n : Nesting}
  {done : List (List Char)} {piece : List Char}

/-- The scan has the same open as a walk, and has read its pieces. -/
structure Follows (s : ArgumentScan) (n : Nesting) (done : List (List Char)) (piece : List Char) :
    Prop where
  string : n.string = s.string
  depth : n.depth = s.pending.length
  args : (done.reverse.map Text.trimChars).map String.ofList = s.args.toList
  current : piece.reverse = s.current.toList

theorem eq_of_closer? {closer : Char} (h : closer? c = some closer) :
    c = '(' ∨ c = '[' ∨ c = '\x7b' := by
  unfold closer? at h
  split at h
  · exact .inl rfl
  · exact .inr (.inl rfl)
  · exact .inr (.inr rfl)
  · cases h

theorem ne_of_closer? (h : closer? c = none) : c ≠ '(' ∧ c ≠ '[' ∧ c ≠ '\x7b' := by
  refine ⟨?_, ?_, ?_⟩ <;> rintro rfl <;> cases h

theorem isCloser_iff : isCloser c = true ↔ c = ')' ∨ c = ']' ∨ c = '\x7d' := by
  simp [isCloser, or_assoc]

variable [Limits]

/-- What a character opens or closes in an argument, it opens or closes in a walk. -/
theorem walk_of_bracketing {b b' : Bracketing} (h : b.feed? c = some b')
    (hs : n.string = b.string) (hd : n.depth = b.pending.length) :
    (n.feed c).string = b'.string ∧ (n.feed c).depth = b'.pending.length ∧
      (n.atTop c && c == ',') = false := by
  obtain ⟨_, _⟩ := n
  cases Bracketing.feed?_eq_some_iff.mp h with
  | inside =>
      cases hs
      exact ⟨rfl, hd, rfl⟩
  | quote hq =>
      cases hs
      cases hd
      simp [Nesting.feed, Nesting.atTop, Nesting.isDelimiter, hq]
  | opener _ hopen _ =>
      cases hs
      cases hd
      rcases eq_of_closer? hopen with rfl | rfl | rfl <;>
        simp [Nesting.feed, Nesting.atTop, Nesting.isDelimiter, isQuote]
  | closer _ _ hclose =>
      cases hs
      cases hd
      rcases isCloser_iff.mp hclose with rfl | rfl | rfl <;>
        simp [Nesting.feed, Nesting.atTop, Nesting.isDelimiter, isQuote]
  | @plain pending _ hq hopen hclose hcomma =>
      cases hs
      cases hd
      have hno : ¬ (c = ')' ∨ c = ']' ∨ c = '\x7d') := mt isCloser_iff.mpr (by simp [hclose])
      have hfeed : Nesting.feed ⟨none, pending.length⟩ c = ⟨none, pending.length⟩ := by
        simp [Nesting.feed, hq, ne_of_closer? hopen, hno]
      rw [hfeed]
      refine ⟨rfl, rfl, ?_⟩
      by_cases hc : c = ','
      · have hpending : pending.length ≠ 0 := fun h0 => hcomma ⟨hc, List.length_eq_zero_iff.mp h0⟩
        simp [Nesting.atTop, Nesting.isOutside, hpending]
      · simp [hc]

theorem Follows.feed (h : s.Follows n done piece) (hf : s.feed c = .more s') :
    (n.atTop c && c == ',') = true ∧ s'.Follows (n.feed c) (piece.reverse :: done) [] ∨
      (n.atTop c && c == ',') = false ∧ s'.Follows (n.feed c) done (c :: piece) := by
  rcases feed_cases hf with ⟨rfl, htop, rfl⟩ | ⟨hb, hargs, hcurrent⟩
  · have hn : n = {} := by
      obtain ⟨_, _⟩ := n
      cases h.string.trans htop.1
      cases h.depth.trans (congrArg List.length htop.2)
      rfl
    subst hn
    refine .inl ⟨by decide, ⟨htop.1.symm, by rw [cut, htop.2]; rfl, ?_, rfl⟩⟩
    rw [List.reverse_cons, List.map_append, List.map_append, h.args, h.current, cut,
      Array.toList_push]
    rfl
  · obtain ⟨hstring, hdepth, hno⟩ := walk_of_bracketing hb h.string h.depth
    refine .inr ⟨hno, ⟨hstring, hdepth, hargs ▸ h.args, ?_⟩⟩
    rw [List.reverse_cons, h.current, hcurrent, String.toList_push]

theorem Follows.splitTopFrom (h : s.Follows n done piece) (hf : s.feedAll? w = some s') :
    ((Blade.splitTopFrom ',' n done piece w).map Text.trimChars).map String.ofList =
      s'.args.toList ++ [Text.trim s'.current] := by
  induction w generalizing s n done piece with
  | nil =>
      cases hf
      rw [Blade.splitTopFrom, List.reverse_cons, List.map_append, List.map_append, h.args,
        h.current]
      rfl
  | cons c w ih =>
      rw [ArgumentScan.feedAll?] at hf
      split at hf
      · next s₁ hc =>
          rw [Blade.splitTopFrom]
          rcases h.feed hc with ⟨hcut, hnext⟩ | ⟨hno, hnext⟩
          · rw [if_pos hcut]
            exact ih hnext hf
          · rw [if_neg (by simp [hno])]
            exact ih hnext hf
      · cases hf

/-- **The arguments of a scan are those of the text it has read**, however the list ends. -/
theorem args_finish_of_feedAll? {terminated : Bool} (h : feedAll? {} w = some s) :
    (s.finish terminated).args = argumentsOf w := by
  have hstart : Follows {} {} [] [] := ⟨rfl, rfl, rfl, rfl⟩
  have hpieces := hstart.splitTopFrom h
  rw [argumentsOf, map_dropEmptyLast, args_finish, splitTop, hpieces]

end ArgumentScan

/-- **The arguments of a list are those of its text.** -/
theorem Closes.args_eq [Limits] {w : List Char} {list : ArgumentList} (h : Closes w list) :
    list.args = argumentsOf w := by
  obtain ⟨s, hs, -, rfl⟩ := h
  exact ArgumentScan.args_finish_of_feedAll? hs

end Blade
