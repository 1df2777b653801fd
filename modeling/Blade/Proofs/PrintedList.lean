import Blade.Proofs.ArgumentScan
import Blade.Token.Printer

/-!
# Proofs — PrintedList

Argument lists printed and read again.  What matters of a character inside an argument is its effect
on the open brackets and the open string (`Bracketing`): an argument is what leads from no open
bracket to none without a comma at the top level (`Balanced`).

* `Bracketing.feed?_eq_some_iff`: what a character of an argument can do (`Feeds`).
* `Closes.args_balanced`: the arguments of a list that is read are balanced and trimmed.
* `closes_intercalate`: balanced and trimmed arguments, joined by `, `, are read as they are, but
  for an empty one at the end (`withoutEmptyLast`).
-/

namespace Blade

/-- The brackets and the string that are open inside an argument. -/
structure Bracketing where
  /-- The closing brackets waited for, innermost first. -/
  pending : List Char := []
  string : Option QuotedString := none
  deriving DecidableEq

section
variable [Limits]

namespace Bracketing

/-- Reads a character of an argument; `none` when it ends the argument or is wrong. -/
def feed? (b : Bracketing) (c : Char) : Option Bracketing :=
  match b.string with
  | some string => some { b with string := string.feed c }
  | none =>
      if isQuote c then some { b with string := some (.opened c) }
      else
        match closer? c with
        | some closer =>
            if Limits.bracketDepth < b.pending.length + 2 then none
            else some { b with pending := closer :: b.pending }
        | none =>
            if isCloser c then
              match b.pending with
              | [] => none
              | expected :: pending => if c = expected then some { b with pending } else none
            else if c = ',' ∧ b.pending = [] then none
            else some b

/-- What a character of an argument does to the brackets and the string that are open. -/
inductive Feeds : Bracketing → Char → Bracketing → Prop where
  | inside {pending : List Char} {string : QuotedString} {c : Char} :
      Feeds ⟨pending, some string⟩ c ⟨pending, string.feed c⟩
  | quote {pending : List Char} {c : Char} :
      isQuote c = true → Feeds ⟨pending, none⟩ c ⟨pending, some (.opened c)⟩
  | opener {pending : List Char} {c closer : Char} :
      isQuote c = false → closer? c = some closer → pending.length + 2 ≤ Limits.bracketDepth →
        Feeds ⟨pending, none⟩ c ⟨closer :: pending, none⟩
  | closer {pending : List Char} {c : Char} :
      isQuote c = false → closer? c = none → isCloser c = true →
        Feeds ⟨c :: pending, none⟩ c ⟨pending, none⟩
  | plain {pending : List Char} {c : Char} :
      isQuote c = false → closer? c = none → isCloser c = false → ¬ (c = ',' ∧ pending = []) →
        Feeds ⟨pending, none⟩ c ⟨pending, none⟩

theorem feed?_of_feeds {b b' : Bracketing} {c : Char} (h : b.Feeds c b') :
    b.feed? c = some b' := by
  cases h with
  | inside => rfl
  | quote hq => simp [feed?, hq]
  | opener hq hopen hroom => simp [feed?, hq, hopen, Nat.not_lt.mpr hroom]
  | closer hq hopen hclose => simp [feed?, hq, hopen, hclose]
  | plain hq hopen hclose hcomma => simp [feed?, hq, hopen, hclose, hcomma]

theorem feeds_of_feed? {b b' : Bracketing} {c : Char} (h : b.feed? c = some b') :
    b.Feeds c b' := by
  obtain ⟨pending, string⟩ := b
  cases string with
  | some string =>
      cases h
      exact .inside
  | none =>
      rw [feed?] at h
      cases hq : isQuote c with
      | true =>
          simp only [hq, if_true, Option.some.injEq] at h
          exact h ▸ .quote hq
      | false =>
          cases hopen : closer? c with
          | some closer =>
              simp only [hq, hopen, Bool.false_eq_true, if_false, Option.ite_none_left_eq_some,
                Option.some.injEq] at h
              obtain ⟨hroom, rfl⟩ := h
              exact .opener hq hopen (Nat.not_lt.mp hroom)
          | none =>
              cases hclose : isCloser c with
              | true =>
                  simp only [hq, hopen, hclose, Bool.false_eq_true, if_false, if_true] at h
                  cases pending with
                  | nil => cases h
                  | cons expected pending =>
                      simp only [Option.ite_none_right_eq_some, Option.some.injEq] at h
                      obtain ⟨rfl, rfl⟩ := h
                      exact .closer hq hopen hclose
              | false =>
                  simp only [hq, hopen, hclose, Bool.false_eq_true, if_false,
                    Option.ite_none_left_eq_some, Option.some.injEq] at h
                  obtain ⟨hcomma, rfl⟩ := h
                  exact .plain hq hopen hclose hcomma

/-- **What reading a character of an argument can do.** -/
theorem feed?_eq_some_iff {b b' : Bracketing} {c : Char} : b.feed? c = some b' ↔ b.Feeds c b' :=
  ⟨feeds_of_feed?, feed?_of_feeds⟩

/-- Reads some characters of an argument. -/
def feedAll? (b : Bracketing) : List Char → Option Bracketing
  | [] => some b
  | c :: cs => (b.feed? c).bind (·.feedAll? cs)

theorem feedAll?_append (b : Bracketing) (cs ds : List Char) :
    b.feedAll? (cs ++ ds) = (b.feedAll? cs).bind (·.feedAll? ds) := by
  induction cs generalizing b with
  | nil => rfl
  | cons c cs ih =>
      rw [List.cons_append, feedAll?, feedAll?]
      cases b.feed? c with
      | none => rfl
      | some b => exact ih b

end Bracketing

/-- Brackets and strings that are opened in `cs` are closed in it, and no comma stands outside. -/
def Balanced (cs : List Char) : Prop := Bracketing.feedAll? {} cs = some {}

end

/-! ### Blank characters -/

theorem ne_of_isBlank {c d : Char} (hc : Text.isBlank c = true) (hd : Text.isBlank d = false) :
    c ≠ d := by
  rintro rfl
  rw [hc] at hd
  cases hd

theorem isQuote_of_isBlank {c : Char} (h : Text.isBlank c = true) : isQuote c = false := by
  simp only [isQuote, Bool.or_eq_false_iff, beq_eq_false_iff_ne]
  exact ⟨⟨ne_of_isBlank h (by decide), ne_of_isBlank h (by decide)⟩, ne_of_isBlank h (by decide)⟩

theorem isCloser_of_isBlank {c : Char} (h : Text.isBlank c = true) : isCloser c = false := by
  simp only [isCloser, Bool.or_eq_false_iff, beq_eq_false_iff_ne]
  exact ⟨⟨ne_of_isBlank h (by decide), ne_of_isBlank h (by decide)⟩, ne_of_isBlank h (by decide)⟩

theorem closer?_of_isBlank {c : Char} (h : Text.isBlank c = true) : closer? c = none := by
  unfold closer?
  split
  · exact absurd rfl (ne_of_isBlank h (by decide))
  · exact absurd rfl (ne_of_isBlank h (by decide))
  · exact absurd rfl (ne_of_isBlank h (by decide))
  · rfl

/-- A blank character closes no string. -/
theorem QuotedString.feed_of_isBlank {c : Char} (h : Text.isBlank c = true) (s : QuotedString)
    (hs : isQuote s.quote = true) : s.feed c = some ⟨s.quote, false⟩ := by
  have hq : c ≠ s.quote := by
    rintro rfl
    rw [isQuote_of_isBlank h] at hs
    cases hs
  simp [feed, hq, ne_of_isBlank h (d := '\\') (by decide)]

theorem QuotedString.quote_feed {s s' : QuotedString} {c : Char} (h : s.feed c = some s') :
    s'.quote = s.quote := by
  unfold QuotedString.feed at h
  split at h
  · cases h
  · cases h; rfl

section
variable [Limits]

namespace Bracketing

variable {b b' : Bracketing} {cs : List Char}

/-- The open string, if any, is opened by a quote. -/
def Sane (b : Bracketing) : Prop := ∀ s ∈ b.string, isQuote s.quote = true

theorem feed?_blank {c : Char} (hc : Text.isBlank c = true) (hb : b.string = none) :
    b.feed? c = some b := by
  simp [feed?, hb, isQuote_of_isBlank hc, closer?_of_isBlank hc, isCloser_of_isBlank hc,
    ne_of_isBlank hc (d := ',') (by decide)]

theorem feedAll?_blanks (hcs : ∀ c ∈ cs, Text.isBlank c) (hb : b.string = none) :
    b.feedAll? cs = some b := by
  induction cs with
  | nil => rfl
  | cons c cs ih =>
      rw [feedAll?, feed?_blank (hcs c (by simp)) hb]
      exact ih fun d hd => hcs d (List.mem_cons_of_mem _ hd)

theorem Sane.feed? {c : Char} (hb : b.Sane) (h : b.feed? c = some b') : b'.Sane := by
  have hnone : ∀ pending, Sane ⟨pending, none⟩ := fun _ _ hs => by cases hs
  cases feed?_eq_some_iff.mp h with
  | @inside pending string c =>
      intro string' hs
      rw [QuotedString.quote_feed hs]
      exact hb string rfl
  | quote hq =>
      rintro string ⟨⟩
      exact hq
  | opener => exact hnone _
  | closer => exact hnone _
  | plain => exact hnone _

theorem Sane.feedAll? (hb : b.Sane) (h : b.feedAll? cs = some b') : b'.Sane := by
  induction cs generalizing b with
  | nil => cases h; exact hb
  | cons c cs ih =>
      obtain ⟨b₁, h₁, h⟩ := Option.bind_eq_some_iff.mp h
      exact ih (hb.feed? h₁) h

/-- Blank characters close neither a bracket nor a string. -/
theorem eq_of_feedAll?_blanks (hcs : ∀ c ∈ cs, Text.isBlank c) (hb : b.Sane)
    (h : b.feedAll? cs = some {}) : b = {} := by
  induction cs generalizing b with
  | nil => cases h; rfl
  | cons c cs ih =>
      have hc := hcs c (List.mem_cons_self ..)
      obtain ⟨b₁, h₁, h⟩ := Option.bind_eq_some_iff.mp h
      have htop := ih (fun d hd => hcs d (List.mem_cons_of_mem _ hd)) (hb.feed? h₁) h
      subst htop
      cases hs : b.string with
      | none => rwa [feed?_blank hc hs, Option.some.injEq] at h₁
      | some s =>
          rw [Bracketing.feed?, hs] at h₁
          simp [QuotedString.feed_of_isBlank hc s (hb s hs)] at h₁

end Bracketing

theorem balanced_blanks {cs : List Char} (h : ∀ c ∈ cs, Text.isBlank c) : Balanced cs :=
  Bracketing.feedAll?_blanks h rfl

/-- Trimming leaves an argument balanced. -/
theorem Balanced.trimChars {cs : List Char} (h : Balanced cs) : Balanced (Text.trimChars cs) := by
  obtain ⟨before, after, hcs, hb, ha⟩ := Text.exists_trimChars cs
  rw [hcs, Balanced, Bracketing.feedAll?_append, Bracketing.feedAll?_append,
    balanced_blanks hb, Option.bind_some] at h
  obtain ⟨b, ht, hafter⟩ := Option.bind_eq_some_iff.mp h
  have hsane : b.Sane := Bracketing.Sane.feedAll? (b := {}) (by simp [Bracketing.Sane]) ht
  rwa [Bracketing.eq_of_feedAll?_blanks ha hsane hafter] at ht

end

/-! ### Empty arguments -/

/-- A list of arguments without its last one when that is empty. -/
def withoutEmptyLast (args : List String) : List String :=
  if args.getLast? = some "" then args.dropLast else args

theorem withoutEmptyLast_concat (args : List String) (last : String) :
    withoutEmptyLast (args ++ [last]) = args ++ if last = "" then [] else [last] := by
  unfold withoutEmptyLast
  rw [List.getLast?_concat, List.dropLast_concat]
  by_cases h : last = "" <;> simp [h]

theorem withoutEmptyLast_eq_iff {args : List String} :
    withoutEmptyLast args = args ↔ args.getLast? ≠ some "" := by
  rcases args.eq_nil_or_concat' with rfl | ⟨init, last, rfl⟩
  · simp [withoutEmptyLast]
  · rw [withoutEmptyLast_concat, List.getLast?_concat]
    by_cases h : last = "" <;> simp [h]

theorem mem_of_mem_withoutEmptyLast {args : List String} {a : String}
    (h : a ∈ withoutEmptyLast args) : a ∈ args := by
  unfold withoutEmptyLast at h
  split at h
  · exact List.mem_of_mem_dropLast h
  · exact h

/-! ### Scanning arguments -/

namespace ArgumentScan

variable {s s' : ArgumentScan} {c : Char} {cs : List Char}

/-- What a scan has open inside the current argument. -/
def bracketing (s : ArgumentScan) : Bracketing := ⟨s.pending, s.string⟩

/-- The scan past a comma that ends the current argument. -/
def cut (s : ArgumentScan) : ArgumentScan :=
  { s with args := s.args.push (Text.trim s.current), current := "" }

section
variable [Limits]

theorem feed_comma (h : s.AtTop) : s.feed ',' = .more s.cut := by
  have hq : isQuote ',' = false := by decide
  have hc : isCloser ',' = false := by decide
  simp [feed, h.1, h.2, hq, hc, closer?, cut]

/-- A character of the current argument is read as its bracketing says. -/
theorem feed_of_bracketing {b : Bracketing} (h : s.bracketing.feed? c = some b) :
    ∃ maxDepth, s.feed c = .more ⟨s.args, s.current.push c, b.pending, maxDepth, b.string⟩ := by
  obtain ⟨args, current, pending, maxDepth, string⟩ := s
  cases Bracketing.feed?_eq_some_iff.mp h with
  | inside => exact ⟨maxDepth, rfl⟩
  | quote hq => exact ⟨maxDepth, by simp [feed, hq, push]⟩
  | opener hq hopen hroom =>
      exact ⟨max maxDepth (pending.length + 2), by
        simp [feed, hq, hopen, openBracket, depth, Nat.not_lt.mpr hroom]⟩
  | closer hq hopen hclose =>
      exact ⟨maxDepth, by simp [feed, hq, hopen, hclose, closeBracket, push]⟩
  | plain hq hopen hclose hcomma =>
      exact ⟨maxDepth, by simp [feed, hq, hopen, hclose, hcomma, push]⟩

/-- A character that does not end the list ends the current argument or belongs to it. -/
theorem feed_cases (h : s.feed c = .more s') :
    (c = ',' ∧ s.AtTop ∧ s' = s.cut) ∨ (s.bracketing.feed? c = some s'.bracketing ∧
      s'.args = s.args ∧ s'.current = s.current.push c) := by
  cases hb : s.bracketing.feed? c with
  | some b =>
      obtain ⟨maxDepth, hm⟩ := feed_of_bracketing hb
      rw [h, Outcome.more.injEq] at hm
      subst hm
      exact .inr ⟨rfl, rfl, rfl⟩
  | none =>
      -- what no argument goes on with is the comma, an end of the list or wrong
      obtain ⟨args, current, pending, maxDepth, string⟩ := s
      cases string with
      | some string => cases hb
      | none =>
          change Bracketing.feed? ⟨pending, none⟩ c = none at hb
          rw [Bracketing.feed?] at hb
          cases hq : isQuote c with
          | true => simp [hq] at hb
          | false =>
              cases hopen : closer? c with
              | some closer =>
                  simp [hq, hopen] at hb
                  simp [feed, hq, hopen, openBracket, depth, hb] at h
              | none =>
                  cases hclose : isCloser c with
                  | true =>
                      cases pending with
                      | nil =>
                          simp only [feed, hq, hopen, hclose, closeBracket, Bool.false_eq_true,
                            if_false, if_true] at h
                          split at h <;> exact Outcome.noConfusion h
                      | cons expected pending =>
                          simp [hq, hopen, hclose] at hb
                          simp [feed, hq, hopen, hclose, closeBracket, hb] at h
                  | false =>
                      simp [hq, hopen, hclose] at hb
                      obtain ⟨rfl, rfl⟩ := hb
                      rw [feed_comma ⟨rfl, rfl⟩, Outcome.more.injEq] at h
                      exact .inl ⟨rfl, ⟨rfl, rfl⟩, h.symm⟩

/-- Inside one argument, scanning follows the bracketing. -/
theorem feedAll?_of_bracketing {b : Bracketing} (h : s.bracketing.feedAll? cs = some b) :
    ∃ maxDepth, s.feedAll? cs =
      some ⟨s.args, s.current ++ String.ofList cs, b.pending, maxDepth, b.string⟩ := by
  induction cs generalizing s with
  | nil =>
      cases h
      exact ⟨s.maxDepth, by simp [feedAll?, bracketing]⟩
  | cons c cs ih =>
      obtain ⟨b₁, h₁, h⟩ := Option.bind_eq_some_iff.mp h
      obtain ⟨m, hm⟩ := feed_of_bracketing h₁
      obtain ⟨maxDepth, hcs⟩ := ih (s := ⟨s.args, s.current.push c, b₁.pending, m, b₁.string⟩) h
      have hcurrent : s.current.push c ++ String.ofList cs = s.current ++ String.ofList (c :: cs) :=
        String.toList_injective (by simp)
      refine ⟨maxDepth, ?_⟩
      rw [feedAll?, hm, ← hcurrent]
      exact hcs

/-- Every argument that a scan has read is balanced and trimmed, and the current one has been read
as its bracketing says. -/
structure Sorted (s : ArgumentScan) : Prop where
  args : ∀ a ∈ s.args.toList, Balanced a.toList ∧ Text.Trimmed a.toList
  current : Bracketing.feedAll? {} s.current.toList = some s.bracketing

/-- At the top level, the current argument is balanced too. -/
theorem Sorted.trim_current (h : s.Sorted) (htop : s.AtTop) :
    Balanced (Text.trim s.current).toList ∧ Text.Trimmed (Text.trim s.current).toList := by
  have hb : Balanced s.current.toList := by
    rw [Balanced, h.current, bracketing, htop.1, htop.2]
  rw [Text.toList_trim]
  exact ⟨hb.trimChars, Text.trimmed_trimChars _⟩

theorem Sorted.feed (h : s.Sorted) (hf : s.feed c = .more s') : s'.Sorted := by
  rcases feed_cases hf with ⟨-, htop, rfl⟩ | ⟨hb, hargs, hcurrent⟩
  · refine ⟨?_, ?_⟩
    · simp only [cut, Array.toList_push, List.mem_append, List.mem_singleton]
      rintro a (ha | rfl)
      · exact h.args a ha
      · exact h.trim_current htop
    · simp only [cut, bracketing, htop.1, htop.2]
      rfl
  · refine ⟨hargs ▸ h.args, ?_⟩
    rw [hcurrent, String.toList_push, Bracketing.feedAll?_append, h.current, Option.bind_some,
      Bracketing.feedAll?, hb]
    rfl

theorem Sorted.feedAll? (h : s.Sorted) (hf : s.feedAll? cs = some s') : s'.Sorted := by
  induction cs generalizing s with
  | nil => cases hf; exact h
  | cons c cs ih =>
      rw [ArgumentScan.feedAll?] at hf
      split at hf
      · next hc => exact ih (h.feed hc) hf
      · cases hf

end

/-- The arguments of a finished list, the last one only if it is not blank. -/
theorem args_finish (s : ArgumentScan) (terminated : Bool) :
    (s.finish terminated).args = withoutEmptyLast (s.args.toList ++ [Text.trim s.current]) := by
  rw [withoutEmptyLast_concat]
  unfold finish
  by_cases h : Text.trim s.current = "" <;> simp [h]

end ArgumentScan

variable [Limits]

/-- **The arguments of a list that is read are balanced and trimmed.** -/
theorem Closes.args_balanced {w : List Char} {list : ArgumentList} (h : Closes w list) :
    ∀ a ∈ list.args, Balanced a.toList ∧ Text.Trimmed a.toList := by
  obtain ⟨s, hw, htop, rfl⟩ := h
  have hsorted : s.Sorted :=
    ArgumentScan.Sorted.feedAll? (s := {}) ⟨by simp, rfl⟩ hw
  rw [ArgumentScan.args_finish]
  intro a ha
  rcases List.mem_append.mp (mem_of_mem_withoutEmptyLast ha) with ha | ha
  · exact hsorted.args a ha
  · rw [List.mem_singleton.mp ha]
    exact hsorted.trim_current htop

/-- Blank characters and a balanced argument, read at the top level, are the current argument. -/
theorem ArgumentScan.feedAll?_balanced {s : ArgumentScan} {a : List Char} (htop : s.AtTop)
    (ha : Balanced a) : ∃ maxDepth,
      s.feedAll? a = some ⟨s.args, s.current ++ String.ofList a, [], maxDepth, none⟩ := by
  have hb : s.bracketing = {} := by rw [bracketing, htop.1, htop.2]
  exact feedAll?_of_bracketing (by rw [hb]; exact ha)

/-- From a scan whose current argument is blank, printed arguments are read as they are. -/
theorem ArgumentScan.exists_feedAll?_intercalate {args : List String} (hne : args ≠ [])
    (hargs : ∀ a ∈ args, Balanced a.toList ∧ Text.Trimmed a.toList) {s : ArgumentScan}
    (htop : s.AtTop) (hblank : ∀ c ∈ s.current.toList, Text.isBlank c) :
    ∃ s', s.feedAll? (", ".intercalate args).toList = some s' ∧ s'.AtTop ∧
      s'.args.toList ++ [Text.trim s'.current] = s.args.toList ++ args := by
  induction args generalizing s with
  | nil => exact absurd rfl hne
  | cons a args ih =>
      obtain ⟨hbal, htrim⟩ := hargs a (List.mem_cons_self ..)
      obtain ⟨m, hread⟩ := feedAll?_balanced htop hbal
      have hcurrent : Text.trim (s.current ++ String.ofList a.toList) = a := by
        rw [Text.trim, String.toList_append, String.toList_ofList]
        rw [Text.trimChars_append_left htrim hblank, String.ofList_toList]
      cases args with
      | nil =>
          refine ⟨_, by rw [String.intercalate_singleton]; exact hread, ⟨rfl, rfl⟩, ?_⟩
          rw [hcurrent]
      | cons b args =>
          -- past the separator the current argument is one blank
          let next : ArgumentScan := ⟨s.args.push a, " ", [], m, none⟩
          let here : ArgumentScan := ⟨s.args, s.current ++ String.ofList a.toList, [], m, none⟩
          have hsep : here.feedAll? [',', ' '] = some next := by
            rw [ArgumentScan.feedAll?, feed_comma ⟨rfl, rfl⟩, cut, hcurrent]
            rfl
          obtain ⟨s', hs', htop', hall⟩ := ih (by simp)
            (fun x hx => hargs x (List.mem_cons_of_mem _ hx)) (s := next) ⟨rfl, rfl⟩
            (by simp [next, Text.isBlank])
          refine ⟨s', ?_, htop', by rw [hall]; simp [next]⟩
          rw [String.intercalate_cons_cons, String.toList_append, String.toList_append,
            ArgumentScan.feedAll?_append, ArgumentScan.feedAll?_append, hread, Option.bind_some,
            show (", " : String).toList = [',', ' '] from rfl, hsep, Option.bind_some, hs']

/-- **Printed arguments are read as they are**, but for an empty one at the end. -/
theorem closes_intercalate {args : List String}
    (hargs : ∀ a ∈ args, Balanced a.toList ∧ Text.Trimmed a.toList) :
    ∃ list, Closes (", ".intercalate args).toList list ∧ list.args = withoutEmptyLast args := by
  by_cases hne : args = []
  · subst hne
    exact ⟨_, ⟨{}, rfl, ⟨rfl, rfl⟩, rfl⟩, rfl⟩
  · obtain ⟨s, hs, htop, hall⟩ := ArgumentScan.exists_feedAll?_intercalate hne hargs (s := {})
      ⟨rfl, rfl⟩ (by simp)
    refine ⟨_, ⟨s, hs, htop, rfl⟩, ?_⟩
    rw [show ({} : ArgumentScan).args.toList = [] from rfl, List.nil_append] at hall
    rw [ArgumentScan.args_finish, hall]

end Blade
