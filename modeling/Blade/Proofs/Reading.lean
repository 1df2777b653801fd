import Blade.Proofs.ArgumentScan

/-!
# Proofs — Reading

What the two readers of a token's parts take from the input: the inside of a comment or an output
expression with its terminator, and the argument list that may follow a directive's name.  Each of
the two relations names the characters that are read (`chunk`), those that are left (`after`) and
what the reader makes of them.

* `readUntil_eq_ok_iff`: reading up to a terminator succeeds exactly as `Enclosed` says.
* `readArguments_eq_ok_iff`: reading a list that may follow succeeds exactly as `ListRead` says.
-/

namespace Blade

/-- `chunk` holds `interior` and the first `terminator`; or, unless termination is strict, there is
no terminator and `interior` is all that is left. -/
inductive Enclosed (strict : Bool) (terminator : List Char) :
    List Char → List Char → List Char → Prop where
  | closed {interior after : List Char} :
      FreeBefore terminator interior →
        Enclosed strict terminator (interior ++ terminator) after interior
  | cut {interior : List Char} :
      strict = false → ¬ terminator <:+: interior → Enclosed strict terminator interior [] interior

theorem enclosed_strict_iff {terminator chunk after interior : List Char} :
    Enclosed true terminator chunk after interior ↔
      chunk = interior ++ terminator ∧ FreeBefore terminator interior := by
  constructor
  · intro h
    cases h with
    | closed hfree => exact ⟨rfl, hfree⟩
    | cut hno => cases hno
  · rintro ⟨rfl, hfree⟩
    exact .closed hfree

/-- A `(` follows after only `gap` characters. -/
def OpensList (gap : Char → Bool) (cs : List Char) : Prop :=
  (cs.dropWhile gap).head? = some '('

theorem not_opensList_cons {gap : Char → Bool} {c : Char} (hc : gap c = false) (hne : c ≠ '(')
    (cs : List Char) : ¬ OpensList gap (c :: cs) := by
  rw [OpensList, List.dropWhile_cons_of_neg (by simp [hc])]
  simpa using hne

theorem not_opensList_append {gap : Char → Bool} {cs ds : List Char} (hno : ¬ OpensList gap cs)
    (hd : cs.dropWhile gap = [] → ¬ OpensList gap ds) : ¬ OpensList gap (cs ++ ds) := by
  rw [OpensList, List.dropWhile_append]
  split
  · next hempty => exact hd (List.isEmpty_iff.mp hempty)
  · next hne =>
      rwa [List.head?_append_of_ne_nil _ (mt List.isEmpty_iff.mpr hne)]

/-- `chunk` is an argument list with the `gap` before it, or nothing when no list follows; unless
termination is strict the end of input may cut the list off. -/
inductive ListRead [Limits] (strict : Bool) (gap : Char → Bool) :
    List Char → List Char → Option ArgumentList → Prop where
  | absent {after : List Char} : ¬ OpensList gap after → ListRead strict gap [] after none
  | closed {blanks w after : List Char} {list : ArgumentList} :
      (∀ c ∈ blanks, gap c) → Closes w list →
        ListRead strict gap (blanks ++ '(' :: (w ++ [')'])) after (some list)
  | cut {blanks w : List Char} {list : ArgumentList} :
      strict = false → (∀ c ∈ blanks, gap c) → RunsOut w list →
        ListRead strict gap (blanks ++ '(' :: w) [] (some list)

namespace Cursor

variable {c c' : Cursor} {terminator : List Char} {construct : Construct} {start : Position}
  {strict : Bool} {s : String} {gap : Char → Bool} {list : Option ArgumentList}

theorem readUntil_of_enclosed {chunk after interior : List Char} (ht : terminator ≠ [])
    (he : Enclosed strict terminator chunk after interior) (hr : c.rest = chunk ++ after) :
    c.readUntil terminator construct start strict =
      .ok (String.ofList interior, c.skip chunk.length) := by
  cases he with
  | closed hfree =>
      have hfind : c.find? terminator = some (0 + interior.length) := by
        rw [find?, hr]
        exact findFrom_append ht hfree 0 after
      rw [Nat.zero_add] at hfind
      rw [List.append_assoc] at hr
      rw [readUntil, hfind, List.length_append]
      simp only [hr, List.take_left]
  | cut hs hno =>
      rw [List.append_nil] at hr
      have hfind : c.find? terminator = none := by
        rw [find?, hr]
        exact (findFrom_eq_none_iff ht).mpr hno
      rw [readUntil, hfind, ← hr, skip_length]
      simp [hs]

/-- **Reading up to a terminator.** -/
theorem readUntil_eq_ok_iff (ht : terminator ≠ []) :
    c.readUntil terminator construct start strict = .ok (s, c') ↔
      ∃ chunk after interior, c.rest = chunk ++ after ∧
        Enclosed strict terminator chunk after interior ∧ s = String.ofList interior ∧
        c' = c.skip chunk.length := by
  constructor
  · intro h
    have hsome : ∃ chunk after interior, c.rest = chunk ++ after ∧
        Enclosed strict terminator chunk after interior := by
      cases hfind : c.find? terminator with
      | some n =>
          obtain ⟨interior, after, hr, -, hfree⟩ := (findFrom_eq_some_iff ht).mp hfind
          exact ⟨_, after, interior, hr, .closed hfree⟩
      | none =>
          cases strict with
          | true => simp [readUntil, hfind] at h
          | false =>
              exact ⟨c.rest, [], c.rest, by simp, .cut rfl ((findFrom_eq_none_iff ht).mp hfind)⟩
    obtain ⟨chunk, after, interior, hr, he⟩ := hsome
    rw [readUntil_of_enclosed ht he hr] at h
    cases h
    exact ⟨chunk, after, interior, hr, he, rfl, rfl⟩
  · rintro ⟨chunk, after, interior, hr, he, rfl, rfl⟩
    exact readUntil_of_enclosed ht he hr

theorem getElem?_takeWhile (c : Cursor) (gap : Char → Bool) :
    c.rest[(c.rest.takeWhile gap).length]? = (c.rest.dropWhile gap).head? := by
  obtain ⟨xs, ys, hr, hx, hy⟩ := exists_run gap c.rest
  rw [hr, takeWhile_append_stop hx hy, dropWhile_append_stop hx hy,
    List.getElem?_append_right (Nat.le_refl _), Nat.sub_self, List.head?_eq_getElem?]

variable [Limits]

/-- Where a list opens, its arguments are read from past the parenthesis. -/
theorem readArguments_of_opens {blanks rest : List Char} (hg : gap '(' = false)
    (hb : ∀ d ∈ blanks, gap d) (hr : c.rest = blanks ++ '(' :: rest) :
    c.readArguments gap start strict =
      match (c.skip (blanks.length + 1)).arguments with
      | (.error e, _) => .error e
      | (.ok list, after) =>
          if !list.terminated && strict then .error (.unterminated .argumentList start after)
          else .ok (some list, after) := by
  have hstop : StopsAt gap ('(' :: rest) := by simpa using hg
  have hlen : (c.rest.takeWhile gap).length = blanks.length := by
    rw [hr, takeWhile_append_stop hb hstop]
  have hnext : c.rest[(c.rest.takeWhile gap).length]? = some '(' := by
    rw [getElem?_takeWhile, hr, dropWhile_append_stop hb hstop]; rfl
  rw [← hlen]
  exact if_pos hnext

theorem readArguments_of_listRead {chunk after : List Char} (hg : gap '(' = false)
    (hl : ListRead strict gap chunk after list) (hr : c.rest = chunk ++ after) :
    c.readArguments gap start strict = .ok (list, c.skip chunk.length) := by
  cases hl with
  | absent hno =>
      rw [List.nil_append] at hr
      have : c.rest[(c.rest.takeWhile gap).length]? ≠ some '(' := by
        rw [getElem?_takeWhile, hr]; exact hno
      simp only [readArguments, if_neg this]
      rfl
  | @closed blanks w _ list hb hc =>
      have hskip : (c.skip (blanks.length + 1)).rest = w ++ ')' :: after := by
        rw [rest_skip, hr]; simp [List.drop_append]
      have hopens : c.rest = blanks ++ '(' :: (w ++ ')' :: after) := by simp [hr]
      rw [readArguments_of_opens hg hb hopens,
        arguments_of_closes hc hskip, skip_skip]
      simp only [hc.terminated, Bool.not_true, Bool.false_and, Bool.false_eq_true, if_false,
        List.length_append, List.length_cons, List.length_nil]
      congr 3
      omega
  | @cut blanks w list hs hb hc =>
      have hskip : (c.skip (blanks.length + 1)).rest = w := by
        rw [rest_skip, hr]; simp [List.drop_append]
      have hopens : c.rest = blanks ++ '(' :: w := by simp [hr]
      rw [readArguments_of_opens hg hb hopens, arguments_of_runsOut (hskip.symm ▸ hc),
        skipAll_skip, hs, ← hopens, skip_length]
      simp

/-- **Reading an argument list that may follow.** -/
theorem readArguments_eq_ok_iff (hg : gap '(' = false) :
    c.readArguments gap start strict = .ok (list, c') ↔
      ∃ chunk after, c.rest = chunk ++ after ∧ ListRead strict gap chunk after list ∧
        c' = c.skip chunk.length := by
  constructor
  · intro h
    have hsome : ∃ chunk after list, c.rest = chunk ++ after ∧
        ListRead strict gap chunk after list := by
      obtain ⟨blanks, ys, hr, hb, hstop⟩ := exists_run gap c.rest
      by_cases hopen : OpensList gap c.rest
      · obtain ⟨rest, rfl⟩ : ∃ rest, ys = '(' :: rest := by
          rw [OpensList, hr, dropWhile_append_stop hb hstop] at hopen
          exact List.head?_eq_some_iff.mp hopen
        have hskip : (c.skip (blanks.length + 1)).rest = rest := by
          rw [rest_skip, hr]; simp [List.drop_append]
        rw [readArguments_of_opens hg hb hr] at h
        split at h
        · cases h
        · next l after' ha =>
            rcases arguments_eq_ok_iff.mp ha with ⟨w, after, hw, hc, -⟩ | ⟨hc, -⟩
            · rw [hskip] at hw
              exact ⟨_, after, _, by rw [hr, hw]; simp, .closed hb hc⟩
            · rw [hskip] at hc
              split at h
              · cases h
              · next hs =>
                  simp only [hc.terminated, Bool.not_false, Bool.true_and,
                    Bool.not_eq_true] at hs
                  exact ⟨_, [], _, by rw [hr]; simp, .cut hs hb hc⟩
      · exact ⟨[], c.rest, none, rfl, .absent hopen⟩
    -- the list read there is the one that was read, since reading is a function
    obtain ⟨chunk, after, list', hr, hl⟩ := hsome
    rw [readArguments_of_listRead hg hl hr] at h
    cases h
    exact ⟨chunk, after, hr, hl, rfl⟩
  · rintro ⟨chunk, after, hr, hl, rfl⟩
    exact readArguments_of_listRead hg hl hr

end Cursor

end Blade
