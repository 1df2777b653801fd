import Blade.Arguments
import Blade.Lexer.Read
import Blade.Proofs.Chars

/-!
# Proofs — ArgumentScan

What reading an argument list takes from the input and what it leaves.

* `arguments_eq_ok_iff`: an argument list is read either up to a `)` that closes it (`Closes`) or,
  for want of one, to the end of input (`RunsOut`).
-/

namespace Blade

/-! ### Cursors over a text in two parts -/

attribute [ext] Cursor

namespace Cursor

theorem skip_append {c : Cursor} {chunk after : List Char} (h : c.rest = chunk ++ after) :
    c.skip chunk.length = ⟨c.source, after, c.position.advanceAll chunk⟩ := by
  have hrest : (c.skip chunk.length).rest = after := by rw [rest_skip, h, List.drop_left]
  have hpos : (c.skip chunk.length).position = c.position.advanceAll chunk := by
    rw [position_skip, h, List.take_left]
  exact Cursor.ext (source_skip c _) hrest hpos

theorem skip_length {c : Cursor} : c.skip c.rest.length = c.skipAll := by
  rw [skip_append (List.append_nil c.rest).symm]
  rfl

theorem skip_skip (c : Cursor) (m n : Nat) : (c.skip m).skip n = c.skip (m + n) := by
  induction m generalizing c with
  | zero => rw [Nat.zero_add]; rfl
  | succ m ih =>
      rw [Nat.succ_add, skip, skip]
      split
      · next h =>
          cases n with
          | zero => rfl
          | succ n => rw [skip]; simp [h]
      · exact ih _

theorem skipAll_skip (c : Cursor) (n : Nat) : (c.skip n).skipAll = c.skipAll := by
  rw [← skip_length, ← skip_length, skip_skip, rest_skip, List.length_drop]
  rcases Nat.le_total n c.rest.length with hle | hle
  · rw [Nat.add_sub_cancel' hle]
  · rw [Nat.sub_eq_zero_of_le hle, Nat.add_zero]
    obtain ⟨m, rfl⟩ := Nat.exists_eq_add_of_le hle
    rw [← skip_skip, skip_length]
    cases m with
    | zero => rfl
    | succ m => rfl

end Cursor

/-! ### Argument lists -/

variable [Limits]

namespace ArgumentScan

/-- The scan after all of `cs`, when no character of it ends the list. -/
def feedAll? (s : ArgumentScan) : List Char → Option ArgumentScan
  | [] => some s
  | c :: cs =>
      match s.feed c with
      | .more s => feedAll? s cs
      | _ => none

theorem feedAll?_append (s : ArgumentScan) (cs ds : List Char) :
    s.feedAll? (cs ++ ds) = (s.feedAll? cs).bind (·.feedAll? ds) := by
  induction cs generalizing s with
  | nil => rfl
  | cons c cs ih =>
      rw [List.cons_append, feedAll?, feedAll?]
      cases s.feed c with
      | more s => exact ih s
      | closed s => rfl
      | failed fault => rfl

/-- Between two arguments, outside all strings and inner brackets. -/
def AtTop (s : ArgumentScan) : Prop := s.string = none ∧ s.pending = []

/-- Only a `)` at the top level closes a list. -/
theorem feed_eq_closed_iff {s s' : ArgumentScan} {c : Char} :
    s.feed c = .closed s' ↔ c = ')' ∧ s.AtTop ∧ s' = s := by
  constructor
  · intro h
    unfold feed at h
    split at h
    · cases h
    · next hs =>
        split at h
        · cases h
        · split at h
          · unfold openBracket at h
            dsimp only at h
            split at h <;> exact Outcome.noConfusion h
          · split at h
            · unfold closeBracket at h
              split at h
              · next hp =>
                  split at h
                  · next hc => cases h; exact ⟨hc, ⟨hs, hp⟩, rfl⟩
                  · cases h
              · split at h <;> cases h
            · split at h <;> cases h
  · rintro ⟨rfl, ⟨hs, hp⟩, rfl⟩
    have hq : isQuote ')' = false := by decide
    have hc : isCloser ')' = true := by decide
    simp [feed, closeBracket, hs, hp, hq, hc, closer?]

variable {s s' : ArgumentScan} {source : String}

theorem run_append {cs : List Char} (h : s.feedAll? cs = some s') (source : String)
    (p : Position) (ds : List Char) :
    s.run source p (cs ++ ds) = s'.run source (p.advanceAll cs) ds := by
  induction cs generalizing s p with
  | nil => cases h; rfl
  | cons c cs ih =>
      rw [feedAll?] at h
      split at h
      · next hf => rw [List.cons_append, run]; simp only [hf]; exact ih h _
      · cases h

theorem run_closed (h : s.AtTop) (p : Position) (cs : List Char) :
    s.run source p (')' :: cs) = (.ok (s.finish true), ⟨source, cs, p.advance ')'⟩) := by
  rw [run]; simp only [feed_eq_closed_iff.mpr ⟨rfl, h, rfl⟩]

/-- A run that does not fail has read up to a `)` at the top level, or everything. -/
theorem exists_of_run {p : Position} {cs : List Char} {list : ArgumentList} {after : Cursor}
    (h : s.run source p cs = (.ok list, after)) :
    (∃ s' w rest, cs = w ++ ')' :: rest ∧ s.feedAll? w = some s' ∧ s'.AtTop ∧
        list = s'.finish true) ∨
      ∃ s', s.feedAll? cs = some s' ∧ list = s'.finish false := by
  induction cs generalizing s p with
  | nil =>
      rw [run, Prod.mk.injEq, Except.ok.injEq] at h
      exact .inr ⟨s, rfl, h.1.symm⟩
  | cons c cs ih =>
      rw [run] at h
      split at h
      · next s₁ hf =>
          rcases ih h with ⟨s', w, rest, rfl, hw, htop, hlist⟩ | ⟨s', hcs, hlist⟩
          · exact .inl ⟨s', c :: w, rest, rfl, by simp only [feedAll?, hf, hw], htop, hlist⟩
          · exact .inr ⟨s', by simp only [feedAll?, hf, hcs], hlist⟩
      · next hf =>
          obtain ⟨rfl, htop, rfl⟩ := feed_eq_closed_iff.mp hf
          rw [Prod.mk.injEq, Except.ok.injEq] at h
          exact .inl ⟨_, [], cs, rfl, rfl, htop, h.1.symm⟩
      · rw [Prod.mk.injEq] at h
        exact absurd h.1 (by simp)

/-- A scan of arguments reads everything, or it comes to the end of the list or to a bracket that
does not fit. -/
theorem feedAll?_cases (s : ArgumentScan) (cs : List Char) :
    (∃ s', s.feedAll? cs = some s') ∨
      (∃ w after s', cs = w ++ ')' :: after ∧ s.feedAll? w = some s' ∧ s'.AtTop) ∨
      ∃ w c after s' fault, cs = w ++ c :: after ∧ s.feedAll? w = some s' ∧
        s'.feed c = .failed fault := by
  induction cs generalizing s with
  | nil => exact .inl ⟨s, rfl⟩
  | cons c cs ih =>
      cases hf : s.feed c with
      | more s₁ =>
          have hstep : ∀ ds, s.feedAll? (c :: ds) = s₁.feedAll? ds := fun ds => by
            simp only [feedAll?, hf]
          rcases ih s₁ with ⟨s', h⟩ | ⟨w, after, s', rfl, hw, htop⟩ |
            ⟨w, d, after, s', fault, rfl, hw, hd⟩
          · exact .inl ⟨s', by rw [hstep, h]⟩
          · exact .inr (.inl ⟨c :: w, after, s', rfl, by rw [hstep, hw], htop⟩)
          · exact .inr (.inr ⟨c :: w, d, after, s', fault, rfl, by rw [hstep, hw], hd⟩)
      | closed s₁ =>
          obtain ⟨rfl, htop, -⟩ := feed_eq_closed_iff.mp hf
          exact .inr (.inl ⟨[], cs, s, rfl, rfl, htop⟩)
      | failed fault => exact .inr (.inr ⟨[], c, cs, s, fault, rfl, rfl, hf⟩)

end ArgumentScan

/-- `w` and the `)` after it are an argument list, read as `list`. -/
def Closes (w : List Char) (list : ArgumentList) : Prop :=
  ∃ s, ArgumentScan.feedAll? {} w = some s ∧ s.AtTop ∧ list = s.finish true

/-- `w` is an argument list that the end of input cuts off, read as `list`. -/
def RunsOut (w : List Char) (list : ArgumentList) : Prop :=
  ∃ s, ArgumentScan.feedAll? {} w = some s ∧ list = s.finish false

theorem Closes.terminated {w : List Char} {list : ArgumentList} (h : Closes w list) :
    list.terminated = true := by
  obtain ⟨s, -, -, rfl⟩ := h; rfl

theorem RunsOut.terminated {w : List Char} {list : ArgumentList} (h : RunsOut w list) :
    list.terminated = false := by
  obtain ⟨s, -, rfl⟩ := h; rfl

namespace Cursor

theorem arguments_of_closes {c : Cursor} {w after : List Char} {list : ArgumentList}
    (hc : Closes w list) (hr : c.rest = w ++ ')' :: after) :
    c.arguments = (.ok list, c.skip (w.length + 1)) := by
  obtain ⟨s, hw, htop, rfl⟩ := hc
  have hr' : c.rest = w ++ [')'] ++ after := by rw [hr, List.append_assoc]; rfl
  have hskip := skip_append hr'
  rw [List.length_append, List.length_singleton] at hskip
  rw [hskip, arguments, hr, ArgumentScan.run_append hw, ArgumentScan.run_closed htop,
    Position.advanceAll_append]
  rfl

theorem arguments_of_runsOut {c : Cursor} {list : ArgumentList} (h : RunsOut c.rest list) :
    c.arguments = (.ok list, c.skipAll) := by
  obtain ⟨s, hw, rfl⟩ := h
  have := ArgumentScan.run_append hw c.source c.position []
  rw [List.append_nil] at this
  rw [arguments, this]
  rfl

/-- A list fails at the first character that its scan refuses. -/
theorem arguments_of_failed {c : Cursor} {w after : List Char} {d : Char} {s : ArgumentScan}
    {fault : Fault} (hr : c.rest = w ++ d :: after) (hw : ArgumentScan.feedAll? {} w = some s)
    (hd : s.feed d = .failed fault) :
    c.arguments = (.error ⟨fault, .point (c.position.advanceAll w), c.source⟩,
      ⟨c.source, after, (c.position.advanceAll w).advance d⟩) := by
  rw [arguments, hr, ArgumentScan.run_append hw, ArgumentScan.run]
  simp only [hd]

/-- **An argument list is closed by a `)` or by the end of input.** -/
theorem arguments_eq_ok_iff {c c' : Cursor} {list : ArgumentList} :
    c.arguments = (.ok list, c') ↔
      (∃ w after, c.rest = w ++ ')' :: after ∧ Closes w list ∧ c' = c.skip (w.length + 1)) ∨
        (RunsOut c.rest list ∧ c' = c.skipAll) := by
  constructor
  · intro h
    rcases ArgumentScan.exists_of_run h with ⟨s, w, after, hr, hw, htop, rfl⟩ | ⟨s, hw, rfl⟩
    · have hc : Closes w (s.finish true) := ⟨s, hw, htop, rfl⟩
      rw [arguments_of_closes hc hr] at h
      exact .inl ⟨w, after, hr, hc, (Prod.mk.inj h).2.symm⟩
    · have hc : RunsOut c.rest (s.finish false) := ⟨s, hw, rfl⟩
      rw [arguments_of_runsOut hc] at h
      exact .inr ⟨hc, (Prod.mk.inj h).2.symm⟩
  · rintro (⟨w, after, hr, hc, rfl⟩ | ⟨hc, rfl⟩)
    · exact arguments_of_closes hc hr
    · exact arguments_of_runsOut hc

end Cursor

end Blade
