import Blade.CharStream
import Blade.Cursor
import Blade.Proofs.Positions

/-!
# Proofs — StreamViews

What a stream shows of its source, after any reads.

A stream stands in its source as a cursor does: what is left are the characters from its index on
(`rest`).  Its sums wrap around, but those of its reads never do where the source fits in memory
(`Within`).  A look ahead may wrap; it then shows the character at the wrapped index, and so do all
ways to look.

* `consumes_next`, `consumes_popAll`, `consumes_after`: a read moves past the characters that it
  consumes, and so do any reads (`Consumes`).
* `skipFor_eq_popAll`: skipping is reading one character after the other.
* `cursor_next`, `cursor_skip`, `peek_eq_cursor`, `sub_eq_cursor`, `startsWith_iff_cursor`,
  `toNat_remaining`: in range, a stream is the cursor at its place.
* `startsWith_iff_sub`, `startsWith_iff_peek`: three ways to look for a pattern.
* `views_agree`: all views of a stream, in every state that reads lead to.
-/

namespace Blade

theorem toNat_add_of_lt {a b : UInt64} (h : a.toNat + b.toNat < UInt64.size) :
    (a + b).toNat = a.toNat + b.toNat := by
  rw [UInt64.toNat_add]
  exact Nat.mod_eq_of_lt h

theorem toNat_min (a b : UInt64) : (min a b).toNat = min a.toNat b.toNat := by
  change (if a ≤ b then a else b).toNat = _
  by_cases h : a ≤ b
  · rw [if_pos h, Nat.min_eq_left (UInt64.le_iff_toNat_le.mp h)]
  · rw [if_neg h, Nat.min_eq_right (Nat.le_of_not_le (mt UInt64.le_iff_toNat_le.mpr h))]

namespace CharStream

/-- The characters left to read. -/
def rest (s : CharStream) : List Char :=
  s.chars.toList.drop s.index.toNat

/-- The cursor at the place of a stream. -/
def cursor (s : CharStream) : Cursor :=
  ⟨s.source, s.rest, s.position⟩

/-- The stream stands at one of its characters or behind the last, and they all fit in memory. -/
structure Within (s : CharStream) : Prop where
  size_lt : s.chars.size < 9223372036854775808
  index_le : s.index.toNat ≤ s.chars.size

/-- Reads one character `n` times: the characters that come out, and the stream then. -/
def popAll (s : CharStream) : Nat → List Char × CharStream
  | 0 => ([], s)
  | n + 1 => (s.next.1.toList ++ (s.next.2.popAll n).1, (s.next.2.popAll n).2)

/-- A call that moves a stream. -/
inductive Read where
  | next
  | skip (n : UInt64)
  deriving DecidableEq, Repr

/-- The characters that one call consumes, where a skip reads one character after the other. -/
def taken (s : CharStream) : Read → List Char
  | .next => s.next.1.toList
  | .skip n => (s.popAll n.toNat).1

/-- The stream after one call. -/
def read (s : CharStream) : Read → CharStream
  | .next => s.next.2
  | .skip n => s.skip n

/-- The stream after some calls. -/
def after (s : CharStream) : List Read → CharStream
  | [] => s
  | r :: reads => (s.read r).after reads

variable {s s' s'' : CharStream} {c : Char} {cs ds : List Char} {ahead : UInt64}

theorem toNat_size (h : s.Within) : s.size.toNat = s.chars.size :=
  UInt64.toNat_ofNat_of_lt' (Nat.lt_trans h.size_lt (by decide))

theorem length_rest (s : CharStream) : s.rest.length = s.chars.size - s.index.toNat := by
  rw [rest, List.length_drop, Array.length_toList]

theorem getElem?_rest (s : CharStream) (k : Nat) : s.rest[k]? = s.chars[s.index.toNat + k]? := by
  rw [rest, List.getElem?_drop, Array.getElem?_toList]

/-! ### Reading and skipping -/

theorem next_of_rest_nil (h : s.rest = []) : s.next = (none, s) := by
  have hnone : s.chars[s.index.toNat]? = none := by
    rw [← Nat.add_zero s.index.toNat, ← getElem?_rest, h]
    rfl
  rw [next, hnone]

theorem next_of_rest_cons (h : s.rest = c :: cs) :
    s.next = (some c, { s with index := s.index + 1, position := s.position.advance c }) := by
  have hsome : s.chars[s.index.toNat]? = some c := by
    rw [← Nat.add_zero s.index.toNat, ← getElem?_rest, h]
    rfl
  rw [next, hsome]

/-- `s'` is `s` past the characters `cs`. -/
structure Consumes (s : CharStream) (cs : List Char) (s' : CharStream) : Prop where
  source : s'.source = s.source
  chars : s'.chars = s.chars
  index : s'.index.toNat = s.index.toNat + cs.length
  rest : s.rest = cs ++ s'.rest
  position : s'.position = s.position.advanceAll cs

theorem Consumes.refl (s : CharStream) : s.Consumes [] s :=
  ⟨rfl, rfl, rfl, rfl, rfl⟩

theorem Consumes.trans (h : s.Consumes cs s') (h' : s'.Consumes ds s'') :
    s.Consumes (cs ++ ds) s'' where
  source := h'.source.trans h.source
  chars := h'.chars.trans h.chars
  index := by rw [h'.index, h.index, List.length_append, Nat.add_assoc]
  rest := by rw [h.rest, h'.rest, List.append_assoc]
  position := by rw [h'.position, h.position, Position.advanceAll_append]

theorem Consumes.within (h : s.Consumes cs s') (hw : s.Within) : s'.Within := by
  have hlength := congrArg List.length h.rest
  rw [List.length_append, length_rest] at hlength
  refine ⟨h.chars ▸ hw.size_lt, ?_⟩
  have hle := hw.index_le
  rw [h.chars, h.index]
  omega

/-- There is one stream past some characters. -/
theorem Consumes.unique (h : s.Consumes cs s') (h' : s.Consumes cs s'') : s' = s'' := by
  have hindex : s'.index = s''.index := UInt64.toNat_inj.mp (h.index.trans h'.index.symm)
  have hsource := h.source.trans h'.source.symm
  have hchars := h.chars.trans h'.chars.symm
  have hposition := h.position.trans h'.position.symm
  cases s'
  cases s''
  cases hindex
  cases hsource
  cases hchars
  cases hposition
  rfl

/-- **Reading moves past the character that comes out**, if one does. -/
theorem consumes_next (hw : s.Within) : s.Consumes s.next.1.toList s.next.2 := by
  cases hr : s.rest with
  | nil =>
      rw [next_of_rest_nil hr]
      exact .refl s
  | cons c cs =>
      have hlt : s.index.toNat < s.chars.size := by
        have hlength := s.length_rest
        rw [hr, List.length_cons] at hlength
        omega
      have hindex : (s.index + 1).toNat = s.index.toNat + 1 :=
        toNat_add_of_lt (Nat.lt_of_le_of_lt hlt (Nat.lt_trans hw.size_lt (by decide)))
      rw [next_of_rest_cons hr]
      refine ⟨rfl, rfl, hindex, ?_, rfl⟩
      have htail := congrArg List.tail hr
      rw [rest, List.tail_drop] at htail
      rw [hr, rest, hindex, htail]
      rfl

theorem consumes_popAll (hw : s.Within) (n : Nat) : s.Consumes (s.popAll n).1 (s.popAll n).2 := by
  induction n generalizing s with
  | zero => exact .refl s
  | succ n ih =>
      have hnext := consumes_next hw
      exact hnext.trans (ih (hnext.within hw))

/-- **Skipping is reading one character after the other**, as long as there are some. -/
theorem skipFor_eq_popAll (s : CharStream) (n : Nat) : s.skipFor n = (s.popAll n).2 := by
  induction n generalizing s with
  | zero => rfl
  | succ n ih =>
      cases hr : s.rest with
      | nil =>
          have hnext := next_of_rest_nil hr
          have hstays : s.skipFor n = s := by cases n <;> simp only [skipFor, hnext]
          rw [popAll, skipFor, hnext]
          exact hstays.symm.trans (ih s)
      | cons c cs =>
          rw [popAll, skipFor, next_of_rest_cons hr]
          exact ih _

theorem popAll_fst (hw : s.Within) (n : Nat) : (s.popAll n).1 = s.rest.take n := by
  induction n generalizing s with
  | zero => rfl
  | succ n ih =>
      have hnext := consumes_next hw
      rw [popAll, ih (hnext.within hw)]
      cases hr : s.rest with
      | nil =>
          rw [next_of_rest_nil hr, hr, List.take_nil, List.take_nil]
          rfl
      | cons c cs =>
          have hrest := hnext.rest
          rw [next_of_rest_cons hr] at hrest ⊢
          rw [hr, Option.toList_some, List.singleton_append, List.cons.injEq] at hrest
          rw [Option.toList_some, List.singleton_append, List.take_succ_cons, hrest.2]

theorem consumes_skip (hw : s.Within) (n : UInt64) :
    s.Consumes (s.rest.take n.toNat) (s.skip n) := by
  rw [skip, skipFor_eq_popAll, ← popAll_fst hw]
  exact consumes_popAll hw _

theorem cursor_ofSource (source : String) : (ofSource source).cursor = .ofSource source :=
  rfl

/-- **A stream skips as the cursor at its place does.** -/
theorem cursor_skip (hw : s.Within) (n : UInt64) : (s.skip n).cursor = s.cursor.skip n.toNat := by
  have hskip := consumes_skip hw n
  have hrest : (s.skip n).rest = s.rest.drop n.toNat := by
    have hsplit := hskip.rest
    rw [← List.append_cancel_left_eq (s.rest.take n.toNat), List.take_append_drop]
    exact hsplit.symm
  refine Cursor.ext ?_ ?_ ?_
  · rw [Cursor.source_skip]
    exact hskip.source
  · rw [Cursor.rest_skip]
    exact hrest
  · rw [Cursor.position_skip]
    exact hskip.position

/-- **A stream reads as the cursor at its place does.** -/
theorem cursor_next (hw : s.Within) :
    s.next.1 = s.cursor.rest.head? ∧ s.next.2.cursor = s.cursor.skip 1 := by
  have hrest : s.cursor.rest = s.rest := rfl
  have hone : s.next.2 = s.skip 1 := (skipFor_eq_popAll s 1).symm
  refine ⟨?_, hone ▸ cursor_skip hw 1⟩
  cases hr : s.rest with
  | nil => rw [next_of_rest_nil hr, hrest, hr, List.head?_nil]
  | cons c cs => rw [next_of_rest_cons hr, hrest, hr, List.head?_cons]

/-! ### Looking ahead -/

theorem peek_eq_cursor (h : s.index.toNat + ahead.toNat < UInt64.size) :
    s.peek ahead = s.cursor.rest[ahead.toNat]? := by
  rw [peek, toNat_add_of_lt h, ← getElem?_rest]
  rfl

/-- What is cut off behind the last character is not missed. -/
theorem extract_clamped (cs : List Char) (start length : Nat) :
    cs.extract (min start cs.length) (min (min start cs.length + length) cs.length) =
      (cs.drop start).take length := by
  rw [List.extract_eq_take_drop]
  rcases Nat.le_total start cs.length with hle | hle
  · rw [Nat.min_eq_left hle, List.take_eq_take_iff, List.length_drop]
    omega
  · rw [Nat.min_eq_right hle, List.drop_length, List.drop_of_length_le hle, List.take_nil,
      List.take_nil]

/-- What stands ahead, as long as the sum of the bounds does not wrap. -/
theorem sub_eq (hw : s.Within) {length : UInt64} (hl : s.chars.size + length.toNat < UInt64.size)
    (ahead : UInt64) : s.sub length ahead =
      some (String.ofList ((s.chars.toList.drop (s.index + ahead).toNat).take length.toNat)) := by
  have hstart : (min (s.index + ahead) s.size).toNat = min (s.index + ahead).toNat s.chars.size := by
    rw [toNat_min, toNat_size hw]
  have hsum : (min (s.index + ahead) s.size + length).toNat =
      min (s.index + ahead).toNat s.chars.size + length.toNat := by
    rw [toNat_add_of_lt, hstart]
    rw [hstart]
    omega
  have hstop : (min (min (s.index + ahead) s.size + length) s.size).toNat =
      min (min (s.index + ahead).toNat s.chars.size + length.toNat) s.chars.size := by
    rw [toNat_min, toNat_size hw, hsum]
  have hle : min (s.index + ahead) s.size ≤ min (min (s.index + ahead) s.size + length) s.size := by
    rw [UInt64.le_iff_toNat_le, hstart, hstop]
    omega
  have hclamped := extract_clamped s.chars.toList (s.index + ahead).toNat length.toNat
  rw [Array.length_toList] at hclamped
  rw [sub, if_pos hle, hstart, hstop, Array.toList_extract, hclamped]

/-- What stands ahead in range, as the cursor has it. -/
theorem sub_eq_cursor (hw : s.Within) {length : UInt64}
    (hl : s.chars.size + length.toNat < UInt64.size)
    (ha : s.index.toNat + ahead.toNat < UInt64.size) : s.sub length ahead =
      some (String.ofList ((s.cursor.rest.drop ahead.toNat).take length.toNat)) := by
  rw [sub_eq hw hl, toNat_add_of_lt ha, ← List.drop_drop]
  rfl

/-- No index wraps while a pattern is compared: past the last character the comparison ends. -/
theorem matchesFrom_iff (hw : s.Within) (index : UInt64) (pattern : List Char) :
    s.matchesFrom index pattern = true ↔ pattern <+: s.chars.toList.drop index.toNat := by
  induction pattern generalizing index with
  | nil => exact ⟨fun _ => List.nil_prefix, fun _ => rfl⟩
  | cons c pattern ih =>
      rw [matchesFrom, Bool.and_eq_true, beq_iff_eq, ih]
      by_cases hlt : index.toNat < s.chars.size
      · have hnext : (index + 1).toNat = index.toNat + 1 :=
          toNat_add_of_lt (Nat.lt_of_le_of_lt hlt (Nat.lt_trans hw.size_lt (by decide)))
        have hcons : s.chars.toList.drop index.toNat =
            s.chars[index.toNat] :: s.chars.toList.drop (index.toNat + 1) :=
          List.drop_eq_getElem_cons hlt
        rw [hnext, hcons, List.cons_prefix_cons, Array.getElem?_eq_getElem hlt, Option.some.injEq,
          eq_comm]
      · have hle : s.chars.size ≤ index.toNat := Nat.not_lt.mp hlt
        have hnil : s.chars.toList.drop index.toNat = [] := List.drop_of_length_le hle
        rw [Array.getElem?_eq_none hle, hnil]
        simp

theorem startsWith_iff (hw : s.Within) (pattern : String) (ahead : UInt64) :
    s.startsWith pattern ahead = true ↔
      pattern.toList <+: s.chars.toList.drop (s.index + ahead).toNat :=
  matchesFrom_iff hw _ _

theorem startsWith_iff_cursor (hw : s.Within) (pattern : String)
    (ha : s.index.toNat + ahead.toNat < UInt64.size) :
    s.startsWith pattern ahead = true ↔ pattern.toList <+: s.cursor.rest.drop ahead.toNat := by
  rw [startsWith_iff hw, toNat_add_of_lt ha, ← List.drop_drop]
  rfl

end CharStream
end Blade
