import Blade.Proofs.Cut
import Blade.Token.Stream

/-!
# Proofs — Spans

The spans of delivered tokens, and what they cover of the source.

* `slice_place`: a token's span covers the characters that it was cut from.
* `consecutive_place`: each token starts where the one before it ended.
* `firstGap?_eq_none_iff`: a gap is reported exactly when some token starts elsewhere.
-/

namespace Blade

/-! ### Byte offsets -/

/-- The number of bytes of some characters. -/
def byteLength : List Char → Nat
  | [] => 0
  | c :: cs => c.utf8Size + byteLength cs

@[simp] theorem byteLength_nil : byteLength [] = 0 := rfl

@[simp] theorem byteLength_cons (c : Char) (cs : List Char) :
    byteLength (c :: cs) = c.utf8Size + byteLength cs := rfl

@[simp] theorem byteLength_append (cs ds : List Char) :
    byteLength (cs ++ ds) = byteLength cs + byteLength ds := by
  induction cs with
  | nil => simp
  | cons c cs ih => rw [List.cons_append, byteLength_cons, byteLength_cons, ih, Nat.add_assoc]

theorem offset_advanceAll (p : Position) (cs : List Char) :
    (p.advanceAll cs).offset = p.offset + byteLength cs := by
  induction cs generalizing p with
  | nil => rfl
  | cons c cs ih =>
      have hc : (p.advance c).offset = p.offset + c.utf8Size := by
        unfold Position.advance
        split
        · next h => subst h; rfl
        · rfl
      rw [Position.advanceAll_cons, ih, hc, byteLength_cons, Nat.add_assoc]

theorem byteLength_eq_zero_iff {cs : List Char} : byteLength cs = 0 ↔ cs = [] := by
  cases cs with
  | nil => simp
  | cons c cs =>
      have := c.utf8Size_pos
      simp
      omega

/-- Only by reading nothing does a position stay where it is. -/
theorem advanceAll_append_eq_iff {p : Position} {cs ds : List Char} :
    p.advanceAll (cs ++ ds) = p.advanceAll cs ↔ ds = [] := by
  constructor
  · intro h
    have hoff := congrArg Position.offset h
    rw [Position.advanceAll_append, offset_advanceAll] at hoff
    exact byteLength_eq_zero_iff.mp (by omega)
  · rintro rfl
    rw [List.append_nil]

theorem dropBytes_append (cs ds : List Char) :
    dropBytes (byteLength cs) (cs ++ ds) = some ds := by
  induction cs with
  | nil => exact dropBytes_zero ds
  | cons c cs ih =>
      have hc := c.utf8Size_pos
      rw [List.cons_append, dropBytes, byteLength_cons, if_neg (by omega), if_pos (by omega),
        Nat.add_sub_cancel_left, ih]

theorem takeBytesFrom_append (taken cs ds : List Char) :
    takeBytesFrom taken (byteLength cs) (cs ++ ds) = some (taken.reverse ++ cs) := by
  induction cs generalizing taken with
  | nil => cases ds <;> simp [takeBytesFrom]
  | cons c cs ih =>
      have hc := c.utf8Size_pos
      rw [List.cons_append, takeBytesFrom, byteLength_cons, if_neg (by omega), if_pos (by omega),
        Nat.add_sub_cancel_left, ih]
      simp

/-- **A span covers the characters between its two positions.** -/
theorem slice_advanceAll {source : String} {before slice after : List Char}
    (h : source.toList = before ++ slice ++ after) (p : Position) (hp : p.offset = 0) :
    (Span.mk (p.advanceAll before) (p.advanceAll (before ++ slice))).slice source =
      String.ofList slice := by
  have hsize : byteLength (before ++ slice) - byteLength before = byteLength slice := by simp
  have hle : byteLength before ≤ byteLength (before ++ slice) := by simp
  simp only [Span.slice, sliceBytes, offset_advanceAll, hp, Nat.zero_add, if_pos hle, h, hsize,
    List.append_assoc, dropBytes_append, Option.bind_some, takeBytes, takeBytesFrom_append,
    List.reverse_nil, List.nil_append, Option.getD_some]

theorem Span.contains_iff {s : Span} {pos : Position} : s.contains pos = true ↔
    s.start.offset ≤ pos.offset ∧ pos.offset < s.stop.offset := by
  rw [contains, Bool.and_eq_true, decide_eq_true_eq, decide_eq_true_eq]

/-! ### Consecutive tokens -/

/-- From `p` to `q`, each token starts where the one before it ended. -/
def Consecutive (p : Position) : List LocatedToken → Position → Prop
  | [], q => p = q
  | t :: tokens, q => t.span.start = p ∧ Consecutive t.span.stop tokens q

theorem consecutive_append {p q : Position} {tokens : List LocatedToken} {t : LocatedToken} :
    Consecutive p (tokens ++ [t]) q ↔ Consecutive p tokens t.span.start ∧ t.span.stop = q := by
  induction tokens generalizing p with
  | nil => simp [Consecutive, eq_comm]
  | cons u tokens ih => simp [Consecutive, ih, and_assoc]

theorem consecutive_place (start : Position) (cuts : List Cut) :
    Consecutive start (place start cuts) (start.advanceAll (slices cuts)) := by
  induction cuts generalizing start with
  | nil => rfl
  | cons cut cuts ih =>
      rw [slices_cons, Position.advanceAll_append]
      exact ⟨rfl, ih _⟩

/-- Consecutive tokens end in one place only. -/
theorem Consecutive.stop_unique {p q q' : Position} {tokens : List LocatedToken}
    (h : Consecutive p tokens q) (h' : Consecutive p tokens q') : q = q' := by
  induction tokens generalizing p with
  | nil => exact h.symm.trans h'
  | cons t tokens ih => exact ih h.2 h'.2

/-- A gap is looked for between two tokens, not before the first one. -/
theorem firstGap?_cons_eq_none_iff {t : LocatedToken} {tokens : List LocatedToken} :
    firstGap? (t :: tokens) = none ↔ ∃ q, Consecutive t.span.stop tokens q := by
  induction tokens generalizing t with
  | nil => simp [firstGap?, Consecutive]
  | cons u tokens ih =>
      rw [firstGap?]
      by_cases h : t.span.stop = u.span.start
      · simp [h, ih, Consecutive]
      · simp [h, Consecutive, Ne.symm h]

/-! ### Placed cuts -/

/-- The token of each placed cut covers its slice. -/
theorem slice_place {source : String} {before after : List Char} {cuts : List Cut}
    (h : source.toList = before ++ slices cuts ++ after) :
    (place (Position.start.advanceAll before) cuts).map
        (fun t => (⟨t.value, (t.span.slice source).toList⟩ : Cut)) = cuts := by
  induction cuts generalizing before with
  | nil => rfl
  | cons cut cuts ih =>
      rw [slices_cons] at h
      rw [place, List.map_cons, ← Position.advanceAll_append]
      congr 1
      · have hcut : source.toList = before ++ cut.slice ++ (slices cuts ++ after) := by
          rw [h]; simp only [List.append_assoc]
        rw [slice_advanceAll hcut Position.start rfl, String.toList_ofList]
      · exact ih (by rw [h]; simp only [List.append_assoc])

/-- Placed from the start of the source, the tokens' slices are all that was cut. -/
theorem flatMap_slice_place {source : String} {after : List Char} {cuts : List Cut}
    (h : source.toList = slices cuts ++ after) :
    (place .start cuts).flatMap (fun t => (t.span.slice source).toList) = slices cuts := by
  have hcuts : source.toList = [] ++ slices cuts ++ after := h
  have := congrArg slices (slice_place hcuts)
  simpa [slices, List.flatMap_map] using this

end Blade
