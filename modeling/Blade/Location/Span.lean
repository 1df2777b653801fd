import Blade.Location.Bytes
import Blade.Location.Position

/-!
# Location — Span

A span is a half-open range of a source, kept as the positions of its two ends; a located value is a
value with the span it was read from.
-/

namespace Blade

/-- A half-open range of a source. -/
structure Span where
  start : Position
  stop : Position
  deriving DecidableEq, Repr, Inhabited

namespace Span

/-- The empty span at a position. -/
def point (p : Position) : Span := ⟨p, p⟩

/-- The number of bytes covered. -/
def length (s : Span) : Nat :=
  s.stop.offset - s.start.offset

/-- Whether no byte is covered. -/
def isEmpty (s : Span) : Bool :=
  s.start.offset == s.stop.offset

/-- Whether `p` lies at or after the start and before the end. -/
def contains (s : Span) (p : Position) : Bool :=
  s.start.offset ≤ p.offset && p.offset < s.stop.offset

/-- The least span over both: the earlier start and the later end. -/
def merge (s t : Span) : Span where
  start := if s.start.offset < t.start.offset then s.start else t.start
  stop := if t.stop.offset < s.stop.offset then s.stop else t.stop

/-- The characters of `source` that a span covers; nothing when the span is no range of `source`. -/
def slice (s : Span) (source : String) : String :=
  String.ofList ((sliceBytes s.start.offset s.stop.offset source.toList).getD [])

/-- What each of some spans covers of `cs`, where `rest` is what follows the first `done` bytes: a
span that starts no earlier is looked for from there on. -/
def slicesFrom (cs : List Char) (done : Nat) (rest : List Char) : List Span → List String
  | [] => []
  | s :: spans =>
      let start := s.start.offset
      let near := done ≤ start
      match dropBytes (if near then start - done else start) (if near then rest else cs) with
      | some rest =>
          let covered := if start ≤ s.stop.offset then takeBytes (s.stop.offset - start) rest
            else none
          String.ofList (covered.getD []) :: slicesFrom cs start rest spans
      | none => "" :: slicesFrom cs done rest spans

/-- What each of some spans covers of `source`, in one walk where each starts no earlier than the
one before it. -/
def slices (spans : List Span) (source : String) : List String :=
  let cs := source.toList
  slicesFrom cs 0 cs spans

theorem slicesFrom_eq_map (source : String) (spans : List Span) (done : Nat) (rest : List Char)
    (h : dropBytes done source.toList = some rest) :
    slicesFrom source.toList done rest spans = spans.map (·.slice source) := by
  induction spans generalizing done rest with
  | nil => rfl
  | cons s spans ih =>
      have hd : dropBytes (if done ≤ s.start.offset then s.start.offset - done else s.start.offset)
          (if done ≤ s.start.offset then rest else source.toList) =
            dropBytes s.start.offset source.toList := by
        by_cases hle : done ≤ s.start.offset
        · simp only [hle, if_true]
          exact dropBytes_sub h hle
        · simp only [hle, if_false]
      rw [slicesFrom, List.map_cons]
      simp only [hd]
      cases hs : dropBytes s.start.offset source.toList with
      | none => simp [slice, sliceBytes, hs, ih done rest h]
      | some after =>
          simp only [ih _ after hs, slice, sliceBytes, hs, Option.bind_some]

theorem slices_eq_map (spans : List Span) (source : String) :
    slices spans source = spans.map (·.slice source) :=
  slicesFrom_eq_map source spans 0 source.toList (dropBytes_zero _)

/-- How a span is shown: `line:column-column`, or both positions when they differ in line. -/
def display (s : Span) : String :=
  if s.start.line = s.stop.line then s.start.display ++ "-" ++ toString s.stop.column
  else s.start.display ++ "-" ++ s.stop.display

end Span

/-- A value and where it was read. -/
structure Located (α : Type) where
  value : α
  span : Span
  deriving DecidableEq, Repr, Inhabited

end Blade
