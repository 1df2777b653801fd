import Blade.Limits.Development
import Blade.Log.Bounded
import Mathlib.Data.List.DropRight

/-!
# Proofs — Retention

What a bounded log keeps of the events that are sent to it, some of them through a filter.

A log forgets one event at a time, and only when it holds exactly as many as it may.  That this is
enough rests on `Keeps log sent`, which ties the log to all that was ever recorded in it: the log
holds the end of `sent`, its size is the number of its events, and it has room for one.

* `Keeps.push`: one more event leaves a log that keeps the end of what was recorded.
* `Keeps.sendAll`: so do any events, sent directly or through the filter.
* `keeps_newest`: a new log keeps the newest events that were admitted, and answers for them alone.
-/

namespace Blade

/-- How an event is sent to a log. -/
inductive Sending where
  /-- It is recorded whatever its level is. -/
  | direct (e : Event)
  /-- It has to pass the filter in front of the log. -/
  | filtered (e : Event)
  deriving DecidableEq, Repr

/-- The event that is to be recorded: through the filter, only one of at most the minimum level. -/
def Sending.admitted? (minLevel : Level) : Sending → Option Event
  | direct e => some e
  | filtered e => if e.level.rank ≤ minLevel.rank then some e else none

namespace BoundedLog

/-- The log after an event was sent. -/
def send (minLevel : Level) (log : BoundedLog) : Sending → BoundedLog
  | .direct e => log.push e
  | .filtered e => log.offer minLevel e

/-- The log after some events were sent, one after the other. -/
def sendAll (minLevel : Level) (log : BoundedLog) (sendings : List Sending) : BoundedLog :=
  sendings.foldl (send minLevel) log

variable {log : BoundedLog} {sent : List Event}

/-! ### One event -/

@[simp] theorem limit_dropOldest (log : BoundedLog) : log.dropOldest.limit = log.limit := by
  unfold dropOldest
  split
  · rfl
  · split <;> rfl

/-- The oldest event is the first one, whichever of the two lists it is in. -/
theorem toList_dropOldest (log : BoundedLog) : log.dropOldest.toList = log.toList.tail := by
  unfold dropOldest
  split
  · next h => rw [toList, toList, h]; rfl
  · next hold =>
      split
      · next hnew => rw [toList, toList, hold, hnew]; simp
      · next hnew => rw [toList, hold, hnew]; rfl

theorem size_dropOldest (hsize : log.size = log.toList.length) :
    log.dropOldest.size = log.dropOldest.toList.length := by
  rw [toList_dropOldest, List.length_tail, ← hsize]
  unfold dropOldest
  split
  · rfl
  · next hold =>
      split
      · rfl
      · next hnew => rw [hsize, toList, hold, hnew]; rfl

@[simp] theorem limit_push (log : BoundedLog) (e : Event) : (log.push e).limit = log.limit := by
  unfold push
  split
  · exact limit_dropOldest log
  · rfl

@[simp] theorem limit_send (minLevel : Level) (log : BoundedLog) (s : Sending) :
    (log.send minLevel s).limit = log.limit := by
  cases s with
  | direct e => exact limit_push log e
  | filtered e =>
      rw [send, offer]
      split
      · exact limit_push log e
      · rfl

theorem toList_push (log : BoundedLog) (e : Event) : (log.push e).toList =
    (if log.size = log.limit then log.toList.tail else log.toList) ++ [e] := by
  unfold push
  split
  · rw [← toList_dropOldest, toList, toList, List.reverse_cons, List.append_assoc]
  · rw [toList, toList, List.reverse_cons, List.append_assoc]

theorem size_push (hsize : log.size = log.toList.length) (e : Event) :
    (log.push e).size = (log.push e).toList.length := by
  rw [toList_push, List.length_append, List.length_singleton]
  unfold push
  split
  · rw [← toList_dropOldest, ← size_dropOldest hsize]
  · rw [← hsize]

/-! ### All events -/

/-- The log keeps the end of all that was recorded in it. -/
structure Keeps (log : BoundedLog) (sent : List Event) : Prop where
  events : log.toList = sent.rtake log.limit
  size : log.size = log.toList.length
  room : 0 < log.limit

theorem length_rtake (sent : List Event) (n : Nat) : (sent.rtake n).length = min n sent.length := by
  rw [List.rtake, List.length_drop]
  omega

theorem keeps_ofCapacity (capacity : Nat) : (ofCapacity capacity).Keeps [] where
  events := (List.rtake_nil _).symm
  size := rfl
  room := Nat.lt_of_lt_of_le Nat.one_pos (Nat.le_max_right capacity 1)

/-- **One more event leaves the end of what was recorded**: a full log loses its first event, and
any other one held all there was. -/
theorem Keeps.push (h : log.Keeps sent) (e : Event) : (log.push e).Keeps (sent ++ [e]) := by
  obtain ⟨n, hn⟩ := Nat.exists_eq_add_one.mpr h.room
  refine ⟨?_, size_push h.size e, (limit_push log e).symm ▸ h.room⟩
  have hlength : log.size = min (n + 1) sent.length := by
    rw [h.size, h.events, length_rtake, hn]
  rw [toList_push, limit_push, hn, List.rtake_concat_succ, h.events, hn]
  congr 1
  split
  · next hfull =>
      have hindex : sent.length - (n + 1) + 1 = sent.length - n := by omega
      rw [List.rtake, List.rtake, List.tail_drop, hindex]
  · next hfree =>
      have hindex : sent.length - (n + 1) = sent.length - n := by omega
      rw [List.rtake, List.rtake, hindex]

theorem Keeps.send (h : log.Keeps sent) (minLevel : Level) (s : Sending) :
    (log.send minLevel s).Keeps (sent ++ (s.admitted? minLevel).toList) := by
  cases s with
  | direct e => exact h.push e
  | filtered e =>
      rw [BoundedLog.send, offer, Level.admittedBy, Sending.admitted?]
      by_cases hlevel : e.level.rank ≤ minLevel.rank
      · simpa [hlevel] using h.push e
      · simpa [hlevel] using h

/-- **Any events leave the end of those that were admitted.** -/
theorem Keeps.sendAll (h : log.Keeps sent) (minLevel : Level) (sendings : List Sending) :
    (log.sendAll minLevel sendings).Keeps
      (sent ++ sendings.filterMap (Sending.admitted? minLevel)) := by
  induction sendings generalizing log sent with
  | nil => rwa [List.filterMap_nil, List.append_nil]
  | cons s sendings ih =>
      have hadmitted : (s :: sendings).filterMap (Sending.admitted? minLevel) =
          (s.admitted? minLevel).toList ++ sendings.filterMap (Sending.admitted? minLevel) := by
        rw [List.filterMap_cons]
        cases s.admitted? minLevel <;> rfl
      rw [hadmitted, ← List.append_assoc]
      exact ih (h.send minLevel s)

theorem limit_sendAll (minLevel : Level) (log : BoundedLog) (sendings : List Sending) :
    (log.sendAll minLevel sendings).limit = log.limit := by
  induction sendings generalizing log with
  | nil => rfl
  | cons s sendings ih => exact (ih _).trans (limit_send minLevel log s)

theorem hasError_iff {code : Code} : log.hasError code = true ↔
    ∃ e ∈ log.toList, e.code = some code ∧ e.level = .error := by
  simp [hasError, Event.isError, Event.hasCode, and_comm]

theorem hasSuccess_iff {code : Code} : log.hasSuccess code = true ↔
    ∃ e ∈ log.toList, e.code = some code ∧ e.level ≠ .error := by
  simp [hasSuccess, Event.isError, Event.hasCode, and_comm]

/-- **A bounded log keeps exactly the newest admitted events.**  However events are sent to it, it
holds the last ones of those sent directly together with those that pass the filter, as many as it
may, and at least one; and it says that it has an error or a success with a code exactly when one of
these has the code and is, or is not, an error. -/
theorem keeps_newest (capacity : Nat) (minLevel : Level) (sendings : List Sending) :
    let log := (ofCapacity capacity).sendAll minLevel sendings
    let kept := (sendings.filterMap (Sending.admitted? minLevel)).rtake (max capacity 1)
    log.toList = kept ∧ log.size = kept.length ∧ log.size ≤ max capacity 1 ∧
      ∀ code, (log.hasError code = true ↔ ∃ e ∈ kept, e.code = some code ∧ e.level = .error) ∧
        (log.hasSuccess code = true ↔ ∃ e ∈ kept, e.code = some code ∧ e.level ≠ .error) := by
  intro log kept
  have hkeeps := (keeps_ofCapacity capacity).sendAll minLevel sendings
  have hkept : log.toList = kept := by
    have hevents := hkeeps.events
    rwa [limit_sendAll, List.nil_append] at hevents
  have hsize : log.size = kept.length := by rw [← hkept]; exact hkeeps.size
  refine ⟨hkept, hsize, ?_, fun code => ?_⟩
  · rw [hsize, length_rtake]
    exact Nat.min_le_left _ _
  · rw [← hkept]
    exact ⟨hasError_iff, hasSuccess_iff⟩

example : ((ofCapacity 0).sendAll .warning
    [.direct (.info "a"), .filtered (.warning "b"), .filtered (.debug "c")]).toList =
      [.warning "b"] := by cbv

end BoundedLog

end Blade
