import Blade.Limits.Development
import Blade.Proofs.Failure
import Blade.Proofs.Ledger
import Blade.Proofs.Scopes

/-!
# Proofs — ErrorLog

A lexer that fails logs its error once, however often it is asked afterwards.

Errors are logged where the lexer stops on them and nowhere else, so the log of a lexer has the
error that the lexer has stopped on, and no other (`Logged`).  That error is the first one that a
call returns.  Only the limit on collecting could stop a lexer a second time; a lexer that has
stopped holds one token at most (`Spent`), which is never too many.

* `errorLog_step`: a step logs the error that it fails with, and none if it does not fail.
* `stops_call`: a call stops the lexer on the error that it returns, unless it had stopped before
  (`Stops`).
* `Spent.call`: a call leaves a lexer that has stopped with one token at most.
* `stops_after`: so any calls stop the lexer on the first error that one of them returns.
* `error_logged_once`: both together, as a recorder sees it.
-/

namespace Blade

@[simp] theorem Reply.error?_ofToken_ok (t : LocatedToken) :
    (Reply.ofToken (.ok t)).error? = none :=
  rfl

namespace Lexer

variable {source : String} {p : Preferences} {l l' m : Lexer} {e : LexError}

/-- The errors logged so far. -/
def errorLog (l : Lexer) : List Event :=
  l.journal.toList.filter Event.isError

/-- The lexer has logged the error that it has stopped on, and no other. -/
def Logged [Limits] (l : Lexer) : Prop :=
  l.errorLog = (l.error.map LexError.event).toList

/-- Between `l` and `l'` the lexer has stopped on the error, if there is one, unless it had stopped
before; and it has logged what it has stopped on. -/
structure Stops [Limits] (l : Lexer) (e? : Option LexError) (l' : Lexer) : Prop where
  error : l'.error = l.error.or e?
  logged : l.Logged → l'.Logged

/-- A lexer that has stopped holds one token at most. -/
def Spent (l : Lexer) : Prop :=
  ∀ e, l.error = some e → l.waiting.length ≤ 1

theorem spent_ofSource (source : String) (p : Preferences) : (ofSource source p).Spent := by
  intro e he
  cases he

/-! ### What a step logs -/

theorem errorLog_congr (h : l'.journal = l.journal) : l'.errorLog = l.errorLog := by
  rw [errorLog, h, errorLog]

@[simp] theorem journal_flushText (l : Lexer) (stop : Position) :
    (l.flushText stop).journal = l.journal := by
  unfold flushText
  split <;> rfl

@[simp] theorem journal_noteList (l : Lexer) (list : Option ArgumentList) :
    (l.noteList list).journal = l.journal := by
  cases list <;> rfl

@[simp] theorem journal_closeRaw (l : Lexer) (block : RawBlock) :
    (l.closeRaw block).journal = l.journal := by
  simp only [closeRaw]
  split
  · exact journal_flushText _ _
  · rfl

variable [Limits]

theorem errorLog_fail (l : Lexer) (e : LexError) :
    (l.fail e).errorLog = l.errorLog ++ [e.event] := by
  have herror : e.event.isError = true := rfl
  simp [errorLog, fail, herror]

/-- Reading a piece logs no error; that a raw block is opened is not one. -/
theorem errorLog_perform (l : Lexer) (n : Nat) (effect : Effect) :
    (l.perform n effect).errorLog = l.errorLog := by
  cases effect with
  | hold value => rfl
  | token token list =>
      refine errorLog_congr ?_
      change ((Lexer.noteList _ list).flushText l.cursor.position).journal = l.journal
      rw [journal_flushText, journal_noteList]
  | enter name list =>
      have hopened : (rawOpened (String.ofList name) l.cursor.position).isError = false := rfl
      simp [errorLog, perform, hopened]
  | leave =>
      simp only [perform]
      split
      · exact errorLog_congr (journal_closeRaw _ _)
      · rfl

theorem journal_finish (h : l.finish.error = none) : l.finish.journal = l.journal := by
  simp only [finish] at h ⊢
  split at h
  · split at h
    · cases h
    · next hs =>
        rw [if_neg hs]
        simp only [journal_flushText, journal_closeRaw]
  · simp only [journal_flushText]

/-- **A step logs the error that it fails with**, and none if it does not fail. -/
theorem errorLog_step (h : l.error = none) :
    l.step.errorLog = l.errorLog ++ (l.step.error.map LexError.event).toList := by
  cases he : l.step.error with
  | some e =>
      rcases step_failed h he with ⟨-, hstep⟩ | ⟨-, hstep⟩
      · rw [hstep, errorLog_fail]
        rfl
      · rw [hstep, errorLog_fail, errorLog_congr (journal_flushText _ _)]
        rfl
  | none =>
      rw [Option.map_none, Option.toList_none, List.append_nil]
      by_cases hr : l.cursor.rest = []
      · rw [step_nil hr] at he ⊢
        exact errorLog_congr (journal_finish he)
      · rcases step_cases l hr with ⟨chunk, after, effect, -, -, hstep⟩ | ⟨-, e, hstep⟩ |
          ⟨-, e, hstep⟩
        · rw [hstep, errorLog_perform]
        · rw [hstep] at he
          cases he
        · rw [hstep] at he
          cases he

theorem Logged.step (h : l.Logged) (hi : l.Idle) : l.step.Logged := by
  have hnone : l.errorLog = [] := by rw [h, hi.error, Option.map_none, Option.toList_none]
  rw [Logged, errorLog_step hi.error, hnone, List.nil_append]

/-! ### One token -/

theorem Stops.trans {e? e'? : Option LexError} (h : Stops l e? m) (h' : Stops m e'? l') :
    Stops l (e?.or e'?) l' where
  error := by rw [h'.error, h.error, Option.or_assoc]
  logged hl := h'.logged (h.logged hl)

theorem stops_gives {reply : Except LexError LocatedToken} (hg : l.Gives reply l') :
    Stops l (Reply.ofToken reply).error? l' := by
  cases hg with
  | queued _ => exact ⟨Option.or_none.symm, id⟩
  | failed _ he => exact ⟨by rw [he]; rfl, id⟩
  | finished _ _ _ => exact ⟨Option.or_none.symm, id⟩
  | fails hi he => exact ⟨by rw [hi.error, he]; rfl, fun hl => hl.step hi⟩

theorem stops_advance (ha : l.Advance m) : Stops l none m := by
  induction ha with
  | refl => exact ⟨Option.or_none.symm, id⟩
  | step hi he _ ih =>
      have hstep : Stops _ none _ := ⟨by rw [he, hi.error]; rfl, fun hl => hl.step hi⟩
      exact hstep.trans ih

theorem stops_produce (l : Lexer) :
    Stops l (Reply.ofToken l.produce.1).error? l.produce.2 := by
  obtain ⟨m, ha, hg⟩ := produce_cases l
  exact (stops_advance ha).trans (stops_gives hg)

/-- **A pull stops the lexer on the error that it returns**, if it does. -/
theorem stops_next (l : Lexer) : Stops l (Reply.ofToken l.next.1).error? l.next.2 := by
  cases hp : l.peeked with
  | some token =>
      rw [next_of_peeked hp]
      exact ⟨Option.or_none.symm, id⟩
  | none =>
      rw [next_of_not_peeked hp]
      exact stops_produce l

theorem stops_peek (l : Lexer) : Stops l (Reply.ofToken l.peek.1).error? l.peek.2 := by
  cases hp : l.peeked with
  | some token =>
      simp only [Lexer.peek, hp]
      exact ⟨Option.or_none.symm, id⟩
  | none =>
      have hproduce := stops_produce l
      simp only [Lexer.peek, hp]
      split
      · next hprod =>
          rw [hprod] at hproduce
          exact ⟨hproduce.error, hproduce.logged⟩
      · next hprod =>
          rw [hprod] at hproduce
          exact hproduce

/-! ### All tokens -/

/-- A lexer that has stopped hands out what waits before the error. -/
theorem waiting_of_next {token : LocatedToken} (he : l.error = some e)
    (hn : l.next = (.ok token, l')) : l.waiting = token :: l'.waiting := by
  cases hp : l.peeked with
  | some t =>
      rw [next_of_peeked hp] at hn
      cases hn
      rw [waiting_of_peeked hp]
      rfl
  | none =>
      rw [next_of_not_peeked hp] at hn
      rw [waiting_of_not_peeked hp]
      cases hq : l.queue with
      | nil =>
          rw [produce_error hq he] at hn
          cases hn
      | cons t queue =>
          rw [produce_queue hq] at hn
          cases hn
          rw [waiting_of_not_peeked (by exact hp)]

/-- **Collecting stops a lexer on the error that it returns**, when one that has stopped before
holds no more tokens than may be collected. -/
theorem stops_collects {taken : Array LocatedToken} {n : Nat}
    {r : Except LexError (Array LocatedToken) × Lexer} (hc : Collects taken l n r)
    (hw : ∀ e, l.error = some e → l.waiting.length ≤ n) :
    Stops l (Reply.ofTokens r.1).error? r.2 := by
  induction hc with
  | @failed _ l _ _ _ hn =>
      have hnext := stops_next l
      rw [hn] at hnext
      exact hnext
  | @finished _ l _ _ _ hn _ =>
      have hnext := stops_next l
      rw [hn] at hnext
      exact hnext
  | @limit _ l l' token e hn _ _ =>
      have hnext := stops_next l
      rw [hn] at hnext
      -- a lexer that has stopped would hold this token, which is one more than it may
      have hnone : l.error = none := by
        cases he : l.error with
        | none => rfl
        | some e' =>
            have hlength := hw e' he
            rw [waiting_of_next he hn, List.length_cons] at hlength
            cases hlength
      have hnone' : l'.error = none := by
        rw [hnext.error, hnone]
        rfl
      refine ⟨by rw [hnone]; rfl, fun hl => ?_⟩
      have hempty : l'.errorLog = [] := by
        rw [hnext.logged hl, hnone']
        rfl
      rw [Logged, errorLog_fail, hempty]
      rfl
  | @more _ l l' n token r hn _ _ ih =>
      have hnext := stops_next l
      rw [hn, Reply.error?_ofToken_ok] at hnext
      refine hnext.trans (ih ?_)
      intro e he
      have he' : l.error = some e := by
        rwa [hnext.error, Option.or_none] at he
      have hlength := hw e he'
      rw [waiting_of_next he' hn, List.length_cons] at hlength
      exact Nat.le_of_succ_le_succ hlength

/-! ### Any calls -/

/-- **A call stops the lexer on the error that it returns**, unless it had stopped before. -/
theorem stops_call (hs : l.Spent) (c : Call) : Stops l (l.call c).1.error? (l.call c).2 := by
  cases c with
  | peek => exact stops_peek l
  | next => exact stops_next l
  | collect =>
      refine stops_collects (collects_collectFrom #[] l Limits.tokenCount) ?_
      intro e he
      exact Nat.le_trans (hs e he) Limits.tokenCount_pos

/-- A look moves the next token from the queue, which takes nothing from what waits. -/
theorem waiting_peek (he : l.error = some e) : l.peek.2.waiting = l.waiting := by
  cases hp : l.peeked with
  | some token => simp only [Lexer.peek, hp]
  | none =>
      cases hq : l.queue with
      | nil => simp only [Lexer.peek, hp, produce_error hq he]
      | cons token queue =>
          simp only [Lexer.peek, hp, produce_queue hq]
          rw [waiting_of_peeked rfl, waiting_of_not_peeked hp, hq]

theorem length_waiting_collects_lt {taken : Array LocatedToken} {n : Nat}
    {r : Except LexError (Array LocatedToken) × Lexer} (hc : Collects taken l n r)
    (he : l.error = some e) (hr : (Reply.ofTokens r.1).error? = none) :
    r.2.waiting.length < l.waiting.length := by
  induction hc with
  | failed => cases hr
  | limit => cases hr
  | finished hn _ =>
      rw [waiting_of_next he hn]
      exact Nat.lt_succ_self _
  | @more _ l l' _ _ _ hn _ _ ih =>
      have hnext := stops_next l
      rw [hn, Reply.error?_ofToken_ok] at hnext
      have he' : l'.error = some e := by rw [hnext.error, Option.or_none, he]
      rw [waiting_of_next he hn]
      exact Nat.lt_succ_of_lt (ih he' hr)

/-- Once the lexer has stopped, a call that does not fail adds no token. -/
theorem length_waiting_call_le {c : Call} (he : l.error = some e)
    (hr : (l.call c).1.error? = none) : (l.call c).2.waiting.length ≤ l.waiting.length := by
  cases c with
  | peek => exact Nat.le_of_eq (congrArg List.length (waiting_peek he))
  | next =>
      rcases hn : l.next with ⟨e' | token, l'⟩
      · rw [call, hn] at hr
        cases hr
      · rw [call, hn, waiting_of_next he hn]
        exact Nat.le_succ _
  | collect =>
      exact Nat.le_of_lt
        (length_waiting_collects_lt (collects_collectFrom #[] l Limits.tokenCount) he hr)

/-- **A call leaves a lexer that has stopped with one token at most.** -/
theorem Spent.call (hs : l.Spent) (h : Reached source p l) (c : Call) : (l.call c).2.Spent := by
  intro e he
  rcases hcall : l.call c with ⟨reply, l'⟩
  by_cases hr : ∃ e', reply = .failed e'
  · obtain ⟨e', rfl⟩ := hr
    obtain ⟨held, -, hstuck, -⟩ := (failed_call_cases h hcall).stuck
    rw [waiting, hstuck.waiting]
    exact Option.length_toList_le
  · -- the call has not failed, so the lexer had stopped before it
    have hnone : (l.call c).1.error? = none := by
      rw [hcall]
      cases reply with
      | failed e' => exact absurd ⟨e', rfl⟩ hr
      | token | tokens => rfl
    have hbefore : l.error = some e := by
      rw [← he, (stops_call hs c).error, hnone, Option.or_none]
    have hle := length_waiting_call_le hbefore hnone
    rw [hcall] at hle
    exact Nat.le_trans hle (hs e hbefore)

/-- **Any calls stop the lexer on the first error that one of them returns**, unless it had stopped
before. -/
theorem stops_after (h : Reached source p l) (hs : l.Spent) (calls : List Call) :
    Stops l ((l.replies calls).findSome? Reply.error?) (l.after calls) := by
  induction calls generalizing l with
  | nil => exact ⟨Option.or_none.symm, id⟩
  | cons c calls ih =>
      have hfirst : (l.replies (c :: calls)).findSome? Reply.error? =
          (l.call c).1.error?.or (((l.call c).2.replies calls).findSome? Reply.error?) := by
        rw [replies, List.findSome?_cons]
        cases (l.call c).1.error? <;> rfl
      rw [hfirst]
      exact (stops_call hs c).trans (ih (.call c h) (hs.call h c))

end Lexer

/-! ### What a recorder sees -/

/-- The event reports the error: with its code, with its message, cut where it is too long, with
its span, and with the position at which the span starts. -/
structure LexError.ReportedBy [Limits] (e : LexError) (event : Event) : Prop where
  level : event.level = .error
  code : event.code = some e.code
  message : event.message = Event.clamp e.message
  span : event.span = some e.span
  position : event.context.lookup "position" = some e.span.start.display

namespace Recorder

variable {r : Recorder}

theorem marked_cases (r : Recorder) (e : Event) :
    r.marked e [] = e ∨ ∃ file, r.marked e [] = e.set "file" file := by
  unfold marked
  dsimp only
  split
  · exact .inr ⟨_, rfl⟩
  · exact .inl rfl

theorem isError_marked (r : Recorder) (e : Event) : (r.marked e []).isError = e.isError := by
  rcases r.marked_cases e with hm | ⟨file, hm⟩
  · rw [hm]
  · rw [hm]
    rfl

/-- The file that an event is marked with takes nothing from what the event reports. -/
theorem reportedBy_marked [Limits] (r : Recorder) (e : LexError) :
    e.ReportedBy (r.marked e.event []) := by
  have hposition : e.event.context.lookup "position" = some e.span.start.display :=
    Context.lookup_set _ _ _
  rcases r.marked_cases e.event with hm | ⟨file, hm⟩
  · rw [hm]
    exact ⟨rfl, rfl, rfl, rfl, hposition⟩
  · rw [hm]
    refine ⟨rfl, rfl, rfl, rfl, ?_⟩
    rw [← hposition]
    exact Context.lookup_set_of_ne (by decide) _ _

/-- A recorder that admits every level records all events. -/
theorem events_emitAll (h : ∀ level, r.admits level = true) (es : List Event) :
    (r.emitAll es).events.toList = r.events.toList ++ es.map fun e => r.marked e [] := by
  induction es generalizing r with
  | nil => exact (List.append_nil _).symm
  | cons e es ih =>
      let next : Recorder := { r with events := r.events.push (r.marked e []) }
      have hemit : r.emit e = next := if_pos (h e.level)
      calc (r.emitAll (e :: es)).events.toList
          = (next.emitAll es).events.toList := by rw [emitAll, List.foldl_cons, hemit, emitAll]
        _ = next.events.toList ++ es.map fun e => r.marked e [] := ih (r := next) h
        _ = r.events.toList ++ (e :: es).map fun e => r.marked e [] := by
            rw [Array.toList_push, List.append_assoc, List.map_cons, List.singleton_append]

end Recorder

/-- **A lexer that fails logs its error once.**  Whatever calls are made on it, a recorder that
admits every level sees no error as long as no call has returned one; from the first one on it has
seen one error, and this reports the one returned first. -/
theorem Lexer.error_logged_once [Limits] (source : String) (p : Preferences) (calls : List Call)
    {log : Recorder} (h : ∀ level, log.admits level = true) :
    ∃ recorded, (log.emitAll ((ofSource source p).after calls).journal.toList).events.toList =
        log.events.toList ++ recorded ∧
      ((∀ r ∈ (ofSource source p).replies calls, r.error? = none) →
        recorded.filter Event.isError = []) ∧
      ∀ e, ((ofSource source p).replies calls).findSome? Reply.error? = some e →
        ∃ event, recorded.filter Event.isError = [event] ∧ e.ReportedBy event := by
  have hmark : Event.isError ∘ (fun e => log.marked e []) = Event.isError :=
    funext log.isError_marked
  obtain ⟨herror, hstart⟩ := stops_after .start (spent_ofSource source p) calls
  have hlogged : ((ofSource source p).after calls).Logged := hstart rfl
  have herrors : (((ofSource source p).after calls).journal.toList.map
      fun e => log.marked e []).filter Event.isError =
        ((((ofSource source p).replies calls).findSome? Reply.error?).map
          fun e => log.marked e.event []).toList := by
    calc _ = ((ofSource source p).after calls).errorLog.map fun e => log.marked e [] := by
            rw [List.filter_map, hmark, errorLog]
      _ = _ := by
            rw [hlogged, herror]
            cases ((ofSource source p).replies calls).findSome? Reply.error? <;> rfl
  refine ⟨_, Recorder.events_emitAll h _, ?_, ?_⟩
  · intro hnone
    rw [herrors, List.findSome?_eq_none_iff.mpr hnone]
    rfl
  · intro e he
    rw [herrors, he]
    exact ⟨log.marked e.event [], rfl, log.reportedBy_marked e⟩

/-- The text before a raw block is handed out between two failures, and the error is logged once. -/
theorem Lexer.error_logged_rawOpener :
    (∀ level, Recorder.admits ⟨some .debug, true, some "page.blade", #[]⟩ level = true) ∧
      ∃ recorded event, (Recorder.emitAll ⟨some .debug, true, some "page.blade", #[]⟩
          ((ofSource "x@js(\x7d" {}).after [.next, .next, .collect]).journal.toList).events.toList =
            recorded ∧
        recorded.filter Event.isError = [event] ∧
        LexError.ReportedBy ⟨.bracketMismatch ')' '}', .point ⟨5, 1, 6⟩, "x@js(\x7d"⟩ event := by
  have hadmits : ∀ level,
      Recorder.admits ⟨some .debug, true, some "page.blade", #[]⟩ level = true := by
    intro level
    cases level <;> rfl
  obtain ⟨l', hcall, -⟩ := call_next_rawOpener
  have hfirst : ((ofSource "x@js(\x7d" {}).replies [.next, .next, .collect]).findSome?
      Reply.error? = some ⟨.bracketMismatch ')' '}', .point ⟨5, 1, 6⟩, "x@js(\x7d"⟩ := by
    rw [after, List.foldl_nil] at hcall
    rw [replies, hcall]
    rfl
  obtain ⟨recorded, hrecorded, -, herrors⟩ :=
    error_logged_once "x@js(\x7d" {} [.next, .next, .collect] hadmits
  obtain ⟨event, hevent, hreported⟩ := herrors _ hfirst
  exact ⟨hadmits, recorded, event, hrecorded, hevent, hreported⟩

end Blade
