import Blade.Limits.Development
import Blade.Template.Tokenize

/-!
# Proofs — Scopes

Nested calls on files, and the file each event is recorded under.

`Work` is what a program does that logs: a tree of calls and events.  A scope of a tree is the body
of a call, or the whole tree; the file of a scope is that of its call, or the one the program starts
with.

* `Work.stacked` gives each event the file of its scope, as a stack of files does; `Work.seen` gives
  it the file the recorder holds when it is emitted.  A call clears that file when it returns, so
  the two part ways behind an inner call.
* `run_events`: a run records what was seen.
* `seen_eq_stacked_iff`: this is the scope's file for each event exactly when no scope of a file has
  an event behind a call (`Work.Tidy`).
* `calls_restore_iff`: each call leaves the file it found exactly when no scope of a file has a call
  (`Work.Flat`).
* `recorded_under_file`: both together.
* `tokenize_marks`: lexing a template is one call that makes no other, so its events carry the
  template's path.
-/

namespace Blade

/-! ### Trees of calls and events -/

/-- What a program does that logs: it emits events with more context, and makes calls that work on
a file. -/
inductive Work where
  | done
  | emit (e : Event) (pairs : List (String × String)) (rest : Work)
  | within (file : String) (body rest : Work)

/-- An event that is emitted with more context, under a file or none. -/
structure Emission where
  event : Event
  pairs : List (String × String)
  file : Option String
  deriving DecidableEq

namespace Work

/-- The recorder after some work. -/
def run : Work → Recorder → Recorder
  | done, r => r
  | emit e pairs rest, r => rest.run (r.emitWith e pairs)
  | within file body rest, r => rest.run (r.within file fun r => ((), body.run r)).2

/-- The recorder after a call on a file. -/
def call (file : String) (body : Work) (r : Recorder) : Recorder :=
  (within file body done).run r

/-- The files the recorder holds before and after each call, calls in the order they return. -/
def calls : Work → Recorder → List (Option String × Option String)
  | done, _ => []
  | emit e pairs rest, r => rest.calls (r.emitWith e pairs)
  | within file body rest, r =>
      body.calls (r.setFile file) ++ (r.file, (call file body r).file) ::
        rest.calls (call file body r)

/-- The events, each under the file of its scope. -/
def stacked : Work → Option String → List Emission
  | done, _ => []
  | emit e pairs rest, file => ⟨e, pairs, file⟩ :: rest.stacked file
  | within inner body rest, file => body.stacked (some inner) ++ rest.stacked file

/-- The events, each under the file the recorder holds: behind a call it holds none. -/
def seen : Work → Option String → List Emission
  | done, _ => []
  | emit e pairs rest, file => ⟨e, pairs, file⟩ :: rest.seen file
  | within inner body rest, _ => body.seen (some inner) ++ rest.seen none

/-- No event is emitted outside the calls. -/
def Silent : Work → Prop
  | done => True
  | emit _ _ _ => False
  | within _ _ rest => rest.Silent

/-- Where a scope has a file, no event follows a call. -/
def Tidy : Work → Option String → Prop
  | done, _ => True
  | emit _ _ rest, file => rest.Tidy file
  | within inner body rest, file =>
      body.Tidy (some inner) ∧ (file = none ∨ rest.Silent) ∧ rest.Tidy file

/-- Where a scope has a file, no call is made. -/
def Flat : Work → Option String → Prop
  | done, _ => True
  | emit _ _ rest, file => rest.Flat file
  | within inner body rest, file => file = none ∧ body.Flat (some inner) ∧ rest.Flat file

end Work

/-! ### Recorded events -/

/-- The event as it is recorded under a file. -/
def Event.under (e : Event) : Option String → Event
  | some file => e.set "file" file
  | none => e

/-- The event that is recorded. -/
def Emission.recorded (m : Emission) : Event :=
  (m.event.setAll m.pairs).under m.file

/-- What is recorded of some emissions: those of a level that is admitted. -/
def Recorder.records (r : Recorder) (ms : List Emission) : List Event :=
  (ms.filter fun m => r.admits m.event.level).map Emission.recorded

@[simp] theorem Context.lookup_set (key value : String) (context : Context) :
    (Context.set key value context).lookup key = some value := by
  fun_induction Context.set key value context with
  | case1 => simp
  | case2 => simp
  | case3 => simp
  | case4 k v rest _ hne ih => simp [List.lookup_cons, beq_eq_false_iff_ne.mpr hne, ih]

theorem Context.lookup_set_of_ne {key other : String} (hne : other ≠ key) (value : String)
    (context : Context) : (Context.set key value context).lookup other = context.lookup other := by
  fun_induction Context.set key value context with
  | case1 => simp [List.lookup_cons, beq_eq_false_iff_ne.mpr hne]
  | case2 => simp [List.lookup_cons, beq_eq_false_iff_ne.mpr hne]
  | case3 => simp [List.lookup_cons, beq_eq_false_iff_ne.mpr hne]
  | case4 k v rest _ _ ih => simp [List.lookup_cons, ih]

/-- An event that is recorded under a file carries it. -/
theorem Emission.lookup_recorded {m : Emission} {file : String} (h : m.file = some file) :
    m.recorded.context.lookup "file" = some file := by
  simp [recorded, h, Event.under, Event.set]

namespace Recorder

variable {r s : Recorder}

/-- Two recorders admit the same events and mark them in the same way. -/
def Like (r s : Recorder) : Prop :=
  r.minLevel = s.minLevel ∧ r.marksFile = s.marksFile

theorem Like.trans {t : Recorder} (h : Like r s) (h' : Like s t) : Like r t :=
  ⟨h.1.trans h'.1, h.2.trans h'.2⟩

theorem Like.records (h : Like r s) (ms : List Emission) : r.records ms = s.records ms := by
  simp only [Recorder.records, admits, h.1]

theorem records_append (r : Recorder) (ms ns : List Emission) :
    r.records (ms ++ ns) = r.records ms ++ r.records ns := by
  simp [records]

theorem marked_eq (h : r.marksFile = true) (e : Event) (pairs : List (String × String)) :
    r.marked e pairs = Emission.recorded ⟨e, pairs, r.file⟩ := by
  cases hf : r.file <;> simp [marked, h, hf, Emission.recorded, Event.under]

theorem like_emitWith (r : Recorder) (e : Event) (pairs : List (String × String)) :
    Like (r.emitWith e pairs) r := by
  unfold emitWith
  split <;> exact ⟨rfl, rfl⟩

@[simp] theorem file_emitWith (r : Recorder) (e : Event) (pairs : List (String × String)) :
    (r.emitWith e pairs).file = r.file := by
  unfold emitWith
  split <;> rfl

theorem events_emitWith (h : r.marksFile = true) (e : Event) (pairs : List (String × String)) :
    (r.emitWith e pairs).events.toList = r.events.toList ++ r.records [⟨e, pairs, r.file⟩] := by
  by_cases ha : r.admits e.level = true
  · simp [emitWith, records, ha, marked_eq h]
  · simp [emitWith, records, ha]

end Recorder

/-! ### What a run records -/

namespace Work

variable {r : Recorder} {w : Work} {file : Option String}

@[simp] theorem run_within (inner : String) (body rest : Work) (r : Recorder) :
    (within inner body rest).run r = rest.run (call inner body r) :=
  rfl

@[simp] theorem file_call (inner : String) (body : Work) (r : Recorder) :
    (call inner body r).file = none :=
  rfl

theorem like_run (w : Work) (r : Recorder) : Recorder.Like (w.run r) r := by
  induction w generalizing r with
  | done => exact ⟨rfl, rfl⟩
  | emit e pairs rest ih => exact (ih _).trans (r.like_emitWith e pairs)
  | within inner body rest ihb ihr =>
      have hcall : Recorder.Like (call inner body r) r := ihb (r.setFile inner)
      exact (ihr _).trans hcall

/-- **A run records what was seen**, in order, each event under the file the recorder held. -/
theorem run_events (w : Work) (r : Recorder) (h : r.marksFile = true) :
    (w.run r).events.toList = r.events.toList ++ r.records (w.seen r.file) := by
  induction w generalizing r with
  | done => simp [run, seen, Recorder.records]
  | emit e pairs rest ih =>
      have hl := r.like_emitWith e pairs
      calc ((emit e pairs rest).run r).events.toList
          = (r.emitWith e pairs).events.toList ++ r.records (rest.seen r.file) := by
            rw [run, ih _ (hl.2.trans h), hl.records, Recorder.file_emitWith]
        _ = r.events.toList ++ r.records ([⟨e, pairs, r.file⟩] ++ rest.seen r.file) := by
            rw [Recorder.events_emitWith h, List.append_assoc, ← Recorder.records_append]
  | within inner body rest ihb ihr =>
      have hl : Recorder.Like (call inner body r) r := like_run body (r.setFile inner)
      have hbody : (call inner body r).events.toList =
          r.events.toList ++ r.records (body.seen (some inner)) := ihb (r.setFile inner) h
      calc ((within inner body rest).run r).events.toList
          = (call inner body r).events.toList ++ r.records (rest.seen none) := by
            rw [run_within, ihr _ (hl.2.trans h), hl.records, file_call]
        _ = r.events.toList ++ r.records (body.seen (some inner) ++ rest.seen none) := by
            rw [hbody, List.append_assoc, ← Recorder.records_append]

/-- After a call the recorder holds no file. -/
theorem calls_clear (w : Work) (r : Recorder) : ∀ c ∈ w.calls r, c.2 = none := by
  induction w generalizing r with
  | done => nofun
  | emit _ _ rest ih => exact ih _
  | within inner body rest ihb ihr =>
      simp only [calls, List.mem_append, List.mem_cons]
      rintro c (hc | rfl | hc)
      · exact ihb _ c hc
      · rfl
      · exact ihr _ c hc

/-! ### When it is what a stack of files gives -/

theorem length_seen (w : Work) (file file' : Option String) :
    (w.seen file).length = (w.stacked file').length := by
  induction w generalizing file file' with
  | done => rfl
  | emit _ _ rest ih => simp [seen, stacked, ih file file']
  | within inner body rest ihb ihr => simp [seen, stacked, ihb _ (some inner), ihr none file']

/-- Without an event of its own a scope does not show its file. -/
theorem Silent.stacked (h : w.Silent) (file file' : Option String) :
    w.stacked file = w.stacked file' := by
  induction w with
  | done => rfl
  | emit => exact h.elim
  | within inner body rest _ ih => rw [Work.stacked, Work.stacked, ih h]

/-- With one, a recorder that holds no file gives it away. -/
theorem silent_of_seen_none {inner : String} (h : w.seen none = w.stacked (some inner)) :
    w.Silent := by
  induction w with
  | done => trivial
  | emit => exact nomatch congrArg Emission.file (List.head_eq_of_cons_eq h)
  | within _ body rest _ ih => exact ih (List.append_inj h (length_seen body _ _)).2

theorem Silent.tidy (h : w.Silent) (ht : w.Tidy none) (file : Option String) : w.Tidy file := by
  induction w with
  | done => trivial
  | emit => exact h.elim
  | within _ body rest _ ih => exact ⟨ht.1, .inr h, ih h ht.2.2⟩

theorem Tidy.none (h : w.Tidy file) : w.Tidy none := by
  induction w with
  | done => trivial
  | emit _ _ rest ih => exact ih h
  | within _ body rest _ ih => exact ⟨h.1, .inl rfl, ih h.2.2⟩

/-- **Each event sees the file of its scope** exactly when no scope of a file has an event behind a
call. -/
theorem seen_eq_stacked_iff (w : Work) (file : Option String) :
    w.seen file = w.stacked file ↔ w.Tidy file := by
  induction w generalizing file with
  | done => simp [seen, stacked, Tidy]
  | emit _ _ rest ih => simpa [seen, stacked, Tidy] using ih file
  | within inner body rest ihb ihr =>
      constructor
      · intro h
        obtain ⟨hbody, hrest⟩ := List.append_inj h (length_seen body _ _)
        cases file with
        | none => exact ⟨(ihb _).mp hbody, .inl rfl, (ihr _).mp hrest⟩
        | some file =>
            have hs : rest.Silent := silent_of_seen_none hrest
            have ht : rest.Tidy none := (ihr _).mp (hrest.trans (hs.stacked _ _))
            exact ⟨(ihb _).mp hbody, .inr hs, hs.tidy ht _⟩
      · rintro ⟨hbody, hfile, hrest⟩
        have hs : rest.stacked none = rest.stacked file := by
          rcases hfile with rfl | hs
          · rfl
          · exact hs.stacked _ _
        rw [seen, stacked, (ihb _).mpr hbody, (ihr _).mpr hrest.none, hs]

/-- **Each call leaves the file it found** exactly when no scope of a file has a call. -/
theorem calls_restore_iff (w : Work) (r : Recorder) :
    (∀ c ∈ w.calls r, c.2 = c.1) ↔ w.Flat r.file := by
  induction w generalizing r with
  | done => simp [calls, Flat]
  | emit e pairs rest ih =>
      rw [calls, Flat, ih, Recorder.file_emitWith]
  | within inner body rest ihb ihr =>
      rw [calls, Flat, List.forall_mem_append, List.forall_mem_cons, ihb, ihr, file_call]
      constructor
      · rintro ⟨hbody, hfile, hrest⟩
        have hfile : none = r.file := hfile
        exact ⟨hfile.symm, hbody, hfile ▸ hrest⟩
      · rintro ⟨hfile, hbody, hrest⟩
        exact ⟨hbody, hfile.symm, hfile ▸ hrest⟩

theorem Flat.tidy (h : w.Flat file) : w.Tidy file := by
  induction w generalizing file with
  | done => trivial
  | emit _ _ rest ih => exact ih h
  | within _ body rest ihb ihr => exact ⟨ihb h.2.1, .inl h.1, ihr h.2.2⟩

/-- **Files are scoped like a stack**: what is recorded is each event under the file of its scope,
and each call leaves the file it found. -/
structure Scoped (w : Work) (r : Recorder) : Prop where
  events : (w.run r).events.toList = r.events.toList ++ r.records (w.stacked r.file)
  calls : ∀ c ∈ w.calls r, c.2 = c.1

theorem scoped_iff (w : Work) (r : Recorder) (h : r.marksFile = true) :
    w.Scoped r ↔ w.Flat r.file := by
  constructor
  · intro hs
    exact (calls_restore_iff w r).mp hs.calls
  · intro hf
    refine ⟨?_, (calls_restore_iff w r).mpr hf⟩
    rw [run_events w r h, (seen_eq_stacked_iff w r.file).mpr hf.tidy]

/-- **The file an event is recorded under**, for any tree of calls and any recorder that marks
events.  An event is recorded under the file the recorder holds, and carries it; after a call this
is no file.  So events carry the files of their scopes exactly when no scope of a file has an event
behind a call, and files are scoped like a stack exactly when no scope of a file has a call. -/
theorem recorded_under_file (w : Work) (r : Recorder) (h : r.marksFile = true) :
    (w.run r).events.toList = r.events.toList ++ r.records (w.seen r.file) ∧
      (∀ m ∈ w.seen r.file, ∀ file, m.file = some file →
        m.recorded.context.lookup "file" = some file) ∧
      (∀ c ∈ w.calls r, c.2 = none) ∧
      (w.seen r.file = w.stacked r.file ↔ w.Tidy r.file) ∧
      (w.Scoped r ↔ w.Flat r.file) :=
  ⟨run_events w r h, fun _ _ _ hm => Emission.lookup_recorded hm, calls_clear w r,
    seen_eq_stacked_iff w r.file, scoped_iff w r h⟩

/-- Work on a file with an inner call: the event behind it is recorded without the file. -/
theorem recorded_behind_call :
    let w : Work := .within "a" (.within "b" .done (.emit (.info "m") [] .done)) .done
    let r : Recorder := { minLevel := some .debug, marksFile := true }
    r.marksFile = true ∧ (w.run r).events.toList = [.info "m"] ∧
      w.stacked r.file = [⟨.info "m", [], some "a"⟩] ∧ ¬ w.Scoped r := by
  intro w r
  obtain ⟨hrun, -, -, -, hs⟩ := recorded_under_file w r rfl
  refine ⟨rfl, hrun.trans rfl, rfl, fun h => ?_⟩
  have hflat : w.Flat none := hs.mp h
  exact nomatch hflat.2.1.1

/-! ### Lexing a template -/

/-- Events one after the other. -/
def ofEvents : List Event → Work
  | [] => done
  | e :: es => emit e [] (ofEvents es)

theorem run_ofEvents (es : List Event) (r : Recorder) : (ofEvents es).run r = r.emitAll es := by
  induction es generalizing r with
  | nil => rfl
  | cons e es ih => exact ih (r.emit e)

theorem file_of_mem_seen {m : Emission} {es : List Event} (hm : m ∈ (ofEvents es).seen file) :
    m.file = file := by
  induction es with
  | nil => cases hm
  | cons e es ih =>
      rcases List.mem_cons.mp hm with rfl | hm
      · rfl
      · exact ih hm

end Work

/-- **What is logged while a template is lexed carries the template's path.** -/
theorem Template.tokenize_marks [Limits] (t : Template) (p : Preferences) (elapsed : Nat)
    (log : Recorder) (h : log.marksFile = true) :
    ∃ es, (t.tokenize p elapsed log).2.events.toList = log.events.toList ++ es ∧
      ∀ e ∈ es, e.context.lookup "file" = some t.path := by
  let events := t.runEvents (t.lex p) elapsed
  have hrun : (t.tokenize p elapsed log).2 =
      (Work.within t.path (.ofEvents events) .done).run log := by
    show ((log.setFile t.path).emitAll events).clearFile = _
    rw [← Work.run_ofEvents]
    rfl
  refine ⟨_, by rw [hrun, Work.run_events _ _ h], fun e he => ?_⟩
  obtain ⟨m, hm, rfl⟩ := List.mem_map.mp he
  have hseen : m ∈ (Work.ofEvents events).seen (some t.path) := by
    simpa [Work.seen] using (List.mem_filter.mp hm).1
  exact Emission.lookup_recorded (Work.file_of_mem_seen hseen)

end Blade
