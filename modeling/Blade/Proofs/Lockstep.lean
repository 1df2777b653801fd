import Blade.Proofs.Calls

/-!
# Proofs — Lockstep

Changes of the preferences and of the metrics that lexing does not notice.

A lexer asks little of its preferences: whether it is to be strict, which names open a raw block and
which of these is transparent, and how a token is counted.  Where a change keeps the answers
(`Neutral`), it may be made before the lexer is used or after: the lexer goes through the same
states but for what is changed, and replies the same to every call.

* `Neutral.step`: a step commutes with the change.
* `Neutral.call`: so does a call, and its reply is the same.
* `Neutral.replies`, `Neutral.after`: so do any number of calls.
-/

namespace Blade

/-- A change of the preferences and of the metrics that keeps all that lexing asks of them. -/
structure Neutral (g : Preferences → Preferences) (k : Metrics → Metrics) : Prop where
  strict (p : Preferences) : (g p).strict = p.strict
  isTransparent (p : Preferences) (name : String) :
    (g p).isTransparent name = p.isTransparent name
  /-- Only names that a directive can have are asked for. -/
  isRawFunction (p : Preferences) {name : String} :
    Preferences.isDirectiveName name = true → (g p).isRawFunction name = p.isRawFunction name
  count (p : Preferences) (m : Metrics) (token : Token) :
    k (m.count p.detailedMetrics token) = (k m).count (g p).detailedMetrics token
  noteDepth (m : Metrics) (depth : Nat) : k (m.noteDepth depth) = (k m).noteDepth depth

/-- The lexer with its preferences and its metrics changed. -/
def Lexer.map (g : Preferences → Preferences) (k : Metrics → Metrics) (l : Lexer) : Lexer :=
  { l with preferences := g l.preferences, metrics := k l.metrics }

/-- Letters read behind an `@` are a name that a directive can have. -/
theorem isDirectiveName_takeWhile {cs : List Char}
    (hne : ¬ (cs.takeWhile Text.isAsciiLetter).isEmpty = true) :
    Preferences.isDirectiveName (String.ofList (cs.takeWhile Text.isAsciiLetter)) = true := by
  rw [isDirectiveName_iff, String.toList_ofList]
  exact ⟨by simpa using hne, List.all_eq_true.mp List.all_takeWhile⟩

namespace Neutral

variable {g : Preferences → Preferences} {k : Metrics → Metrics} {l l' m : Lexer}

/-! ### What an operation reads -/

section Reads
variable (g k) (l : Lexer)

-- Proved by a tactic: `simp` rewrites the test of an `if` together with its decision only by a
-- lemma that it does not take for a definitional one.

@[simp] theorem cursor_map : (l.map g k).cursor = l.cursor := by rfl

@[simp] theorem mode_map : (l.map g k).mode = l.mode := by rfl

@[simp] theorem text_map : (l.map g k).text = l.text := by rfl

@[simp] theorem peeked_map : (l.map g k).peeked = l.peeked := by rfl

@[simp] theorem inRaw_map : (l.map g k).inRaw = l.inRaw := by rfl

end Reads

theorem lexEscape (l : Lexer) : l.lexEscape.map g k = (l.map g k).lexEscape := by
  simp only [Lexer.lexEscape, inRaw_map]
  split <;> rfl

theorem idle (h : l.Idle) : (l.map g k).Idle := ⟨h.queue, h.error, h.finished⟩

variable (hn : Neutral g k)
include hn

theorem strict_map (l : Lexer) : (l.map g k).preferences.strict = l.preferences.strict :=
  hn.strict l.preferences

theorem isTransparent_map (l : Lexer) (name : String) :
    (l.map g k).preferences.isTransparent name = l.preferences.isTransparent name :=
  hn.isTransparent l.preferences name

theorem isRawFunction_map (l : Lexer) {name : String}
    (hname : Preferences.isDirectiveName name = true) :
    (l.map g k).preferences.isRawFunction name = l.preferences.isRawFunction name :=
  hn.isRawFunction l.preferences hname

/-! ### One operation -/

theorem emitTo (l : Lexer) (stop : Position) (token : Token) :
    (l.emitTo stop token).map g k = (l.map g k).emitTo stop token := by
  simp only [Lexer.emitTo, Lexer.map, hn.count]

theorem emit (l : Lexer) (token : Token) : (l.emit token).map g k = (l.map g k).emit token :=
  hn.emitTo l l.cursor.position token

theorem flushText (l : Lexer) (stop : Position) :
    (l.flushText stop).map g k = (l.map g k).flushText stop := by
  unfold Lexer.flushText
  rw [text_map]
  split
  · rfl
  · exact congrArg (fun l : Lexer => { l with text := "" }) (hn.emitTo l stop _)

theorem noteList (l : Lexer) (list : Option ArgumentList) :
    (l.noteList list).map g k = (l.map g k).noteList list := by
  cases list with
  | none => rfl
  | some list => simp only [Lexer.noteList, Lexer.map, hn.noteDepth]

theorem closeRaw (l : Lexer) (block : RawBlock) :
    (l.closeRaw block).map g k = (l.map g k).closeRaw block := by
  simp only [Lexer.closeRaw, hn.isTransparent_map]
  split
  · exact hn.flushText { l with mode := .template } l.cursor.position
  · have hemit := hn.emit { l with mode := .template } (.rawFunction block.name block.args l.text)
    exact congrArg (fun l : Lexer => { l with text := "" }) hemit

variable [Limits]

theorem lexComment (l : Lexer) : l.lexComment.map g k = (l.map g k).lexComment := by
  simp only [Lexer.lexComment, cursor_map, hn.strict_map]
  split
  · rfl
  · rw [hn.emit, hn.flushText]
    rfl

theorem lexData (l : Lexer) (escaped : Bool) :
    (l.lexData escaped).map g k = (l.map g k).lexData escaped := by
  simp only [Lexer.lexData, cursor_map, hn.strict_map]
  split
  · rfl
  · rw [hn.emit, hn.flushText]
    rfl

theorem openRaw (l : Lexer) (name : String) (start : Position) (after : Cursor) :
    (l.openRaw name start after).map g k = (l.map g k).openRaw name start after := by
  simp only [Lexer.openRaw, ← hn.flushText, hn.strict_map]
  split
  · rfl
  · rw [← hn.noteList]
    rfl

theorem lexFunction (l : Lexer) (name : String) (start : Position) (after : Cursor) :
    (l.lexFunction name start after).map g k = (l.map g k).lexFunction name start after := by
  simp only [Lexer.lexFunction, hn.strict_map]
  split
  · rfl
  · rw [hn.emit, hn.flushText, hn.noteList]
    rfl

theorem lexAt (l : Lexer) : l.lexAt.map g k = (l.map g k).lexAt := by
  simp only [Lexer.lexAt, cursor_map, mode_map]
  split
  · exact lexEscape l
  · next hne =>
      split
      · split
        · exact hn.closeRaw _ _
        · rfl
      · rw [hn.isRawFunction_map l (isDirectiveName_takeWhile hne)]
        split
        · exact hn.openRaw l _ _ _
        · exact hn.lexFunction l _ _ _

theorem finish (l : Lexer) : l.finish.map g k = (l.map g k).finish := by
  simp only [Lexer.finish, cursor_map, mode_map, hn.strict_map]
  split
  · split
    · rfl
    · rw [← hn.closeRaw, ← hn.flushText]
      rfl
  · rw [← hn.flushText]
    rfl

/-- **A step commutes with the change.** -/
theorem step (l : Lexer) : l.step.map g k = (l.map g k).step := by
  simp only [Lexer.step, cursor_map, inRaw_map]
  split
  · exact hn.finish l
  · split
    · rfl
    · split
      · exact hn.lexData l false
      · exact hn.lexComment l
      · exact hn.lexData l true
      · exact hn.lexAt l
      · rfl

/-! ### Calls -/

theorem advance (ha : l.Advance m) : (l.map g k).Advance (m.map g k) := by
  induction ha with
  | refl => exact .refl
  | @step l l' hi he _ ih =>
      rw [hn.step] at ih
      have he' : (l.map g k).step.error = none := by
        rw [← hn.step]
        exact he
      exact .step (idle hi) he' ih

theorem gives {reply : Except LexError LocatedToken} (hg : l.Gives reply l') :
    (l.map g k).Gives reply (l'.map g k) := by
  cases hg with
  | queued hq => exact .queued hq
  | failed hq he => exact .failed hq he
  | finished hq he hf => exact .finished hq he hf
  | @fails e hi he =>
      have he' : (l.map g k).step.error = some e := by
        rw [← hn.step]
        exact he
      rw [hn.step]
      exact .fails (idle hi) he'

theorem produce (l : Lexer) :
    (l.map g k).produce = (l.produce.1, l.produce.2.map g k) := by
  obtain ⟨m, ha, hg⟩ := Lexer.produce_cases l
  exact Lexer.produce_of_gives (hn.advance ha) (hn.gives hg)

theorem next (l : Lexer) : (l.map g k).next = (l.next.1, l.next.2.map g k) := by
  cases hp : l.peeked with
  | some token =>
      have hp' : (l.map g k).peeked = some token := hp
      rw [Lexer.next_of_peeked hp, Lexer.next_of_peeked hp']
      rfl
  | none =>
      have hp' : (l.map g k).peeked = none := hp
      rw [Lexer.next_of_not_peeked hp, Lexer.next_of_not_peeked hp', hn.produce]

theorem peek (l : Lexer) : (l.map g k).peek = (l.peek.1, l.peek.2.map g k) := by
  simp only [Lexer.peek, peeked_map, hn.produce]
  cases l.peeked with
  | some token => rfl
  | none =>
      rcases l.produce with ⟨e | token, l'⟩
      · rfl
      · rfl

theorem collectFrom (collected : Array LocatedToken) (l : Lexer) (n : Nat) :
    (l.map g k).collectFrom collected n =
      ((l.collectFrom collected n).1, (l.collectFrom collected n).2.map g k) := by
  induction n generalizing collected l with
  | zero =>
      rw [Lexer.collectFrom, Lexer.collectFrom, hn.next]
      rcases l.next with ⟨e | token, l'⟩
      · rfl
      · dsimp only
        split <;> rfl
  | succ n ih =>
      rw [Lexer.collectFrom, Lexer.collectFrom, hn.next]
      rcases l.next with ⟨e | token, l'⟩
      · rfl
      · dsimp only
        split
        · rfl
        · exact ih _ l'

/-- **A call replies the same behind the change**, and commutes with it. -/
theorem call (l : Lexer) (c : Call) :
    (l.map g k).call c = ((l.call c).1, (l.call c).2.map g k) := by
  cases c with
  | peek => rw [Lexer.call, hn.peek, Lexer.call]
  | next => rw [Lexer.call, hn.next, Lexer.call]
  | collect => rw [Lexer.call, Lexer.collect, hn.collectFrom, Lexer.call, Lexer.collect]

theorem replies (l : Lexer) (calls : List Call) :
    (l.map g k).replies calls = l.replies calls := by
  induction calls generalizing l with
  | nil => rfl
  | cons c calls ih => rw [Lexer.replies, Lexer.replies, hn.call, ih]

theorem after (l : Lexer) (calls : List Call) :
    (l.map g k).after calls = (l.after calls).map g k := by
  induction calls generalizing l with
  | nil => rfl
  | cons c calls ih =>
      have hcall := congrArg Prod.snd (hn.call l c)
      rw [Lexer.after, List.foldl_cons, hcall]
      exact ih _

end Neutral

end Blade
