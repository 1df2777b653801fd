import Blade.Expression
import Blade.Lexer.Read
import Blade.Lexer.State

/-!
# Lexer — Step

One step of the lexer.  At the end of input a step finishes it; anywhere else it reads one character
of text, or one whole comment, output expression, directive or escape, or it fails.

* `advances_step`: before the end of input, a step that does not fail leaves less to read.
* `finished_step`: at the end of input, a step that does not fail finishes the lexer.
-/

namespace Blade.Lexer

/-- Reads one character of text. -/
def lexText (l : Lexer) (c : Char) : Lexer :=
  { l with text := l.text.push c, cursor := l.cursor.skip 1 }

section
variable [Limits]

/-- Reads a comment, whose four opening characters are next. -/
def lexComment (l : Lexer) : Lexer :=
  let start := l.cursor.position
  match (l.cursor.skip 4).readUntil ['-', '-', '}', '}'] .comment start l.preferences.strict with
  | .error e => l.fail e
  | .ok (value, cursor) => ({ l with cursor }.flushText start).emit (.comment value)

/-- The number of characters that open an output expression. -/
def openerLength (escaped : Bool) : Nat :=
  if escaped then 2 else 3

/-- The characters that close an output expression. -/
def terminator (escaped : Bool) : List Char :=
  if escaped then ['}', '}'] else ['!', '!', '}']

/-- Reads an output expression, whose opening characters are next. -/
def lexData (l : Lexer) (escaped : Bool) : Lexer :=
  let start := l.cursor.position
  let construct := if escaped then Construct.escapedData else Construct.unescapedData
  match (l.cursor.skip (openerLength escaped)).readUntil (terminator escaped) construct start
      l.preferences.strict with
  | .error e => l.fail e
  | .ok (interior, cursor) =>
      let expression := Expression.parse interior
      ({ l with cursor }.flushText start).emit (.data escaped expression.value expression.filters)

/-- Reads an `@` that no letter follows.  In a template it escapes the characters up to the next
blank one, which become text without it; in a raw block it is text itself. -/
def lexEscape (l : Lexer) : Lexer :=
  let cursor := l.cursor.skip 1
  if l.inRaw then { l with text := l.text.push '@', cursor }
  else
    let escaped := cursor.rest.takeWhile (fun c => !Text.isBlank c)
    { l with text := l.text ++ String.ofList escaped, cursor := cursor.skip escaped.length }

/-- Ends a raw block at the cursor: its body becomes a token, or text when it is transparent. -/
def closeRaw (l : Lexer) (block : RawBlock) : Lexer :=
  let l := { l with mode := .template }
  if l.preferences.isTransparent block.name then l.flushText l.cursor.position
  else { l.emit (.rawFunction block.name block.args l.text) with text := "" }

/-- Whether a character may stand between the name of a raw directive and its argument list, which
has to be on the same line. -/
def isInlineBlank (c : Char) : Bool :=
  c == ' ' || c == '\t'

/-- The event logged when a raw block is opened. -/
def rawOpened (name : String) (start : Position) : Event :=
  ((Event.debug "Entering raw block").set "name" name).set "position" start.display

/-- The lexer with the bracket nesting of an argument list noted, if there is one. -/
def noteList (l : Lexer) : Option ArgumentList → Lexer
  | some list => { l with metrics := l.metrics.noteDepth list.maxDepth }
  | none => l

/-- Opens a raw block; its `@` stands at `start` and its name ends at `after`. -/
def openRaw (l : Lexer) (name : String) (start : Position) (after : Cursor) : Lexer :=
  let l := l.flushText start
  match after.readArguments isInlineBlank start l.preferences.strict with
  | .error e => l.fail e
  | .ok (list, cursor) =>
      { l.noteList list with
        cursor
        mode := .raw ⟨name, list.map ArgumentList.args, start⟩
        journal := l.journal.push (rawOpened name start) }

/-- Reads the rest of a directive; its `@` stands at `start` and its name ends at `after`. -/
def lexFunction (l : Lexer) (name : String) (start : Position) (after : Cursor) : Lexer :=
  match after.readArguments Text.isBlank start l.preferences.strict with
  | .error e => l.fail e
  | .ok (list, cursor) =>
      (({ l with cursor }.noteList list).flushText start).emit
        (.function name (list.map ArgumentList.args))

/-- Reads what an `@` starts: an escape, a directive, or in a raw block its end or more of its
body. -/
def lexAt (l : Lexer) : Lexer :=
  let start := l.cursor.position
  let letters := (l.cursor.skip 1).rest.takeWhile Text.isAsciiLetter
  if letters.isEmpty then l.lexEscape
  else
    let name := String.ofList letters
    let cursor := l.cursor.skip (letters.length + 1)
    match l.mode with
    | .raw block =>
        if name = "end" ++ block.name then { l with cursor }.closeRaw block
        else { l with text := l.text.push '@' ++ name, cursor }
    | .template =>
        if l.preferences.isRawFunction name then l.openRaw name start cursor
        else l.lexFunction name start cursor

/-- Closes what is open at the end of input, or fails in strict mode when a raw block is. -/
def finish (l : Lexer) : Lexer :=
  let stop := l.cursor.position
  match l.mode with
  | .raw block =>
      if l.preferences.strict then
        l.fail (.unterminated (.rawBlock block.name) block.openedAt l.cursor)
      else { (l.closeRaw block).flushText stop with finished := some stop }
  | .template => { l.flushText stop with finished := some stop }

/-- One step of the lexer. -/
def step (l : Lexer) : Lexer :=
  match l.cursor.rest with
  | [] => l.finish
  | c :: rest =>
      if l.inRaw && c != '@' then l.lexText c
      else
        match c, rest with
        | '{', '!' :: '!' :: _ => l.lexData false
        | '{', '{' :: '-' :: '-' :: _ => l.lexComment
        | '{', '{' :: _ => l.lexData true
        | '@', _ => l.lexAt
        | c, _ => l.lexText c

end

/-! ### A step leaves less to read -/

section Fields
variable (l : Lexer) (block : RawBlock) (list : Option ArgumentList)

@[simp] theorem cursor_closeRaw : (l.closeRaw block).cursor = l.cursor := by
  simp only [closeRaw]; split <;> simp

@[simp] theorem finished_closeRaw : (l.closeRaw block).finished = l.finished := by
  simp only [closeRaw]; split <;> simp

@[simp] theorem cursor_noteList : (l.noteList list).cursor = l.cursor := by
  cases list <;> rfl

@[simp] theorem finished_noteList : (l.noteList list).finished = l.finished := by
  cases list <;> rfl

end Fields

/-- `l` has read something and is not finished by it, or it has failed. -/
def Advances (l next : Lexer) : Prop :=
  next.error = none → next.cursor.rest.length < l.cursor.rest.length ∧ next.finished = l.finished

theorem Advances.fail [Limits] (l next : Lexer) (e : LexError) : Advances l (next.fail e) :=
  fun h => by simp at h

theorem advances_lexText {l : Lexer} (h : l.cursor.rest ≠ []) (c : Char) :
    Advances l (l.lexText c) := by
  intro _
  have := List.length_pos_iff.mpr h
  refine ⟨?_, rfl⟩
  simp only [lexText, Cursor.rest_skip, List.length_drop]
  omega

theorem advances_lexComment [Limits] {l : Lexer} (h : l.cursor.rest ≠ []) :
    Advances l l.lexComment := by
  have hpos := List.length_pos_iff.mpr h
  simp only [lexComment]
  split
  · exact .fail _ _ _
  · next hread =>
      intro _
      have := Cursor.length_rest_readUntil hread
      simp at this ⊢
      omega

theorem advances_lexData [Limits] {l : Lexer} (h : l.cursor.rest ≠ []) (escaped : Bool) :
    Advances l (l.lexData escaped) := by
  have hpos := List.length_pos_iff.mpr h
  simp only [lexData]
  split
  · exact .fail _ _ _
  · next hread =>
      intro _
      have := Cursor.length_rest_readUntil hread
      have : 0 < openerLength escaped := by unfold openerLength; split <;> decide
      simp at *
      omega

theorem advances_lexEscape {l : Lexer} (h : l.cursor.rest ≠ []) : Advances l l.lexEscape := by
  have hpos := List.length_pos_iff.mpr h
  intro _
  simp only [lexEscape]
  split <;> simp <;> omega

variable [Limits]

theorem advances_openRaw {l : Lexer} (h : l.cursor.rest ≠ []) (name : String) (start : Position)
    (n : Nat) : Advances l (l.openRaw name start (l.cursor.skip (n + 1))) := by
  have hpos := List.length_pos_iff.mpr h
  simp only [openRaw]
  split
  · exact .fail _ _ _
  · next hread =>
      intro _
      have := Cursor.length_rest_readArguments hread
      simp at this ⊢
      omega

theorem advances_lexFunction {l : Lexer} (h : l.cursor.rest ≠ []) (name : String)
    (start : Position) (n : Nat) :
    Advances l (l.lexFunction name start (l.cursor.skip (n + 1))) := by
  have hpos := List.length_pos_iff.mpr h
  simp only [lexFunction]
  split
  · exact .fail _ _ _
  · next hread =>
      intro _
      have := Cursor.length_rest_readArguments hread
      simp at this ⊢
      omega

theorem advances_lexAt {l : Lexer} (h : l.cursor.rest ≠ []) : Advances l l.lexAt := by
  have hpos := List.length_pos_iff.mpr h
  simp only [lexAt]
  split
  · exact advances_lexEscape h
  · split
    · split
      · intro _; simp; omega
      · intro _; simp; omega
    · split
      · exact advances_openRaw h _ _ _
      · exact advances_lexFunction h _ _ _

/-- A step that does not fail leaves less to read, and finishes nothing, unless the input has
ended. -/
theorem advances_step {l : Lexer} (h : l.cursor.rest ≠ []) : Advances l l.step := by
  unfold step
  split
  · next e => exact absurd e h
  · split
    · exact advances_lexText h _
    · split
      · exact advances_lexData h _
      · exact advances_lexComment h
      · exact advances_lexData h _
      · exact advances_lexAt h
      · exact advances_lexText h _

/-- A step at the end of input finishes it or fails. -/
theorem finished_step {l : Lexer} (h : l.cursor.rest = []) (he : l.step.error = none) :
    l.step.finished.isSome ∧ l.step.cursor.rest = [] := by
  unfold step at he ⊢
  split at he
  · simp only [finish] at he ⊢
    split at he
    · split at he
      · simp at he
      · next hs => simp [hs, h]
    · simp [h]
  · next e => rw [h] at e; cases e

end Blade.Lexer
