import Blade.Lexer.Step
import Blade.Proofs.Reading

/-!
# Proofs — Piece

The grammar of one step.  A lexer reads its source in pieces: one character of text, one escape, or
one whole comment, output expression or directive.  `Piece` says which characters are a piece in
front of which others, in a template or in the body of a raw block, and what a step makes of them
(`Effect`).

* `step_of_piece`: in front of a piece the lexer reads it (`perform`).
* `step_cases`: before the end of input, a step reads a piece or fails; when it fails, it leaves the
  lexer as it was, except that the opener of a raw block has flushed the text before it.
-/

namespace Blade

/-- What a step makes of the characters that it reads. -/
inductive Effect where
  /-- More text to hold back. -/
  | hold (value : List Char)
  /-- A token, and the argument list read for it. -/
  | token (token : Token) (list : Option ArgumentList)
  /-- A raw block is opened. -/
  | enter (name : List Char) (list : Option ArgumentList)
  /-- The open raw block ends. -/
  | leave

/-- `c` and what follows start a comment or an output expression. -/
def OpensBraces (c : Char) (after : List Char) : Prop :=
  c = '{' ∧ (['!', '!'] <+: after ∨ ['{'] <+: after)

/-- `name` is all of the letters in front of `after`, and there are some. -/
def NameBefore (name after : List Char) : Prop :=
  name ≠ [] ∧ (∀ c ∈ name, Text.isAsciiLetter c) ∧ StopsAt Text.isAsciiLetter after

/-- What opens an output expression. -/
def dataOpener (escaped : Bool) : List Char :=
  if escaped then ['{', '{'] else ['{', '!', '!']

/-- What opens a comment. -/
def commentOpener : List Char := ['{', '{', '-', '-']

/-- What closes a comment. -/
def commentTerminator : List Char := ['-', '-', '}', '}']

/-- The token of an output expression with a given inside. -/
def dataToken (escaped : Bool) (interior : List Char) : Token :=
  .data escaped (Expression.parse (String.ofList interior)).value
    (Expression.parse (String.ofList interior)).filters

/-- In front of `after`, `chunk` is a piece with an effect: in a template, or in the raw block with
a name. -/
inductive Piece [Limits] (p : Preferences) :
    Option String → List Char → List Char → Effect → Prop where
  | plain {c : Char} {after : List Char} :
      c ≠ '@' → ¬ OpensBraces c after → Piece p none [c] after (.hold [c])
  | escape {run after : List Char} :
      StopsAt Text.isAsciiLetter (run ++ after) → (∀ c ∈ run, !Text.isBlank c) →
        StopsAt (fun c => !Text.isBlank c) after → Piece p none ('@' :: run) after (.hold run)
  | comment {chunk after value : List Char} :
      Enclosed p.strict commentTerminator chunk after value →
        Piece p none (commentOpener ++ chunk) after (.token (.comment (String.ofList value)) none)
  | data {escaped : Bool} {chunk after interior : List Char} :
      Enclosed p.strict (Lexer.terminator escaped) chunk after interior →
        (escaped → ¬ ['-', '-'] <+: chunk ++ after) →
        Piece p none (dataOpener escaped ++ chunk) after (.token (dataToken escaped interior) none)
  | function {name chunk after : List Char} {list : Option ArgumentList} :
      NameBefore name (chunk ++ after) → p.isRawFunction (String.ofList name) = false →
        ListRead p.strict Text.isBlank chunk after list →
        Piece p none ('@' :: (name ++ chunk)) after
          (.token (.function (String.ofList name) (list.map ArgumentList.args)) list)
  | enter {name chunk after : List Char} {list : Option ArgumentList} :
      NameBefore name (chunk ++ after) → p.isRawFunction (String.ofList name) = true →
        ListRead p.strict Lexer.isInlineBlank chunk after list →
        Piece p none ('@' :: (name ++ chunk)) after (.enter name list)
  | body {block : String} {c : Char} {after : List Char} :
      c ≠ '@' → Piece p (some block) [c] after (.hold [c])
  | lone {block : String} {after : List Char} :
      StopsAt Text.isAsciiLetter after → Piece p (some block) ['@'] after (.hold ['@'])
  | other {block : String} {name after : List Char} :
      NameBefore name after → String.ofList name ≠ "end" ++ block →
        Piece p (some block) ('@' :: name) after (.hold ('@' :: name))
  | leave {block : String} {name after : List Char} :
      NameBefore name after → String.ofList name = "end" ++ block →
        Piece p (some block) ('@' :: name) after .leave

theorem terminator_ne_nil (escaped : Bool) : Lexer.terminator escaped ≠ [] := by
  cases escaped <;> decide

theorem NameBefore.append {name after more : List Char} (h : NameBefore name after)
    (hm : after = [] → StopsAt Text.isAsciiLetter more) : NameBefore name (after ++ more) :=
  ⟨h.1, h.2.1, h.2.2.append hm⟩

theorem NameBefore.takeWhile {name after : List Char} (h : NameBefore name after) :
    (name ++ after).takeWhile Text.isAsciiLetter = name :=
  takeWhile_append_stop h.2.1 h.2.2

section
variable [Limits]

/-- A piece is not empty. -/
theorem Piece.ne_nil {p : Preferences} {block : Option String} {chunk after : List Char}
    {e : Effect} (h : Piece p block chunk after e) : chunk ≠ [] := by
  cases h with
  | plain | escape | function | enter | body | lone | other | leave => simp
  | comment => simp [commentOpener]
  | @data escaped => cases escaped <;> simp [dataOpener]

/-- Tokens are read in a template only. -/
theorem Piece.block_of_token {p : Preferences} {block : Option String} {chunk after : List Char}
    {token : Token} {list : Option ArgumentList}
    (h : Piece p block chunk after (.token token list)) : block = none := by
  cases h <;> rfl

/-- A raw block is opened in a template only. -/
theorem Piece.block_of_enter {p : Preferences} {block : Option String}
    {chunk after name : List Char} {list : Option ArgumentList}
    (h : Piece p block chunk after (.enter name list)) : block = none := by
  cases h; rfl

/-- Where no raw block is transparent, none is opened. -/
theorem Piece.not_transparent_of_enter {p : Preferences} {block : Option String}
    {chunk after name : List Char} {list : Option ArgumentList}
    (ht : p.transparent ∉ p.rawFunctions) (h : Piece p block chunk after (.enter name list)) :
    p.isTransparent (String.ofList name) = false := by
  cases h with
  | enter _ hraw _ =>
      rw [Preferences.isTransparent, ← Bool.not_eq_true, beq_iff_eq]
      intro heq
      rw [Preferences.isRawFunction, List.contains_iff_mem, ← heq] at hraw
      exact ht hraw

/-- A token or the opener of a raw block starts with no blank character. -/
theorem Piece.not_stopsAt {p : Preferences} {chunk after : List Char} {e : Effect}
    (hp : Piece p none chunk after e) (he : ∀ value, e ≠ .hold value) :
    ¬ StopsAt (fun c => !Text.isBlank c) (chunk ++ after) := by
  cases hp with
  | plain => exact absurd rfl (he _)
  | escape => exact absurd rfl (he _)
  | comment => simp [commentOpener, Text.isBlank]
  | @data escaped => cases escaped <;> simp [dataOpener, Text.isBlank]
  | function => simp [Text.isBlank]
  | enter => simp [Text.isBlank]

/-- Only an `@` that escapes nothing holds back no text. -/
theorem Piece.hold_nil {p : Preferences} {block : Option String} {chunk after : List Char}
    (hp : Piece p block chunk after (.hold [])) :
    block = none ∧ chunk = ['@'] ∧ StopsAt (fun c => !Text.isBlank c) after := by
  cases hp with
  | escape _ _ hstop => exact ⟨rfl, rfl, hstop⟩

theorem Piece.length_hold_le {p : Preferences} {block : Option String}
    {chunk after value : List Char} (hp : Piece p block chunk after (.hold value)) :
    value.length ≤ chunk.length := by
  cases hp <;> simp

end

namespace Lexer

/-- The name of the raw block that is open. -/
def openName? (l : Lexer) : Option String :=
  match l.mode with
  | .raw block => some block.name
  | .template => none

/-- The lexer past `n` characters that are a piece with an effect. -/
def perform [Limits] (l : Lexer) (n : Nat) : Effect → Lexer
  | .hold value => { l with text := l.text ++ String.ofList value, cursor := l.cursor.skip n }
  | .token token list =>
      (({ l with cursor := l.cursor.skip n }.noteList list).flushText l.cursor.position).emit token
  | .enter name list =>
      { (l.flushText l.cursor.position).noteList list with
        cursor := l.cursor.skip n
        mode := .raw ⟨String.ofList name, list.map ArgumentList.args, l.cursor.position⟩
        journal := (l.flushText l.cursor.position).journal.push
          (rawOpened (String.ofList name) l.cursor.position) }
  | .leave =>
      match l.mode with
      | .raw block => { l with cursor := l.cursor.skip n }.closeRaw block
      | .template => l

/-- The next thing to read is the opener of a raw block. -/
def AtRawOpener (l : Lexer) : Prop :=
  l.mode = .template ∧ ∃ name after, l.cursor.rest = '@' :: (name ++ after) ∧
    NameBefore name after ∧ l.preferences.isRawFunction (String.ofList name) = true

@[simp] theorem preferences_flushText (l : Lexer) (stop : Position) :
    (l.flushText stop).preferences = l.preferences := by
  unfold flushText; split <;> rfl

/-! ### What a step sees -/

variable {l : Lexer} {c : Char} {rest : List Char}

theorem mode_of_openName?_none (h : l.openName? = none) : l.mode = .template := by
  cases hm : l.mode with
  | template => rfl
  | raw block => simp [openName?, hm] at h

theorem mode_of_openName?_some {name : String} (h : l.openName? = some name) :
    ∃ block, l.mode = .raw block ∧ block.name = name := by
  cases hm : l.mode with
  | template => simp [openName?, hm] at h
  | raw block => exact ⟨block, rfl, by simpa [openName?, hm] using h⟩

theorem length_dataOpener (escaped : Bool) :
    (dataOpener escaped).length = openerLength escaped := by
  cases escaped <;> rfl

variable [Limits]

theorem step_nil (h : l.cursor.rest = []) : l.step = l.finish := by
  simp only [step, h]

theorem step_at (h : l.cursor.rest = '@' :: rest) : l.step = l.lexAt := by
  simp [step, h]

theorem step_body {block : RawBlock} (hm : l.mode = .raw block) (h : l.cursor.rest = c :: rest)
    (hc : c ≠ '@') : l.step = l.lexText c := by
  simp [step, h, inRaw, hm, hc]

theorem step_unescaped (hm : l.mode = .template) (h : l.cursor.rest = '{' :: '!' :: '!' :: rest) :
    l.step = l.lexData false := by
  simp [step, h, inRaw, hm]

theorem step_comment (hm : l.mode = .template)
    (h : l.cursor.rest = '{' :: '{' :: '-' :: '-' :: rest) : l.step = l.lexComment := by
  simp [step, h, inRaw, hm]

theorem step_escaped (hm : l.mode = .template) (h : l.cursor.rest = '{' :: '{' :: rest)
    (hno : ¬ ['-', '-'] <+: rest) : l.step = l.lexData true := by
  simp only [step, h, inRaw, hm, Bool.false_and, Bool.false_eq_true, if_false]
  split
  · next h1 => cases h1
  · next h1 => cases h1; exact absurd (List.prefix_append ['-', '-'] _) hno
  · rfl
  · next h2 => exact absurd h2 (by decide)
  · next h3 => exact absurd rfl (h3 _ rfl)

theorem step_plain (hm : l.mode = .template) (h : l.cursor.rest = c :: rest) (hc : c ≠ '@')
    (hno : ¬ OpensBraces c rest) : l.step = l.lexText c := by
  simp only [step, h, inRaw, hm, Bool.false_and, Bool.false_eq_true, if_false]
  split
  · exact absurd ⟨rfl, .inl (List.prefix_append ['!', '!'] _)⟩ hno
  · exact absurd ⟨rfl, .inr (List.prefix_append ['{'] _)⟩ hno
  · exact absurd ⟨rfl, .inr (List.prefix_append ['{'] _)⟩ hno
  · exact absurd rfl hc
  · rfl

theorem lexAt_of_stops (h : l.cursor.rest = '@' :: rest) (hs : StopsAt Text.isAsciiLetter rest) :
    l.lexAt = l.lexEscape := by
  have hletters : (l.cursor.skip 1).rest.takeWhile Text.isAsciiLetter = [] := by
    rw [Cursor.rest_skip, h]
    exact takeWhile_append_stop (List.forall_mem_nil _) hs
  simp only [lexAt, hletters, List.isEmpty_nil, if_true]

/-- An `@` in front of a name is read by the mode the lexer is in. -/
theorem lexAt_of_name {name after : List Char} (h : l.cursor.rest = '@' :: (name ++ after))
    (hn : NameBefore name after) :
    l.lexAt =
      match l.mode with
      | .raw block =>
          if String.ofList name = "end" ++ block.name then
            { l with cursor := l.cursor.skip (name.length + 1) }.closeRaw block
          else
            { l with
              text := l.text.push '@' ++ String.ofList name
              cursor := l.cursor.skip (name.length + 1) }
      | .template =>
          if l.preferences.isRawFunction (String.ofList name) then
            l.openRaw (String.ofList name) l.cursor.position (l.cursor.skip (name.length + 1))
          else
            l.lexFunction (String.ofList name) l.cursor.position
              (l.cursor.skip (name.length + 1)) := by
  have hletters : (l.cursor.skip 1).rest.takeWhile Text.isAsciiLetter = name := by
    rw [Cursor.rest_skip, h]
    exact hn.takeWhile
  have hne : ¬ name.isEmpty = true := by simpa using hn.1
  rw [← hletters] at hne ⊢
  exact if_neg hne

/-! ### A piece is read -/

variable {chunk after : List Char} {e : Effect}

theorem lexText_eq_perform (l : Lexer) (c : Char) : l.lexText c = l.perform 1 (.hold [c]) := by
  simp [lexText, perform]

theorem lexEscape_eq_perform {run : List Char} (hm : l.mode = .template)
    (hr : l.cursor.rest = '@' :: (run ++ after)) (hrun : ∀ c ∈ run, !Text.isBlank c)
    (hstop : StopsAt (fun c => !Text.isBlank c) after) :
    l.lexEscape = l.perform (run.length + 1) (.hold run) := by
  have hrest : (l.cursor.skip 1).rest = run ++ after := by rw [Cursor.rest_skip, hr]; rfl
  simp only [lexEscape, inRaw, hm, Bool.false_eq_true, if_false, hrest,
    takeWhile_append_stop hrun hstop, perform, Cursor.skip_skip, Nat.add_comm 1]

theorem lexComment_eq_perform {value : List Char}
    (he : Enclosed l.preferences.strict commentTerminator chunk after value)
    (hr : l.cursor.rest = commentOpener ++ (chunk ++ after)) :
    l.lexComment =
      l.perform (commentOpener ++ chunk).length (.token (.comment (String.ofList value)) none) := by
  have hrest : (l.cursor.skip 4).rest = chunk ++ after := by rw [Cursor.rest_skip, hr]; rfl
  have hread : (l.cursor.skip 4).readUntil commentTerminator .comment l.cursor.position
      l.preferences.strict = _ := Cursor.readUntil_of_enclosed (by decide) he hrest
  simp only [commentTerminator] at hread
  simp only [lexComment, hread, perform, noteList, Cursor.skip_skip, List.length_append]
  rfl

theorem lexData_eq_perform {escaped : Bool} {interior : List Char}
    (he : Enclosed l.preferences.strict (terminator escaped) chunk after interior)
    (hr : l.cursor.rest = dataOpener escaped ++ (chunk ++ after)) :
    l.lexData escaped =
      l.perform (dataOpener escaped ++ chunk).length
        (.token (dataToken escaped interior) none) := by
  have hrest : (l.cursor.skip (openerLength escaped)).rest = chunk ++ after := by
    rw [Cursor.rest_skip, hr, ← length_dataOpener, List.drop_left]
  have hread : (l.cursor.skip (openerLength escaped)).readUntil (terminator escaped)
      (if escaped then .escapedData else .unescapedData) l.cursor.position l.preferences.strict =
        _ := Cursor.readUntil_of_enclosed (terminator_ne_nil escaped) he hrest
  simp only [lexData, hread, perform, noteList, Cursor.skip_skip, List.length_append,
    length_dataOpener, dataToken]

theorem lexFunction_eq_perform {name : List Char} {list : Option ArgumentList}
    (hl : ListRead l.preferences.strict Text.isBlank chunk after list)
    (hr : l.cursor.rest = '@' :: (name ++ (chunk ++ after))) :
    l.lexFunction (String.ofList name) l.cursor.position (l.cursor.skip (name.length + 1)) =
      l.perform ('@' :: (name ++ chunk)).length
        (.token (.function (String.ofList name) (list.map ArgumentList.args)) list) := by
  have hrest : (l.cursor.skip (name.length + 1)).rest = chunk ++ after := by
    rw [Cursor.rest_skip, hr]; simp
  have hread : (l.cursor.skip (name.length + 1)).readArguments Text.isBlank l.cursor.position
      l.preferences.strict = _ := Cursor.readArguments_of_listRead (by decide) hl hrest
  simp only [lexFunction, hread, perform, Cursor.skip_skip, List.length_cons, List.length_append,
    Nat.add_right_comm]

theorem openRaw_eq_perform {name : List Char} {list : Option ArgumentList}
    (hl : ListRead l.preferences.strict isInlineBlank chunk after list)
    (hr : l.cursor.rest = '@' :: (name ++ (chunk ++ after))) :
    l.openRaw (String.ofList name) l.cursor.position (l.cursor.skip (name.length + 1)) =
      l.perform ('@' :: (name ++ chunk)).length (.enter name list) := by
  have hrest : (l.cursor.skip (name.length + 1)).rest = chunk ++ after := by
    rw [Cursor.rest_skip, hr]; simp
  have hread : (l.cursor.skip (name.length + 1)).readArguments isInlineBlank l.cursor.position
      l.preferences.strict = _ := Cursor.readArguments_of_listRead (by decide) hl hrest
  simp only [openRaw, preferences_flushText, hread, perform, Cursor.skip_skip, List.length_cons,
    List.length_append, Nat.add_right_comm]

/-- **In front of a piece, a step reads it.** -/
theorem step_of_piece (hp : Piece l.preferences l.openName? chunk after e)
    (hr : l.cursor.rest = chunk ++ after) : l.step = l.perform chunk.length e := by
  generalize ho : l.openName? = block at hp
  cases hp with
  | plain hc hno =>
      rw [step_plain (mode_of_openName?_none ho) hr hc hno, lexText_eq_perform]
      rfl
  | escape hs hrun hstop =>
      rw [step_at hr, lexAt_of_stops hr hs,
        lexEscape_eq_perform (mode_of_openName?_none ho) hr hrun hstop]
      rfl
  | comment he =>
      rw [List.append_assoc] at hr
      rw [step_comment (mode_of_openName?_none ho) hr, lexComment_eq_perform he hr]
  | @data escaped _ _ _ he hno =>
      rw [List.append_assoc] at hr
      have hm := mode_of_openName?_none ho
      cases escaped with
      | true => rw [step_escaped hm hr (hno rfl), lexData_eq_perform he hr]
      | false => rw [step_unescaped hm hr, lexData_eq_perform he hr]
  | function hn hraw hl =>
      rw [List.cons_append, List.append_assoc] at hr
      rw [step_at hr, lexAt_of_name hr hn, mode_of_openName?_none ho]
      simp only [hraw, Bool.false_eq_true, if_false]
      exact lexFunction_eq_perform hl hr
  | enter hn hraw hl =>
      rw [List.cons_append, List.append_assoc] at hr
      rw [step_at hr, lexAt_of_name hr hn, mode_of_openName?_none ho]
      simp only [hraw, if_true]
      exact openRaw_eq_perform hl hr
  | body hc =>
      obtain ⟨block, hm, -⟩ := mode_of_openName?_some ho
      rw [step_body hm hr hc, lexText_eq_perform]
      rfl
  | lone hs =>
      obtain ⟨block, hm, -⟩ := mode_of_openName?_some ho
      rw [step_at hr, lexAt_of_stops hr hs]
      simp only [lexEscape, inRaw, hm, if_true, perform, String.push_eq_append]
      rfl
  | other hn hne =>
      obtain ⟨block, hm, rfl⟩ := mode_of_openName?_some ho
      rw [step_at hr, lexAt_of_name hr hn, hm]
      simp only [if_neg hne, perform, hm, String.push_eq_append, String.ofList_cons,
        String.append_assoc, List.length_cons]
  | leave hn heq =>
      obtain ⟨block, hm, rfl⟩ := mode_of_openName?_some ho
      rw [step_at hr, lexAt_of_name hr hn, hm]
      simp only [heq, if_true, perform, hm, List.length_cons]

/-! ### What a step can do -/

/-- In the body of a raw block every character starts a piece. -/
theorem exists_piece_raw (p : Preferences) (block : String) (c : Char) (rest : List Char) :
    ∃ chunk after e, c :: rest = chunk ++ after ∧ Piece p (some block) chunk after e := by
  by_cases hc : c = '@'
  · subst hc
    obtain ⟨name, after, rfl, hn, hs⟩ := exists_run Text.isAsciiLetter rest
    by_cases hne : name = []
    · subst hne
      exact ⟨['@'], after, _, rfl, .lone hs⟩
    · by_cases heq : String.ofList name = "end" ++ block
      · exact ⟨'@' :: name, after, _, rfl, .leave ⟨hne, hn, hs⟩ heq⟩
      · exact ⟨'@' :: name, after, _, rfl, .other ⟨hne, hn, hs⟩ heq⟩
  · exact ⟨[c], rest, _, rfl, .body hc⟩

/-- The step from `l` reads a piece. -/
def ReadsPiece (l : Lexer) : Prop :=
  ∃ chunk after e, l.cursor.rest = chunk ++ after ∧ Piece l.preferences l.openName? chunk after e

theorem readsPiece_template (hm : l.mode = .template) (hr : l.cursor.rest = chunk ++ after)
    (hp : Piece l.preferences none chunk after e) : l.ReadsPiece := by
  refine ⟨chunk, after, e, hr, ?_⟩
  simp only [openName?, hm]
  exact hp

theorem readsPiece_or_fail_comment (hm : l.mode = .template)
    (hr : l.cursor.rest = commentOpener ++ rest) :
    l.ReadsPiece ∨ ∃ e, l.step = l.fail e := by
  have hrest : (l.cursor.skip 4).rest = rest := by rw [Cursor.rest_skip, hr]; rfl
  cases hread : (l.cursor.skip 4).readUntil commentTerminator .comment l.cursor.position
      l.preferences.strict with
  | ok pair =>
      obtain ⟨chunk, after, value, hc, he, -⟩ :=
        (Cursor.readUntil_eq_ok_iff (by decide)).mp hread
      rw [hrest] at hc
      exact .inl (readsPiece_template hm (by rw [hr, hc, List.append_assoc]) (.comment he))
  | error e =>
      simp only [commentTerminator] at hread
      refine .inr ⟨e, ?_⟩
      rw [step_comment hm hr]
      simp only [lexComment, hread]

theorem readsPiece_or_fail_data (escaped : Bool) (hm : l.mode = .template)
    (hr : l.cursor.rest = dataOpener escaped ++ rest) (hno : escaped → ¬ ['-', '-'] <+: rest) :
    l.ReadsPiece ∨ ∃ e, l.step = l.fail e := by
  have hrest : (l.cursor.skip (openerLength escaped)).rest = rest := by
    rw [Cursor.rest_skip, hr, ← length_dataOpener, List.drop_left]
  have hstep : l.step = l.lexData escaped := by
    cases escaped with
    | true => exact step_escaped hm hr (hno rfl)
    | false => exact step_unescaped hm hr
  cases hread : (l.cursor.skip (openerLength escaped)).readUntil (terminator escaped)
      (if escaped then .escapedData else .unescapedData) l.cursor.position
      l.preferences.strict with
  | ok pair =>
      obtain ⟨chunk, after, interior, hc, he, -⟩ :=
        (Cursor.readUntil_eq_ok_iff (terminator_ne_nil escaped)).mp hread
      rw [hrest] at hc
      subst hc
      exact .inl (readsPiece_template hm (by rw [hr, List.append_assoc]) (.data he hno))
  | error e =>
      refine .inr ⟨e, ?_⟩
      rw [hstep]
      simp only [lexData, hread]

theorem readsPiece_or_fail_name {name : List Char} (hm : l.mode = .template)
    (hr : l.cursor.rest = '@' :: (name ++ after)) (hn : NameBefore name after) :
    l.ReadsPiece ∨ (¬ l.AtRawOpener ∧ ∃ e, l.step = l.fail e) ∨
      (l.AtRawOpener ∧ ∃ e, l.step = (l.flushText l.cursor.position).fail e) := by
  have hrest : (l.cursor.skip (name.length + 1)).rest = after := by rw [Cursor.rest_skip, hr]; simp
  have hstep := lexAt_of_name hr hn
  rw [← step_at hr, hm] at hstep
  have hchunk : ∀ {chunk after'}, after = chunk ++ after' →
      l.cursor.rest = '@' :: (name ++ chunk) ++ after' := fun h => by
    rw [hr, h, List.cons_append, List.append_assoc]
  cases hraw : l.preferences.isRawFunction (String.ofList name) with
  | true =>
      simp only [hraw, if_true, openRaw, preferences_flushText] at hstep
      cases hread : (l.cursor.skip (name.length + 1)).readArguments isInlineBlank
          l.cursor.position l.preferences.strict with
      | ok pair =>
          obtain ⟨chunk, after', hc, hl, -⟩ :=
            (Cursor.readArguments_eq_ok_iff (by decide)).mp hread
          rw [hrest] at hc
          exact .inl (readsPiece_template hm (hchunk hc) (.enter (hc ▸ hn) hraw hl))
      | error e =>
          rw [hread] at hstep
          exact .inr (.inr ⟨⟨hm, name, after, hr, hn, hraw⟩, e, hstep⟩)
  | false =>
      simp only [hraw, Bool.false_eq_true, if_false, lexFunction] at hstep
      cases hread : (l.cursor.skip (name.length + 1)).readArguments Text.isBlank
          l.cursor.position l.preferences.strict with
      | ok pair =>
          obtain ⟨chunk, after', hc, hl, -⟩ :=
            (Cursor.readArguments_eq_ok_iff (by decide)).mp hread
          rw [hrest] at hc
          exact .inl (readsPiece_template hm (hchunk hc) (.function (hc ▸ hn) hraw hl))
      | error e =>
          rw [hread] at hstep
          refine .inr (.inl ⟨?_, e, hstep⟩)
          -- the letters after the `@` are one name only, and that one opens no raw block
          rintro ⟨-, name', after', hr', hn', hraw'⟩
          rw [hr, List.cons.injEq] at hr'
          have heq : name = name' := by rw [← hn.takeWhile, ← hn'.takeWhile, hr'.2]
          rw [heq, hraw'] at hraw
          exact absurd hraw (by simp)

/-- **What a step before the end of input can do**: it reads a piece, or fails and changes nothing
else, or fails in the list of a raw opener once the text before it is flushed. -/
theorem step_cases (l : Lexer) (h : l.cursor.rest ≠ []) :
    (∃ chunk after e, l.cursor.rest = chunk ++ after ∧
        Piece l.preferences l.openName? chunk after e ∧ l.step = l.perform chunk.length e) ∨
      (¬ l.AtRawOpener ∧ ∃ e, l.step = l.fail e) ∨
      (l.AtRawOpener ∧ ∃ e, l.step = (l.flushText l.cursor.position).fail e) := by
  have hdone : l.ReadsPiece → ∃ chunk after e, l.cursor.rest = chunk ++ after ∧
      Piece l.preferences l.openName? chunk after e ∧ l.step = l.perform chunk.length e :=
    fun ⟨chunk, after, e, hr, hp⟩ => ⟨chunk, after, e, hr, hp, step_of_piece hp hr⟩
  obtain ⟨c, rest, hr⟩ := List.exists_cons_of_ne_nil h
  have hbrace : c ≠ '@' → l.ReadsPiece ∨ (∃ e, l.step = l.fail e) →
      l.ReadsPiece ∨ (¬ l.AtRawOpener ∧ ∃ e, l.step = l.fail e) := by
    rintro hc (hp | hf)
    · exact .inl hp
    · refine .inr ⟨?_, hf⟩
      rintro ⟨-, name, after, hr', -⟩
      rw [hr] at hr'
      exact hc (List.cons.inj hr').1
  cases hm : l.mode with
  | raw block =>
      obtain ⟨chunk, after, e, hc, hp⟩ := exists_piece_raw l.preferences block.name c rest
      -- in the body of a raw block nothing can be wrong
      refine .inl (hdone ⟨chunk, after, e, hr.trans hc, ?_⟩)
      simp only [openName?, hm]
      exact hp
  | template =>
      by_cases hat : c = '@'
      · subst hat
        obtain ⟨name, after, rfl, hletters, hs⟩ := exists_run Text.isAsciiLetter rest
        by_cases hne : name = []
        · subst hne
          obtain ⟨run, after', rfl, hrun, hstop⟩ :=
            exists_run (fun c => !Text.isBlank c) after
          exact .inl (hdone (readsPiece_template hm hr (.escape hs hrun hstop)))
        · rcases readsPiece_or_fail_name hm hr ⟨hne, hletters, hs⟩ with hp | hf
          · exact .inl (hdone hp)
          · exact .inr hf
      · by_cases hopen : OpensBraces c rest
        · have hcase : l.ReadsPiece ∨ ∃ e, l.step = l.fail e := by
            obtain ⟨rfl, ⟨after, rfl⟩ | ⟨after, rfl⟩⟩ := hopen
            · exact readsPiece_or_fail_data false hm hr (by simp)
            · by_cases hcomment : ['-', '-'] <+: after
              · obtain ⟨after, rfl⟩ := hcomment
                exact readsPiece_or_fail_comment hm hr
              · exact readsPiece_or_fail_data true hm hr (fun _ => hcomment)
          rcases hbrace hat hcase with hp | hf
          · exact .inl (hdone hp)
          · exact .inr (.inl hf)
        · have hplain : l.cursor.rest = [c] ++ rest := hr
          exact .inl (hdone (readsPiece_template hm hplain (.plain hat hopen)))

end Lexer

end Blade
