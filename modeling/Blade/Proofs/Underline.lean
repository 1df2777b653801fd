import Blade.Limits.Development
import Blade.Proofs.LineText
import Blade.Proofs.Progress
import Blade.Proofs.WrongBracket

/-!
# Proofs — Underline

What a message shows under the line that it is about.

A character of the shown line stands behind the line's number and a bar, one display column for each
character before it (`Position.displayColumn`).

* `rows_diagnostic`: the rows of a message, among them the line and the carets under it.
* `underlined_eq`: the carets go as far as the span, and no further than the line.
* `underlines_positionAt`: so a character of the line has a caret under it exactly when the span
  contains it.
* `Lexer.errorAt_of_replies`: an error about a bracket stands at that bracket, under any sequence of
  calls.
* `ErrorAt.pointsAt`: there its only caret is.
* `carets_under_span_and_bracket`: both together.
-/

namespace Blade

/-! ### The rows of a message -/

/-- The rows of a text. -/
def rows (text : String) : List (List Char) :=
  text.toList.splitOn '\n'

/-- The blank that stands where the number of a line would. -/
def margin (number : Nat) : List Char :=
  List.replicate (toString number).length ' '

/-- What stands before the text of a line: its number and a bar. -/
def gutter (number : Nat) : List Char :=
  (toString number).toList ++ [' ', '|', ' ']

/-- Where the line of a position is shown, the display column of the character behind it. -/
def Position.displayColumn (p : Position) : Nat :=
  (gutter p.line).length + (p.column - 1)

/-- The rows of a message about a position, with the text of its line and carets under it. -/
def drawing (message : String) (p : Position) (text carets : List Char) : List (List Char) :=
  [("error: " ++ message).toList, ("  --> " ++ p.display).toList, margin p.line ++ [' ', '|'],
    gutter p.line ++ text, carets, []]

/-- Some carets, the first one in the column of a position. -/
def caretsFrom (p : Position) (width : Nat) : List Char :=
  margin p.line ++ [' ', '|', ' '] ++ List.replicate (p.column - 1) ' ' ++
    List.replicate width '^'

theorem getElem?_caretsFrom {p : Position} {width i : Nat} :
    (caretsFrom p width)[i]? = some '^' ↔ p.displayColumn ≤ i ∧ i < p.displayColumn + width := by
  have hblank : '^' ∉ margin p.line ++ [' ', '|', ' '] ++ List.replicate (p.column - 1) ' ' := by
    simp [margin]
  have hlength : (margin p.line ++ [' ', '|', ' '] ++ List.replicate (p.column - 1) ' ').length =
      p.displayColumn := by
    simp only [margin, Position.displayColumn, gutter, List.length_append, List.length_replicate,
      String.length_toList]
  rw [caretsFrom, List.getElem?_append, hlength]
  split
  · next hlt =>
      refine iff_of_false (fun hcaret => hblank (List.mem_of_getElem? hcaret)) ?_
      omega
  · rw [List.getElem?_replicate, Option.ite_none_right_eq_some]
    simp only [and_true]
    omega

theorem getElem?_gutter_append (p : Position) (text : List Char) :
    (gutter p.line ++ text)[p.displayColumn]? = text[p.column - 1]? := by
  rw [Position.displayColumn, List.getElem?_append_right (Nat.le_add_right _ _),
    Nat.add_sub_cancel_left]

theorem toList_copies (n : Nat) (c : Char) : (Lines.copies n c).toList = List.replicate n c := by
  rw [Lines.copies, String.pushn_eq_repeat_push]
  induction n with
  | zero => rfl
  | succ n ih => rw [Nat.repeat, String.toList_push, ih, List.replicate_succ']

theorem newline_not_mem_toDigits (n : Nat) : '\n' ∉ Nat.toDigits 10 n := by
  intro hmem
  have hdigit := Nat.isDigit_of_mem_toDigits (by decide) (by decide) hmem
  exact absurd hdigit (by decide)

variable {source message : String}

/-- **The rows of a message about a span**, whose first line is there. -/
theorem rows_diagnostic {span : Span} {text : List Char}
    (hline : (Lines.ofSource source).line? span.start.line = some text)
    (hmessage : '\n' ∉ message.toList) :
    rows ((Lines.ofSource source).diagnostic span message) =
      drawing message span.start text (caretsFrom span.start (Lines.underlined span text)) := by
  have hrows : ((Lines.ofSource source).diagnostic span message).toList = ['\n'].intercalate
      (drawing message span.start text (caretsFrom span.start (Lines.underlined span text))) := by
    rw [Lines.diagnostic, hline]
    simp [drawing, caretsFrom, gutter, margin, toList_copies, List.intercalate]
  rw [rows, hrows]
  refine List.splitOn_intercalate '\n' ?_ (List.cons_ne_nil _ _)
  simp [drawing, caretsFrom, gutter, margin, Position.display, hmessage,
    newline_not_mem_toDigits, not_mem_of_line? hline]

/-! ### Carets under a span -/

variable {whole current more rest covered after : List Char}

/-- **The carets go as far as the span, and no further than the line.**  There is at least one. -/
theorem underlined_eq (hline : LineIn source.toList whole (current ++ more) rest)
    (hcovered : more ++ rest = covered ++ after) :
    Lines.underlined
        ⟨(Lines.ofSource source).positionAt (byteLength (whole ++ current)),
          (Lines.ofSource source).positionAt (byteLength (whole ++ current ++ covered))⟩
        (current ++ more) = max (min covered.length more.length) 1 := by
  have hsource : source.toList = (whole ++ current) ++ (covered ++ after) := by
    rw [hline.chars, ← hcovered]
    simp only [List.append_assoc]
  rw [positionAt_append hsource, hline.positionAt_eq, Lines.underlined]
  have hwithin : covered <+: more ∨ ∃ ds, covered = more ++ '\n' :: ds := by
    rcases List.append_eq_append_iff.mp hcovered with ⟨ds, rfl, hrest⟩ | ⟨ds, rfl, -⟩
    · cases ds with
      | nil => exact .inl (by rw [List.append_nil])
      | cons d ds =>
          have hstop := hline.stops
          rw [hrest, List.cons_append] at hstop
          exact .inr ⟨ds, by simpa using hstop⟩
    · exact .inl (List.prefix_append _ _)
  rcases hwithin with ⟨ds, rfl⟩ | ⟨ds, rfl⟩
  · have hinside : '\n' ∉ covered := fun hmem =>
      hline.inside (List.mem_append_right _ (List.mem_append_left _ hmem))
    rw [advanceAll_of_not_mem hinside]
    simp
  · -- behind the newline the span is on a later line
    have hlater : whole.count '\n' + 1 ≠
        whole.count '\n' + 1 + (lineStarts 0 (more ++ '\n' :: ds)).length := by
      rw [length_lineStarts, List.count_append, List.count_cons_self]
      omega
    rw [line_advanceAll _ 0, if_neg hlater]
    simp

/-- A span contains the boundaries from the one that it starts at up to the one that it stops at. -/
theorem contains_positionAt_iff {u v w : List Char} (hu : u <+: source.toList)
    (hv : v <+: source.toList) (hw : w <+: source.toList) :
    (Span.mk ((Lines.ofSource source).positionAt (byteLength u))
        ((Lines.ofSource source).positionAt (byteLength v))).contains
      ((Lines.ofSource source).positionAt (byteLength w)) = true ↔
      u.length ≤ w.length ∧ w.length < v.length := by
  have hoffset {x : List Char} (hx : x <+: source.toList) :
      ((Lines.ofSource source).positionAt (byteLength x)).offset = byteLength x := by
    obtain ⟨after, hafter⟩ := hx
    rw [positionAt_byteLength hafter.symm, offset_advanceAll]
    exact Nat.zero_add _
  rw [Span.contains_iff, hoffset hu, hoffset hv,
    hoffset hw, ← Nat.not_lt, byteLength_lt_iff hw hu, byteLength_lt_iff hw hv, Nat.not_lt]

/-- The display column of a character counts those before it in its line. -/
theorem LineIn.displayColumn_eq (h : LineIn source.toList whole (current ++ more) rest) :
    ((Lines.ofSource source).positionAt (byteLength (whole ++ current))).displayColumn =
      (gutter (whole.count '\n' + 1)).length + current.length := by
  rw [h.positionAt_eq, Position.displayColumn, Nat.add_sub_cancel]

/-- A message about a span shows the line that the span starts on.  Each character of this line has
a caret under it exactly when the span contains it. -/
def Lines.Underlines (t : Lines) (span : Span) (message : String) : Prop :=
  ∃ text carets, t.line? span.start.line = some text ∧
    rows (t.diagnostic span message) = drawing message span.start text carets ∧
    ∀ before c after, t.source.toList = before ++ c :: after → c ≠ '\n' →
      let p := t.positionAt (byteLength before)
      p.line = span.start.line →
        (gutter p.line ++ text)[p.displayColumn]? = some c ∧
          (carets[p.displayColumn]? = some '^' ↔ span.contains p = true)

/-- **A span that is not empty is underlined**, in a source without carriage returns. -/
theorem underlines_positionAt {m n : Nat} (hreturn : '\r' ∉ source.toList)
    (hmessage : '\n' ∉ message.toList) (hm : IsBoundary source m) (hn : IsBoundary source n)
    (hmn : m < n) :
    (Lines.ofSource source).Underlines
      ⟨(Lines.ofSource source).positionAt m, (Lines.ofSource source).positionAt n⟩ message := by
  obtain ⟨first, d, covered, after, hsource, rfl, rfl⟩ := exists_between hm hn hmn
  obtain ⟨whole, current, more, rest, rfl, hcovered, hline⟩ :=
    exists_lineIn first (d :: covered ++ after)
  rw [← hsource] at hline
  let t := Lines.ofSource source
  let span : Span := ⟨t.positionAt (byteLength (whole ++ current)),
    t.positionAt (byteLength (whole ++ current ++ d :: covered))⟩
  have hstart : span.start = _ := hline.positionAt_eq
  have hfound : t.line? span.start.line = some (current ++ more) := by
    rw [hstart, hline.line?_eq, withoutReturns_piece hreturn hline.getElem?_splitOn]
  have hwidth : Lines.underlined span (current ++ more) = _ := underlined_eq hline hcovered.symm
  refine ⟨current ++ more, _, hfound, rows_diagnostic hfound hmessage, ?_⟩
  intro before c behind hbefore hc p hp
  obtain ⟨whole', current', more', rest', rfl, hafter, hline'⟩ := exists_lineIn before (c :: behind)
  rw [← hbefore] at hline'
  obtain ⟨later, rfl, -⟩ := hline'.exists_cons hafter hc
  have hp' : p = _ := hline'.positionAt_eq
  -- both are in one line, so that only the columns differ
  have hcount : whole'.count '\n' = whole.count '\n' := by
    rw [hp', hstart] at hp
    exact Nat.succ.inj hp
  obtain ⟨rfl, hsame⟩ := hline.unique hline' hcount
  constructor
  · rw [getElem?_gutter_append, hp', Nat.add_sub_cancel, ← hsame,
      List.getElem?_append_right (Nat.le_refl _), Nat.sub_self]
    rfl
  · have hcolumn : p.displayColumn = _ := hline'.displayColumn_eq
    have hfirst : span.start.displayColumn = _ := hline.displayColumn_eq
    have hcontains : span.contains p = true ↔ _ :=
      contains_positionAt_iff ⟨_, hsource.symm⟩ ⟨after, by simp [hsource]⟩ ⟨_, hbefore.symm⟩
    have hlength := congrArg List.length hsame
    simp only [List.length_append, List.length_cons] at hlength hcontains
    rw [getElem?_caretsFrom, hwidth, hcontains, hcolumn, hfirst, List.length_cons]
    omega

/-! ### A caret at a bracket -/

/-- The fault is about a bracket. -/
def Fault.OfBracket : Fault → Prop
  | .bracketMismatch .. => True
  | .nestingTooDeep .. => True
  | .unterminatedBlock .. => False
  | .tooManyTokens .. => False

section
variable [Limits]

/-- The error stands behind `before` in a source, at the character `c`, which is wrong there. -/
structure ErrorAt (source : String) (e : LexError) (before : List Char) (c : Char)
    (after : List Char) : Prop where
  source_eq : e.source = source
  chars : source.toList = before ++ c :: after
  span : e.span = .point (Position.start.advanceAll before)
  bracket : ∃ pending, (∀ b ∈ pending, isCloser b = true) ∧ WrongBracket pending c e.fault

/-- What does not fit in an argument list is a wrong bracket. -/
theorem Mismatched.exists_wrong {p : Preferences} {fault : Fault} {before rest : List Char}
    (h : Mismatched p fault before rest) :
    ∃ c after pending, rest = c :: after ∧ (∀ b ∈ pending, isCloser b = true) ∧
      WrongBracket pending c fault := by
  cases h with
  | @intro name blanks w after c s hn hb hw hc =>
      have hdepth := ArgumentScan.depth_le_of_feedAll? hw
      obtain ⟨hs, hwrong⟩ := (ArgumentScan.feed_eq_failed_iff hdepth).mp hc
      obtain ⟨n, htext, -⟩ := ArgumentScan.openText_of_feedAll? hw hs
      exact ⟨c, after, s.pending, rfl, htext.isCloser_of_mem, hwrong⟩

namespace Lexer

variable {p : Preferences} {l : Lexer} {done : List Char} {h : Held} {e : LexError}

/-- A step that fails at a bracket fails at one of the source. -/
theorem Tracks.exists_errorAt (ht : Tracks source p l done h) (hsource : l.source = source)
    (he : l.error = none) (hs : l.step.error = some e) (hb : e.fault.OfBracket) :
    ∃ before c after, ErrorAt source e before c after := by
  rcases error_of_step he hs with ⟨_, _, rfl, -⟩ | ⟨fault, before, rest, hrest, hmis, rfl⟩
  · exact False.elim hb
  · obtain ⟨c, after, pending, rfl, hpending, hwrong⟩ := hmis.exists_wrong
    refine ⟨done ++ h.chars ++ before, c, after, hsource, ?_, ?_, pending, hpending, hwrong⟩
    · rw [ht.chars, hrest]
      simp only [List.append_assoc]
    · rw [ht.position_eq, ← Position.advanceAll_append]

theorem preserved_errorAt (source : String) (p : Preferences) :
    Preserved (fun l => Standing source p (fun _ _ => True) l ∧ l.source = source)
      (fun _ => True)
      (fun e => e.fault.OfBracket → ∃ before c after, ErrorAt source e before c after) := by
  have hstanding : Preserved (Standing source p fun _ _ => True) _ _ :=
    preserved_of_upheld (upheld_trivial p)
  refine
    { pop := fun queue hs => ⟨hstanding.pop queue hs.1, hs.2⟩
      look := fun peeked hs => ⟨hstanding.look peeked hs.1, hs.2⟩
      step := fun hs hi he => ⟨hstanding.step hs.1 hi he, (source_step _).trans hs.2⟩
      queued := fun _ _ _ _ => trivial
      failed := fun hs hi he => ?_
      finished := fun _ _ => trivial
      limit := fun _ _ _ => False.elim }
  obtain ⟨done, h, ht, -⟩ := hs.1.tracks hi
  exact ht.exists_errorAt hs.2 hi.error he

/-- **An error about a bracket stands at that bracket**, under any sequence of calls. -/
theorem errorAt_of_replies (source : String) (p : Preferences) (calls : List Call) :
    ∀ r ∈ (ofSource source p).replies calls, ∀ e ∈ r.error?, e.fault.OfBracket →
      ∃ before c after, ErrorAt source e before c after := by
  have hstanding : Standing source p (fun _ _ => True) (ofSource source p) :=
    .inl ⟨rfl, [], {}, tracks_ofSource source p, trivial⟩
  intro r hr
  exact ((preserved_errorAt source p).replies (keeps_ofSource ⟨hstanding, rfl⟩) calls r hr).2

end Lexer

variable {e : LexError} {before after : List Char} {c : Char}

namespace WrongBracket

variable {pending : List Char} {fault : Fault}

/-- A wrong bracket is none of the characters that end a line. -/
theorem ne_of_ends (h : WrongBracket pending c fault) : c ≠ '\n' ∧ c ≠ '\r' := by
  constructor
  · rintro rfl
    cases h <;> contradiction
  · rintro rfl
    cases h <;> contradiction

/-- What is wrong with a bracket is said in one line. -/
theorem newline_not_mem_message (h : WrongBracket pending c fault)
    (hpending : ∀ b ∈ pending, isCloser b = true) : '\n' ∉ fault.message.toList := by
  cases h with
  | @mismatch expected hc hhead hne =>
      have hexpected : isCloser expected = true := by
        rcases List.mem_append.mp (List.mem_of_head? hhead) with hmem | hmem
        · exact hpending expected hmem
        · rw [List.mem_singleton.mp hmem]
          rfl
      have hquoted {b : Char} (hb : isCloser b = true) : '\n' ∉ (Text.quotedChar b).toList := by
        rcases ArgumentScan.isCloser_iff.mp hb with rfl | rfl | rfl <;> decide +kernel
      have hmessage : (Fault.bracketMismatch expected c).message =
          "expected " ++ Text.quotedChar expected ++ ", got " ++ Text.quotedChar c := rfl
      simp only [hmessage, String.toList_append, List.mem_append, not_or]
      exact ⟨⟨⟨by decide +kernel, hquoted hexpected⟩, by decide +kernel⟩, hquoted hc⟩
  | tooDeep =>
      have hmessage : (Fault.nestingTooDeep (Limits.bracketDepth + 1) Limits.bracketDepth).message =
          "brackets nested too deep: " ++ toString (Limits.bracketDepth + 1) ++ " (max " ++
            toString Limits.bracketDepth ++ ")" := rfl
      have hnumber (n : Nat) : '\n' ∉ (toString n).toList := by
        simpa using newline_not_mem_toDigits n
      simp only [hmessage, String.toList_append, List.mem_append, not_or]
      exact ⟨⟨⟨⟨by decide +kernel, hnumber _⟩, by decide +kernel⟩, hnumber _⟩, by decide +kernel⟩

end WrongBracket

/-- An error shows the line that it is on, with one caret, which is under the character `c`. -/
def LexError.PointsAt (e : LexError) (c : Char) : Prop :=
  ∃ text carets, (Lines.ofSource e.source).line? e.span.start.line = some text ∧
    rows e.render = drawing e.message e.span.start text carets ∧
    (gutter e.span.start.line ++ text)[e.span.start.displayColumn]? = some c ∧
    ∀ i, carets[i]? = some '^' ↔ i = e.span.start.displayColumn

/-- **An error at a bracket points at it.** -/
theorem ErrorAt.pointsAt (h : ErrorAt source e before c after) : e.PointsAt c := by
  obtain ⟨pending, hpending, hwrong⟩ := h.bracket
  obtain ⟨text, htext, hat⟩ := exists_line_at h.chars
  have hstart : e.span.start = (Lines.ofSource source).positionAt (byteLength before) := by
    rw [h.span, positionAt_byteLength h.chars]
    rfl
  rw [← hstart] at htext hat
  have hc : text[e.span.start.column - 1]? = some c := by
    refine hat.mpr ⟨hwrong.ne_of_ends.1, fun honly => hwrong.ne_of_ends.2 (honly c ?_)⟩
    rw [List.takeWhile_cons, if_pos (by simpa using hwrong.ne_of_ends.1)]
    exact List.mem_cons_self
  have hwidth : Lines.underlined e.span text = 1 := by
    rw [h.span, Lines.underlined, Span.point]
    simp
  rw [← h.source_eq] at htext
  have hrows : rows e.render = drawing e.message e.span.start text
      (caretsFrom e.span.start (Lines.underlined e.span text)) :=
    rows_diagnostic htext (hwrong.newline_not_mem_message hpending)
  refine ⟨text, _, htext, hrows, ?_, fun i => ?_⟩
  · rw [getElem?_gutter_append, hc]
  · rw [getElem?_caretsFrom, hwidth]
    omega

/-- **Carets stand under what a message is about**, one display column for each character.

In a source without carriage returns, a message of one line about a span that is not empty shows the
line that the span starts on, and a caret stands under a character of this line exactly when the
span contains it.  In any source, an error about a bracket that a lexer hands out, under any
sequence of calls, shows the line of this bracket with one caret, which is under the bracket; and
the bracket is the one that the error says was found. -/
theorem carets_under_span_and_bracket (source : String) :
    let t := Lines.ofSource source
    ('\r' ∉ source.toList → ∀ (message : String) (m n : Nat), '\n' ∉ message.toList →
      IsBoundary source m → IsBoundary source n → m < n →
        t.Underlines ⟨t.positionAt m, t.positionAt n⟩ message) ∧
      ∀ (p : Preferences) (calls : List Call), ∀ r ∈ (Lexer.ofSource source p).replies calls,
        ∀ e ∈ r.error?, e.fault.OfBracket →
          ∃ before c after, ErrorAt source e before c after ∧ e.PointsAt c ∧
            ∀ expected found, e.fault = .bracketMismatch expected found → c = found := by
  refine ⟨fun hreturn message m n => underlines_positionAt hreturn, ?_⟩
  intro p calls r hr e he hb
  obtain ⟨before, c, after, hat⟩ := Lexer.errorAt_of_replies source p calls r hr e he hb
  refine ⟨before, c, after, hat, hat.pointsAt, fun expected found hfault => ?_⟩
  obtain ⟨pending, -, hwrong⟩ := hat.bracket
  rw [hfault] at hwrong
  cases hwrong
  rfl

end

/-- A list that goes on in a second line fails there, and the caret is under the bracket behind a
character of two bytes. -/
theorem carets_under_second_line :
    (Lexer.ofSource "@if(\n é]" {}).replies [.next] =
        [.failed ⟨.bracketMismatch ')' ']', .point ⟨8, 2, 3⟩, "@if(\n é]"⟩] ∧
      LexError.PointsAt ⟨.bracketMismatch ')' ']', .point ⟨8, 2, 3⟩, "@if(\n é]"⟩ ']' ∧
      (Lines.ofSource "@if(\n é]").Underlines
        ⟨(Lines.ofSource "@if(\n é]").positionAt 1, (Lines.ofSource "@if(\n é]").positionAt 8⟩
        "no list" := by
  have hidle : (Lexer.ofSource "@if(\n é]" {}).Idle := ⟨rfl, rfl, rfl⟩
  have he : (Lexer.ofSource "@if(\n é]" {}).step.error =
      some ⟨.bracketMismatch ')' ']', .point ⟨8, 2, 3⟩, "@if(\n é]"⟩ := by decide +kernel
  have hnext := (Lexer.next_of_not_peeked rfl).trans (Lexer.produce_fail hidle he)
  have hreply : (Lexer.ofSource "@if(\n é]" {}).replies [.next] =
      [.failed ⟨.bracketMismatch ')' ']', .point ⟨8, 2, 3⟩, "@if(\n é]"⟩] := by
    rw [Lexer.replies, Lexer.call, hnext]
    rfl
  obtain ⟨hspan, herror⟩ := carets_under_span_and_bracket "@if(\n é]"
  have hmem : Reply.failed ⟨.bracketMismatch ')' ']', .point ⟨8, 2, 3⟩, "@if(\n é]"⟩ ∈
      (Lexer.ofSource "@if(\n é]" {}).replies [.next] := hreply ▸ List.mem_singleton_self _
  obtain ⟨before, c, after, -, hpoints, hfound⟩ := herror {} [.next] _ hmem _ rfl trivial
  obtain rfl : c = ']' := hfound _ _ rfl
  have hstart : IsBoundary "@if(\n é]" 1 := ⟨['@'], by decide +kernel⟩
  have hstop : IsBoundary "@if(\n é]" 8 := ⟨"@if(\n é".toList, by decide +kernel⟩
  have hunder := hspan (by decide +kernel) "no list" 1 8 (by decide +kernel) hstart hstop
    (by decide)
  exact ⟨hreply, hpoints, hunder⟩

end Blade
