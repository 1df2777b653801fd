import Blade.Proofs.Piece

/-!
# Proofs — Flaw

What can be wrong with a template.  A construct may be open at the end of input, which only strict
termination refuses (`CutOff`, and `Unterminated` with raw blocks among the constructs); or a bracket
of an argument list does not fit (`Mismatched`).

* `holdsEnd_hold_iff`: a piece of a raw block's body that does not end the block holds no end of it.
* `exists_piece_or_flaw`: in a template, every character starts a piece or something is wrong there.
* `step_of_cutOff`, `step_of_mismatched`: what a step then fails with.  The span of the error runs
  from the opener of the construct to the end of input, or stands at the bracket.
-/

namespace Blade

/-! ### The end of a raw block -/

/-- `cs` holds an `@` with `end` and a name behind it, and no letter behind these. -/
def HoldsEnd (block : String) (cs : List Char) : Prop :=
  ∃ before name after, cs = before ++ '@' :: (name ++ after) ∧ NameBefore name after ∧
    String.ofList name = "end" ++ block

variable {block : String} {cs after name letters : List Char}

theorem not_holdsEnd_nil (block : String) : ¬ HoldsEnd block [] := by
  rintro ⟨before, name, after, h, -⟩
  cases before <;> cases h

/-- The end of a block starts with an `@`. -/
theorem holdsEnd_append_iff (h : '@' ∉ cs) :
    HoldsEnd block (cs ++ after) ↔ HoldsEnd block after := by
  constructor
  · rintro ⟨before, name, rest, heq, hn, hname⟩
    rcases List.append_eq_append_iff.mp heq with ⟨ds, rfl, rfl⟩ | ⟨ds, rfl, hds⟩
    · exact ⟨ds, name, rest, rfl, hn, hname⟩
    · cases ds with
      | nil => exact ⟨[], name, rest, hds.symm, hn, hname⟩
      | cons d ds =>
          rw [List.cons_append, List.cons.injEq] at hds
          exact absurd (by simp [← hds.1]) h
  · rintro ⟨before, name, rest, rfl, hn, hname⟩
    exact ⟨cs ++ before, name, rest, by rw [List.append_assoc], hn, hname⟩

theorem not_mem_at_of_letters (h : ∀ c ∈ letters, Text.isAsciiLetter c) : '@' ∉ letters :=
  fun hat => absurd (h '@' hat) (by decide)

/-- An `@` with all the letters behind it ends the block only by its own name. -/
theorem holdsEnd_at_iff (hl : ∀ c ∈ letters, Text.isAsciiLetter c)
    (hs : StopsAt Text.isAsciiLetter after) (hne : String.ofList letters ≠ "end" ++ block) :
    HoldsEnd block ('@' :: (letters ++ after)) ↔ HoldsEnd block after := by
  refine Iff.trans ?_ (holdsEnd_append_iff (not_mem_at_of_letters hl))
  constructor
  · rintro ⟨before, name, rest, heq, hn, hname⟩
    cases before with
    | nil =>
        -- the letters behind the `@` are one run only
        have hrun := congrArg (List.takeWhile Text.isAsciiLetter) (List.cons.inj heq).2
        rw [takeWhile_append_stop hl hs, hn.takeWhile] at hrun
        exact absurd (hrun ▸ hname) hne
    | cons d before => exact ⟨before, name, rest, (List.cons.inj heq).2, hn, hname⟩
  · rintro ⟨before, name, rest, heq, hn, hname⟩
    exact ⟨'@' :: before, name, rest, by rw [heq, List.cons_append], hn, hname⟩

theorem end_ne_empty (block : String) : String.ofList [] ≠ "end" ++ block := by
  intro h
  simpa using congrArg String.toList h

section
variable [Limits]

/-- **A piece of a body that does not end the block holds no end of it.** -/
theorem holdsEnd_hold_iff {p : Preferences} {chunk value : List Char}
    (h : Piece p (some block) chunk after (.hold value)) :
    HoldsEnd block (chunk ++ after) ↔ HoldsEnd block after := by
  cases h with
  | body hc => exact holdsEnd_append_iff (by simpa using hc.symm)
  | lone hs => exact holdsEnd_at_iff (List.forall_mem_nil _) hs (end_ne_empty block)
  | other hn hne => exact holdsEnd_at_iff hn.2.1 hn.2.2 hne

theorem holdsEnd_leave {p : Preferences} {chunk : List Char}
    (h : Piece p (some block) chunk after .leave) : HoldsEnd block (chunk ++ after) := by
  cases h with
  | @leave _ name _ hn hname => exact ⟨[], name, after, rfl, hn, hname⟩

/-- **In a body that nothing ends, every character starts a piece that is held back.** -/
theorem exists_hold_of_not_holdsEnd (p : Preferences) {c : Char} {rest : List Char}
    (hno : ¬ HoldsEnd block (c :: rest)) :
    ∃ chunk after value, c :: rest = chunk ++ after ∧
      Piece p (some block) chunk after (.hold value) ∧ ¬ HoldsEnd block after := by
  obtain ⟨chunk, after, e, heq, hp⟩ := Lexer.exists_piece_raw p block c rest
  rw [heq] at hno ⊢
  cases e with
  | hold value => exact ⟨chunk, after, value, rfl, hp, (holdsEnd_hold_iff hp).not.mp hno⟩
  | token => exact absurd hp.block_of_token (by simp)
  | enter => exact absurd hp.block_of_enter (by simp)
  | leave => exact absurd (holdsEnd_leave hp) hno

/-! ### Flaws -/

/-- The characters that may stand between a directive's name and its argument list. -/
def gapAfter (p : Preferences) (name : List Char) : Char → Bool :=
  if p.isRawFunction (String.ofList name) then Lexer.isInlineBlank else Text.isBlank

/-- The construct that an output expression is. -/
def dataConstruct (escaped : Bool) : Construct :=
  if escaped then .escapedData else .unescapedData

/-- The characters are a comment, an output expression or a directive with a list, from its opener
on, and nothing closes it. -/
inductive CutOff (p : Preferences) : Construct → List Char → Prop where
  | comment {interior : List Char} :
      ¬ commentTerminator <:+: interior → CutOff p .comment (commentOpener ++ interior)
  | data {escaped : Bool} {interior : List Char} :
      ¬ Lexer.terminator escaped <:+: interior → (escaped → ¬ ['-', '-'] <+: interior) →
        CutOff p (dataConstruct escaped) (dataOpener escaped ++ interior)
  | list {name blanks w : List Char} {list : ArgumentList} :
      NameBefore name (blanks ++ '(' :: w) → (∀ c ∈ blanks, gapAfter p name c) → RunsOut w list →
        CutOff p .argumentList ('@' :: (name ++ (blanks ++ '(' :: w)))

/-- The characters are a construct, from its opener on, and nothing closes it. -/
inductive Unterminated (p : Preferences) : Construct → List Char → Prop where
  | cutOff {construct : Construct} {rest : List Char} :
      CutOff p construct rest → Unterminated p construct rest
  | block {name chunk body : List Char} {list : Option ArgumentList} :
      Piece p none chunk body (.enter name list) → ¬ HoldsEnd (String.ofList name) body →
        Unterminated p (.rawBlock (String.ofList name)) (chunk ++ body)

/-- `before` is a directive up to a bracket in its argument list, at which `rest` starts, and the
bracket does not fit. -/
inductive Mismatched (p : Preferences) (fault : Fault) : List Char → List Char → Prop where
  | intro {name blanks w after : List Char} {c : Char} {s : ArgumentScan} :
      NameBefore name (blanks ++ '(' :: (w ++ c :: after)) → (∀ c ∈ blanks, gapAfter p name c) →
        ArgumentScan.feedAll? {} w = some s → s.feed c = .failed fault →
        Mismatched p fault ('@' :: (name ++ (blanks ++ '(' :: w))) (c :: after)

/-- A bracket is not the one waited for, or one too many is open. -/
theorem ArgumentScan.fault_of_failed {s : ArgumentScan} {c : Char} {fault : Fault}
    (h : s.feed c = .failed fault) :
    (∃ expected found, fault = .bracketMismatch expected found) ∨
      ∃ depth max, fault = .nestingTooDeep depth max := by
  unfold feed at h
  split at h
  · cases h
  · split at h
    · cases h
    · split at h
      · unfold openBracket at h
        dsimp only at h
        split at h
        · cases h; exact .inr ⟨_, _, rfl⟩
        · cases h
      · split at h
        · unfold closeBracket at h
          split at h
          · split at h
            · cases h
            · cases h; exact .inl ⟨_, _, rfl⟩
          · split at h
            · cases h
            · cases h; exact .inl ⟨_, _, rfl⟩
        · split at h <;> cases h

theorem Mismatched.fault_cases {p : Preferences} {fault : Fault} {before rest : List Char}
    (h : Mismatched p fault before rest) :
    (∃ expected found, fault = .bracketMismatch expected found) ∨
      ∃ depth max, fault = .nestingTooDeep depth max := by
  cases h with
  | intro _ _ _ hc => exact ArgumentScan.fault_of_failed hc

/-! ### A template is read or flawed -/

/-- Something is wrong at the start of `cs`. -/
inductive Flawed (p : Preferences) (cs : List Char) : Prop where
  | cutOff {construct : Construct} : p.strict = true → CutOff p construct cs → Flawed p cs
  | mismatched {fault : Fault} {before rest : List Char} :
      cs = before ++ rest → Mismatched p fault before rest → Flawed p cs

/-- `cs` starts with a piece of a template. -/
def StartsPiece (p : Preferences) (cs : List Char) : Prop :=
  ∃ chunk after e, cs = chunk ++ after ∧ Piece p none chunk after e

end

variable {p : Preferences}

/-- What is enclosed by a terminator is cut off for want of it. -/
theorem exists_enclosed_or_not (p : Preferences) {terminator : List Char} (ht : terminator ≠ [])
    (cs : List Char) :
    (∃ chunk after interior, cs = chunk ++ after ∧
        Enclosed p.strict terminator chunk after interior) ∨
      (p.strict = true ∧ ¬ terminator <:+: cs) := by
  cases hfind : Cursor.findFrom terminator 0 cs with
  | some n =>
      obtain ⟨interior, after, rfl, -, hfree⟩ := (findFrom_eq_some_iff ht).mp hfind
      exact .inl ⟨_, after, interior, rfl, .closed hfree⟩
  | none =>
      have hno := (findFrom_eq_none_iff ht).mp hfind
      cases hs : p.strict with
      | true => exact .inr ⟨rfl, hno⟩
      | false => exact .inl ⟨cs, [], cs, by simp, .cut rfl hno⟩

theorem piece_of_listRead [Limits] {chunk : List Char} {list : Option ArgumentList}
    (hn : NameBefore name (chunk ++ after))
    (hl : ListRead p.strict (gapAfter p name) chunk after list) :
    ∃ e, Piece p none ('@' :: (name ++ chunk)) after e := by
  unfold gapAfter at hl
  cases hraw : p.isRawFunction (String.ofList name) with
  | true =>
      rw [if_pos hraw] at hl
      exact ⟨_, .enter hn hraw hl⟩
  | false =>
      rw [if_neg (by simp [hraw])] at hl
      exact ⟨_, .function hn hraw hl⟩

theorem gapAfter_paren (p : Preferences) (name : List Char) : gapAfter p name '(' = false := by
  unfold gapAfter
  split <;> decide

theorem startsPiece_or_flawed_directive [Limits] (hn : NameBefore name after) :
    StartsPiece p ('@' :: (name ++ after)) ∨ Flawed p ('@' :: (name ++ after)) := by
  have hread : ∀ {chunk after' list}, after = chunk ++ after' →
      ListRead p.strict (gapAfter p name) chunk after' list →
        StartsPiece p ('@' :: (name ++ after)) := by
    rintro chunk after' list rfl hl
    obtain ⟨e, hp⟩ := piece_of_listRead hn hl
    exact ⟨_, after', e, by simp, hp⟩
  obtain ⟨blanks, ys, hafter, hb, hstop⟩ := exists_run (gapAfter p name) after
  by_cases hopen : OpensList (gapAfter p name) after
  · obtain ⟨rest, rfl⟩ : ∃ rest, ys = '(' :: rest := by
      rw [OpensList, hafter, dropWhile_append_stop hb hstop] at hopen
      exact List.head?_eq_some_iff.mp hopen
    rcases ArgumentScan.feedAll?_cases {} rest with ⟨s, hs⟩ | ⟨w, after', s, rfl, hw, htop⟩ |
      ⟨w, c, after', s, fault, rfl, hw, hc⟩
    · -- nothing closes the list
      cases hstrict : p.strict with
      | false =>
          have hafter' : after = (blanks ++ '(' :: rest) ++ [] := by rw [hafter, List.append_nil]
          exact .inl (hread hafter' (.cut hstrict hb ⟨s, hs, rfl⟩))
      | true =>
          subst hafter
          exact .inr (.cutOff hstrict (.list hn hb ⟨s, hs, rfl⟩))
    · have hafter' : after = (blanks ++ '(' :: (w ++ [')'])) ++ after' := by simp [hafter]
      exact .inl (hread hafter' (.closed hb ⟨s, hw, htop, rfl⟩))
    · subst hafter
      exact .inr (.mismatched (by simp) (.intro hn hb hw hc))
  · have hafter' : after = [] ++ after := rfl
    exact .inl (hread hafter' (.absent hopen))

/-- **In a template every character starts a piece, or something is wrong there.** -/
theorem exists_piece_or_flaw [Limits] (p : Preferences) (c : Char) (rest : List Char) :
    StartsPiece p (c :: rest) ∨ Flawed p (c :: rest) := by
  by_cases hat : c = '@'
  · subst hat
    obtain ⟨name, after, rfl, hletters, hs⟩ := exists_run Text.isAsciiLetter rest
    by_cases hne : name = []
    · subst hne
      obtain ⟨run, after', rfl, hrun, hstop⟩ := exists_run (fun c => !Text.isBlank c) after
      exact .inl ⟨'@' :: run, after', _, rfl, .escape hs hrun hstop⟩
    · exact startsPiece_or_flawed_directive ⟨hne, hletters, hs⟩
  · have hdata : ∀ (escaped : Bool) {cs : List Char}, (escaped → ¬ ['-', '-'] <+: cs) →
        StartsPiece p (dataOpener escaped ++ cs) ∨ Flawed p (dataOpener escaped ++ cs) := by
      intro escaped cs hno
      rcases exists_enclosed_or_not p (terminator_ne_nil escaped) cs with
        ⟨chunk, after, interior, rfl, he⟩ | ⟨hs, hopen⟩
      · exact .inl ⟨_, after, _, by rw [List.append_assoc], .data he hno⟩
      · exact .inr (.cutOff hs (.data hopen hno))
    by_cases hopen : OpensBraces c rest
    · obtain ⟨rfl, ⟨after, rfl⟩ | ⟨after, rfl⟩⟩ := hopen
      · exact hdata false (by simp)
      · by_cases hcomment : ['-', '-'] <+: after
        · obtain ⟨after, rfl⟩ := hcomment
          have hne : commentTerminator ≠ [] := by decide
          rcases exists_enclosed_or_not p hne after with
            ⟨chunk, after, interior, rfl, he⟩ | ⟨hs, hopen⟩
          · exact .inl ⟨commentOpener ++ chunk, after, _, by simp [commentOpener], .comment he⟩
          · exact .inr (.cutOff hs (.comment hopen))
        · exact hdata true (fun _ => hcomment)
    · exact .inl ⟨[c], rest, _, rfl, .plain hat hopen⟩

/-! ### What the readers report -/

theorem LexError.unterminated_skip (construct : Construct) (start : Position) (c : Cursor)
    (n : Nat) :
    LexError.unterminated construct start (c.skip n) = .unterminated construct start c := by
  rw [LexError.unterminated, Cursor.skipAll_skip, Cursor.source_skip]
  rfl

namespace Cursor

variable {c : Cursor} {terminator : List Char} {construct : Construct} {start : Position}
  {gap : Char → Bool} {strict : Bool}

theorem readUntil_of_not_infix (ht : terminator ≠ []) (hno : ¬ terminator <:+: c.rest) :
    c.readUntil terminator construct start true = .error (.unterminated construct start c) := by
  have hfind : c.find? terminator = none := (findFrom_eq_none_iff ht).mpr hno
  rw [readUntil, hfind]
  rfl

variable [Limits]

theorem readArguments_of_runsOut {blanks w : List Char} {list : ArgumentList}
    (hg : gap '(' = false) (hb : ∀ d ∈ blanks, gap d) (hr : c.rest = blanks ++ '(' :: w)
    (hw : RunsOut w list) :
    c.readArguments gap start true = .error (.unterminated .argumentList start c) := by
  have hskip : (c.skip (blanks.length + 1)).rest = w := by
    rw [rest_skip, hr]; simp [List.drop_append]
  rw [readArguments_of_opens hg hb hr, arguments_of_runsOut (hskip.symm ▸ hw)]
  simp only [hw.terminated, Bool.not_false, Bool.true_and, if_true]
  rw [skipAll_skip, ← skip_length, LexError.unterminated_skip]

theorem readArguments_of_failed {blanks w after : List Char} {d : Char} {s : ArgumentScan}
    {fault : Fault} (hg : gap '(' = false) (hb : ∀ d ∈ blanks, gap d)
    (hr : c.rest = blanks ++ '(' :: (w ++ d :: after))
    (hw : ArgumentScan.feedAll? {} w = some s) (hd : s.feed d = .failed fault) :
    c.readArguments gap start strict =
      .error ⟨fault, .point (c.position.advanceAll (blanks ++ '(' :: w)), c.source⟩ := by
  have hchunk : c.rest = (blanks ++ ['(']) ++ (w ++ d :: after) := by simp [hr]
  have hskip := skip_append hchunk
  rw [List.length_append, List.length_singleton] at hskip
  rw [readArguments_of_opens hg hb hr, hskip, arguments_of_failed rfl hw hd]
  simp only [← Position.advanceAll_append, List.append_assoc, List.cons_append, List.nil_append]

end Cursor

/-! ### What a step reports -/

variable [Limits]

namespace Lexer

variable {l : Lexer} {e : LexError}

/-- The step fails with `e`, and at most queues the text that was held back. -/
def FailsWith (l : Lexer) (e : LexError) : Prop :=
  l.step = l.fail e ∨ l.step = (l.flushText l.cursor.position).fail e

theorem FailsWith.error (h : l.FailsWith e) : l.step.error = some e := by
  rcases h with h | h <;> rw [h, error_fail]

theorem failsWith_of_list (hm : l.mode = .template)
    (hr : l.cursor.rest = '@' :: (name ++ after)) (hn : NameBefore name after)
    (hread : (l.cursor.skip (name.length + 1)).readArguments (gapAfter l.preferences name)
      l.cursor.position l.preferences.strict = .error e) : l.FailsWith e := by
  have hstep := lexAt_of_name hr hn
  rw [← step_at hr, hm] at hstep
  unfold gapAfter at hread
  cases hraw : l.preferences.isRawFunction (String.ofList name) with
  | true =>
      rw [if_pos hraw] at hread
      simp only [hraw, if_true, openRaw, preferences_flushText, hread] at hstep
      exact .inr hstep
  | false =>
      rw [if_neg (by simp [hraw])] at hread
      simp only [hraw, Bool.false_eq_true, if_false, lexFunction, hread] at hstep
      exact .inl hstep

/-- **A construct that nothing closes fails the step**, from its opener to the end of input. -/
theorem step_of_cutOff {construct : Construct} (hm : l.mode = .template)
    (hs : l.preferences.strict = true) (h : CutOff l.preferences construct l.cursor.rest) :
    l.FailsWith (.unterminated construct l.cursor.position l.cursor) := by
  generalize hr : l.cursor.rest = rest at h
  cases h with
  | @comment interior hno =>
      have hrest : (l.cursor.skip 4).rest = interior := by rw [Cursor.rest_skip, hr]; rfl
      have hread : (l.cursor.skip 4).readUntil commentTerminator .comment l.cursor.position true =
          _ := Cursor.readUntil_of_not_infix (by decide) (hrest.symm ▸ hno)
      rw [LexError.unterminated_skip, ← hs, commentTerminator] at hread
      refine .inl ?_
      rw [step_comment hm hr]
      simp only [lexComment, hread]
  | @data escaped interior hno hdash =>
      have hrest : (l.cursor.skip (openerLength escaped)).rest = interior := by
        rw [Cursor.rest_skip, hr, ← length_dataOpener, List.drop_left]
      have hread : (l.cursor.skip (openerLength escaped)).readUntil (terminator escaped)
          (dataConstruct escaped) l.cursor.position true = _ :=
        Cursor.readUntil_of_not_infix (terminator_ne_nil escaped) (hrest.symm ▸ hno)
      rw [LexError.unterminated_skip, ← hs, dataConstruct] at hread
      have hstep : l.step = l.lexData escaped := by
        cases escaped with
        | true => exact step_escaped hm hr (hdash rfl)
        | false => exact step_unescaped hm hr
      refine .inl ?_
      rw [hstep]
      simp only [lexData, hread, dataConstruct]
  | @list name blanks w list hn hb hw =>
      have hrest : (l.cursor.skip (name.length + 1)).rest = blanks ++ '(' :: w := by
        rw [Cursor.rest_skip, hr]; simp
      have hread : (l.cursor.skip (name.length + 1)).readArguments (gapAfter l.preferences name)
          l.cursor.position true = _ :=
        Cursor.readArguments_of_runsOut (gapAfter_paren l.preferences name) hb hrest hw
      rw [LexError.unterminated_skip, ← hs] at hread
      exact failsWith_of_list hm hr hn hread

/-- **A bracket that does not fit fails the step**, at the bracket. -/
theorem step_of_mismatched {fault : Fault} {before rest : List Char} (hm : l.mode = .template)
    (hr : l.cursor.rest = before ++ rest) (h : Mismatched l.preferences fault before rest) :
    l.FailsWith ⟨fault, .point (l.cursor.position.advanceAll before), l.cursor.source⟩ := by
  cases h with
  | @intro name blanks w after c s hn hb hw hc =>
      have hname : l.cursor.rest = ('@' :: name) ++ (blanks ++ '(' :: (w ++ c :: after)) := by
        simp [hr]
      have hrest : (l.cursor.skip (name.length + 1)).rest = blanks ++ '(' :: (w ++ c :: after) := by
        rw [Cursor.rest_skip, hname, ← List.length_cons, List.drop_left]
      have hread : (l.cursor.skip (name.length + 1)).readArguments (gapAfter l.preferences name)
          l.cursor.position l.preferences.strict = _ :=
        Cursor.readArguments_of_failed (gapAfter_paren l.preferences name) hb hrest hw hc
      rw [Cursor.source_skip, Cursor.position_skip, ← Position.advanceAll_append, hname,
        ← List.length_cons, List.take_left] at hread
      exact failsWith_of_list hm hname hn hread

end Lexer

end Blade
