import Blade.Limits.Development
import Blade.Proofs.ArgumentDepth
import Blade.Proofs.Ledger
import Blade.Proofs.Totals
import Blade.Proofs.Tracking

/-!
# Proofs — Tally

The figures of a lexer describe the tokens that it has queued.

A token is counted when it is queued, so the counts follow the ledger at every step.  Bracket depth
is noted when an argument list is read, and the token that has the list may come much later: the
list of a raw block is noted where the block is opened and its token is queued where the block ends.
In between the depth noted is that of the ledger and of what is `pending`.

* `Metrics.Counts`, `argumentDepth`: what the figures of some tokens are.
* `Metrics.Tallies.count`, `Metrics.Tallies.note`: how counting a token and noting a list change
  them.
* `Lexer.tallied_accounted`: so the figures are those of the ledger, in every state.
-/

namespace Blade

/-! ### The figures of some tokens -/

namespace Token

/-- The filters of an output expression. -/
def filters : Token → List Filter
  | .data _ _ filters => filters.getD []
  | _ => []

/-- The number of characters of a raw block. -/
def rawLength : Token → Nat
  | .rawFunction _ _ content => content.length
  | _ => 0

end Token

/-- How many tokens are of a kind. -/
def TokenKind.occurrences (kind : TokenKind) (tokens : List Token) : Nat :=
  tokens.countP fun t => t.kind == kind

/-- The figures but for the depth of brackets are those of some tokens. -/
structure Metrics.Counts (m : Metrics) (tokens : List Token) : Prop where
  total : m.total = tokens.length
  text : m.text = TokenKind.text.occurrences tokens
  data : m.data = TokenKind.data.occurrences tokens
  comments : m.comments = TokenKind.comment.occurrences tokens
  functions : m.functions = TokenKind.function.occurrences tokens
  rawFunctions : m.rawFunctions = TokenKind.rawFunction.occurrences tokens
  filters : m.filters = (tokens.flatMap Token.filters).length
  longestRawBlock : m.longestRawBlock = greatest (tokens.map Token.rawLength)

theorem TokenKind.occurrences_cons (kind : TokenKind) (t : Token) (tokens : List Token) :
    kind.occurrences (t :: tokens) =
      kind.occurrences tokens + if t.kind == kind then 1 else 0 := List.countP_cons ..

theorem TokenKind.occurrences_concat (kind : TokenKind) (tokens : List Token) (t : Token) :
    kind.occurrences (tokens ++ [t]) =
      kind.occurrences tokens + if t.kind == kind then 1 else 0 := by
  rw [occurrences, List.countP_append, List.countP_singleton, occurrences]

/-- Every token but the end of input is of one of five kinds. -/
theorem occurrences_add_eq_length {tokens : List Token} (h : ∀ t ∈ tokens, t ≠ .eof) :
    TokenKind.text.occurrences tokens + TokenKind.data.occurrences tokens +
        TokenKind.comment.occurrences tokens + TokenKind.function.occurrences tokens +
        TokenKind.rawFunction.occurrences tokens = tokens.length := by
  induction tokens with
  | nil => rfl
  | cons t tokens ih =>
      rw [List.forall_mem_cons] at h
      have hrest := ih h.2
      simp only [TokenKind.occurrences_cons, List.length_cons]
      cases t with
      | eof => exact absurd rfl h.1
      | comment | text | data | function | rawFunction => simp [Token.kind]; omega

/-- The deepest bracket nesting of the argument lists of some tokens: 0 where none has a list, and
otherwise 1 and the deepest nesting of an argument. -/
def argumentDepth (tokens : List Token) : Nat :=
  match tokens.filterMap Token.args? with
  | [] => 0
  | lists => 1 + greatest (lists.flatten.map bracketNesting)

/-- The depth of an argument list, 0 for want of one. -/
def argsDepth : Option (List String) → Nat
  | none => 0
  | some args => listDepth args

theorem greatest_listDepth_cons (list : List String) (lists : List (List String)) :
    greatest ((list :: lists).map listDepth) =
      1 + greatest ((list :: lists).flatten.map bracketNesting) := by
  induction lists generalizing list with
  | nil => simp [listDepth]
  | cons next lists ih =>
      rw [List.map_cons, greatest_cons, ih, List.flatten_cons (l := list), List.map_append,
        greatest_append, listDepth]
      omega

theorem argumentDepth_eq_greatest (tokens : List Token) :
    argumentDepth tokens = greatest ((tokens.filterMap Token.args?).map listDepth) := by
  unfold argumentDepth
  split
  · next h => rw [h]; rfl
  · next hne =>
      obtain ⟨list, lists, h⟩ := List.exists_cons_of_ne_nil hne
      rw [h, greatest_listDepth_cons]

theorem argumentDepth_concat (tokens : List Token) (t : Token) :
    argumentDepth (tokens ++ [t]) = max (argumentDepth tokens) (argsDepth t.args?) := by
  rw [argumentDepth_eq_greatest, argumentDepth_eq_greatest, List.filterMap_append,
    List.map_append, greatest_append]
  cases h : t.args? with
  | none => simp [h, argsDepth]
  | some args => simp [h, argsDepth]

/-! ### What changes the figures -/

namespace Metrics

variable {p : Preferences} {m : Metrics} {tokens : List Token} {pending : Nat}

/-- The figures are those of some tokens, and of argument lists that are `pending` deep and whose
tokens are still to come. -/
structure Tallies [Limits] (p : Preferences) (tokens : List Token) (pending : Nat) (m : Metrics) :
    Prop where
  counts : p.detailedMetrics = true → m.Counts tokens
  bound : m.maxBracketDepth ≤ Limits.bracketDepth
  depth : p.transparent ∉ p.rawFunctions →
    m.maxBracketDepth = max (argumentDepth tokens) pending

theorem maxBracketDepth_count (m : Metrics) (detailed : Bool) (token : Token) :
    (m.count detailed token).maxBracketDepth = m.maxBracketDepth := by
  cases detailed with
  | false => rfl
  | true => cases token <;> rfl

theorem Counts.count (h : m.Counts tokens) {token : Token} (hne : token ≠ .eof) :
    (m.count true token).Counts (tokens ++ [token]) := by
  cases token with
  | eof => exact absurd rfl hne
  | comment | text | data | function | rawFunction =>
      constructor <;>
        simp [Metrics.count, countKind, TokenKind.occurrences_concat, h.total, h.text, h.data,
          h.comments, h.functions, h.rawFunctions, h.filters, h.longestRawBlock,
          Token.kind, Token.filters, Token.rawLength]

variable [Limits]

/-- Counting a token settles the depth of its own list. -/
theorem Tallies.count {token : Token}
    (h : m.Tallies p tokens (max pending (argsDepth token.args?))) (hne : token ≠ .eof) :
    (m.count p.detailedMetrics token).Tallies p (tokens ++ [token]) pending where
  counts hd := by
    rw [hd]
    exact (h.counts hd).count hne
  bound := by
    rw [maxBracketDepth_count]
    exact h.bound
  depth ht := by
    rw [maxBracketDepth_count, h.depth ht, argumentDepth_concat]
    omega

/-- Noting a list makes it pending. -/
theorem Tallies.note {list : ArgumentList} (h : m.Tallies p tokens pending)
    (hdepth : list.maxDepth = listDepth list.args) (hle : list.maxDepth ≤ Limits.bracketDepth) :
    (m.noteDepth list.maxDepth).Tallies p tokens (max pending (listDepth list.args)) where
  counts hd :=
    have hcounts := h.counts hd
    ⟨hcounts.total, hcounts.text, hcounts.data, hcounts.comments, hcounts.functions,
      hcounts.rawFunctions, hcounts.filters, hcounts.longestRawBlock⟩
  bound := max_le h.bound hle
  depth ht := by
    rw [noteDepth, h.depth ht, hdepth]
    exact max_assoc _ _ _

end Metrics

/-- What is known of the token and the list of a piece. -/
theorem Piece.args_of_token [Limits] {p : Preferences} {block : Option String}
    {chunk after : List Char} {token : Token} {list : Option ArgumentList}
    (hp : Piece p block chunk after (.token token list)) :
    token.args? = list.map ArgumentList.args ∧ ∀ list' ∈ list,
      list'.maxDepth = listDepth list'.args ∧ list'.maxDepth ≤ Limits.bracketDepth := by
  cases hp with
  | comment => exact ⟨rfl, nofun⟩
  | data => exact ⟨rfl, nofun⟩
  | function _ _ hl =>
      refine ⟨rfl, ?_⟩
      rintro list' ⟨⟩
      exact hl.maxDepth_eq

/-- What is known of the opener of a raw block. -/
theorem Piece.list_of_enter [Limits] {p : Preferences} {block : Option String}
    {chunk after name : List Char} {list : Option ArgumentList}
    (hp : Piece p block chunk after (.enter name list)) :
    p.isRawFunction (String.ofList name) = true ∧ ∀ list' ∈ list,
      list'.maxDepth = listDepth list'.args ∧ list'.maxDepth ≤ Limits.bracketDepth := by
  cases hp with
  | enter _ hraw hl =>
      refine ⟨hraw, ?_⟩
      rintro list' ⟨⟩
      exact hl.maxDepth_eq

namespace Lexer

variable {p : Preferences} {l : Lexer} {done : List Token} {pending : Nat}

section
variable [Limits]

/-- The figures of the lexer are those of the tokens `done` and of its queue, and of lists that are
`pending` deep. -/
structure Figures (p : Preferences) (done : List Token) (pending : Nat) (l : Lexer) : Prop where
  preferences : l.preferences = p
  tallies : l.metrics.Tallies p (done ++ l.queue.map (·.value)) pending

theorem Figures.emitTo (token : Token) (stop : Position)
    (h : Figures p done (max pending (argsDepth token.args?)) l) (hne : token ≠ .eof) :
    Figures p done pending (l.emitTo stop token) where
  preferences := h.preferences
  tallies := by
    have htallies := h.tallies.count hne
    rw [List.append_assoc] at htallies
    simp only [Lexer.emitTo, List.map_append, List.map_singleton, h.preferences]
    exact htallies

theorem Figures.flushText (h : Figures p done pending l) (stop : Position) :
    Figures p done pending (l.flushText stop) := by
  unfold Lexer.flushText
  split
  · exact h
  · rw [← Nat.max_zero pending] at h
    have hemit := Figures.emitTo (.text l.text) stop h (by simp)
    exact ⟨hemit.preferences, hemit.tallies⟩

theorem Figures.noteList {list : Option ArgumentList} (h : Figures p done pending l)
    (hl : ∀ list' ∈ list, list'.maxDepth = listDepth list'.args ∧
      list'.maxDepth ≤ Limits.bracketDepth) :
    Figures p done (max pending (argsDepth (list.map ArgumentList.args))) (l.noteList list) := by
  cases list with
  | none =>
      rw [Option.map_none, argsDepth, Nat.max_zero]
      exact h
  | some list' => exact ⟨h.preferences, h.tallies.note (hl list' rfl).1 (hl list' rfl).2⟩

/-- Ending a raw block settles the depth of its list. -/
theorem Figures.closeRaw {block : RawBlock} (h : Figures p done (argsDepth block.args) l)
    (hraw : p.isRawFunction block.name = true) : Figures p done 0 (l.closeRaw block) := by
  have hp := h.preferences
  subst hp
  simp only [Lexer.closeRaw]
  by_cases ht : l.preferences.isTransparent block.name = true
  · -- where the blocks of a raw directive are transparent, nothing is said of the depth
    have hmem : l.preferences.transparent ∈ l.preferences.rawFunctions := by
      rw [Preferences.isTransparent, beq_iff_eq] at ht
      rwa [Preferences.isRawFunction, List.contains_iff_mem, ← ht] at hraw
    rw [if_pos ht]
    exact Figures.flushText (l := { l with mode := .template })
      ⟨rfl, h.tallies.counts, h.tallies.bound, fun hno => absurd hmem hno⟩ _
  · rw [if_neg ht]
    rw [← Nat.zero_max (argsDepth block.args)] at h
    have hemit := Figures.emitTo (l := { l with mode := .template })
      (.rawFunction block.name block.args l.text) l.cursor.position ⟨rfl, h.tallies⟩ (by simp)
    exact ⟨rfl, hemit.tallies⟩

end

/-- How deep the list of the open raw block is. -/
def openDepth (l : Lexer) : Nat :=
  match l.mode with
  | .raw block => argsDepth block.args
  | .template => 0

/-- The open raw block is one of a raw directive. -/
def OpensRaw (p : Preferences) (l : Lexer) : Prop :=
  ∀ block, l.mode = .raw block → p.isRawFunction block.name = true

theorem openDepth_of_template (hm : l.mode = .template) : l.openDepth = 0 := by
  rw [openDepth, hm]

theorem opensRaw_of_template (hm : l.mode = .template) : OpensRaw p l := by
  intro block hraw
  rw [hm] at hraw
  cases hraw

section
variable [Limits]

/-- Outside raw blocks no list is pending. -/
theorem Figures.settled (h : Figures p done 0 l) (hm : l.mode = .template) :
    Figures p done l.openDepth l ∧ OpensRaw p l := by
  rw [openDepth_of_template hm]
  exact ⟨h, opensRaw_of_template hm⟩

/-- **Reading a piece keeps the figures** those of the tokens, and of the list of the raw block that
is open then. -/
theorem Figures.perform {chunk after : List Char} {e : Effect} (h : Figures p done l.openDepth l)
    (ho : OpensRaw p l) (hp : Piece l.preferences l.openName? chunk after e) (n : Nat) :
    Figures p done (l.perform n e).openDepth (l.perform n e) ∧ OpensRaw p (l.perform n e) := by
  cases e with
  | hold value => exact ⟨⟨h.preferences, h.tallies⟩, ho⟩
  | token token list =>
      have hm := mode_of_openName?_none hp.block_of_token
      have hmode : (l.perform n (.token token list)).mode = .template := by
        simp only [Lexer.perform, Lexer.emit, Lexer.emitTo, mode_flushText, mode_noteList, hm]
      rw [openDepth_of_template hm] at h
      refine Figures.settled ?_ hmode
      obtain ⟨hargs, hlist⟩ := hp.args_of_token
      have hpast : Figures p done 0 { l with cursor := l.cursor.skip n } :=
        ⟨h.preferences, h.tallies⟩
      have hnote := hpast.noteList hlist
      rw [← hargs] at hnote
      exact (hnote.flushText _).emitTo token _ hp.token_ne_eof
  | enter name list =>
      have hm := mode_of_openName?_none hp.block_of_enter
      obtain ⟨hraw, hlist⟩ := hp.list_of_enter
      rw [openDepth_of_template hm] at h
      have hnote := (h.flushText l.cursor.position).noteList hlist
      rw [Nat.zero_max] at hnote
      rw [h.preferences] at hraw
      refine ⟨⟨hnote.preferences, hnote.tallies⟩, ?_⟩
      intro block hblock
      cases hblock
      exact hraw
  | leave =>
      cases hm : l.mode with
      | template =>
          simp only [Lexer.perform, hm]
          exact ⟨h, ho⟩
      | raw block =>
          have hdepth : l.openDepth = argsDepth block.args := by rw [openDepth, hm]
          rw [hdepth] at h
          have hpast : Figures p done (argsDepth block.args)
              { l with cursor := l.cursor.skip n, mode := .raw block } := ⟨h.preferences, h.tallies⟩
          simp only [Lexer.perform, hm]
          exact (hpast.closeRaw (ho block hm)).settled (mode_closeRaw _ block)

/-- So does the end of input. -/
theorem Figures.finish (h : Figures p done l.openDepth l) (ho : OpensRaw p l) :
    Figures p done l.finish.openDepth l.finish ∧ OpensRaw p l.finish := by
  cases hm : l.mode with
  | template =>
      have hmode : l.finish.mode = .template := by simp only [Lexer.finish, hm, mode_flushText]
      rw [openDepth_of_template hm] at h
      refine Figures.settled ?_ hmode
      have hflush := h.flushText l.cursor.position
      simp only [Lexer.finish, hm]
      exact ⟨hflush.preferences, hflush.tallies⟩
  | raw block =>
      cases hs : l.preferences.strict with
      | true =>
          simp only [Lexer.finish, hm, hs, if_true]
          exact ⟨⟨h.preferences, h.tallies⟩, ho⟩
      | false =>
          have hmode : l.finish.mode = .template := by
            simp only [Lexer.finish, hm, hs, Bool.false_eq_true, if_false, mode_flushText,
              mode_closeRaw]
          have hdepth : l.openDepth = argsDepth block.args := by rw [openDepth, hm]
          rw [hdepth] at h
          refine Figures.settled ?_ hmode
          have hflush := (h.closeRaw (ho block hm)).flushText l.cursor.position
          simp only [Lexer.finish, hm, hs, Bool.false_eq_true, if_false]
          exact ⟨hflush.preferences, hflush.tallies⟩

/-- **A step keeps the figures**, also where it fails. -/
theorem Figures.step (h : Figures p done l.openDepth l) (ho : OpensRaw p l) :
    Figures p done l.step.openDepth l.step ∧ OpensRaw p l.step := by
  by_cases hr : l.cursor.rest = []
  · rw [step_nil hr]
    exact h.finish ho
  · rcases step_cases l hr with ⟨chunk, after, e, -, hp, hstep⟩ | ⟨-, e, hstep⟩ | ⟨hat, e, hstep⟩
    · rw [hstep]
      exact h.perform ho hp chunk.length
    · rw [hstep]
      exact ⟨⟨h.preferences, h.tallies⟩, ho⟩
    · have hmode : (l.flushText l.cursor.position).mode = .template :=
        (mode_flushText _ _).trans hat.1
      rw [openDepth_of_template hat.1] at h
      have hflush := h.flushText l.cursor.position
      rw [hstep]
      exact Figures.settled ⟨hflush.preferences, hflush.tallies⟩ hmode

/-- A step that ends the input leaves no raw block open. -/
theorem mode_of_finished_step (hi : l.Idle) (hf : l.step.finished ≠ none) :
    l.step.mode = .template := by
  by_cases hr : l.cursor.rest = []
  · rw [step_nil hr] at hf ⊢
    simp only [Lexer.finish] at hf ⊢
    split at hf
    · split at hf
      · exact absurd hi.finished hf
      · next hs =>
          rw [if_neg hs]
          exact (mode_flushText _ _).trans (mode_closeRaw _ _)
    · next hm => exact (mode_flushText _ _).trans hm
  · by_cases he : l.step.error = none
    · exact absurd ((frame_step hr he).finished.trans hi.finished) hf
    · obtain ⟨e, he⟩ := Option.ne_none_iff_exists'.mp he
      rcases step_failed hi.error he with ⟨-, hstep⟩ | ⟨-, hstep⟩
      · rw [hstep] at hf
        exact absurd hi.finished hf
      · rw [hstep, finished_fail, finished_flushText] at hf
        exact absurd hi.finished hf

/-! ### All tokens that were queued -/

/-- The figures of the lexer are those of the ledger and of the list of the open raw block. -/
structure Accounted (p : Preferences) (ledger : List LocatedToken) (l : Lexer) : Prop where
  preferences : l.preferences = p
  tallies : l.metrics.Tallies p (ledger.map (·.value)) l.openDepth
  opened : OpensRaw p l
  finished : l.finished ≠ none → l.mode = .template

theorem accounted_ofSource (source : String) (p : Preferences) :
    Accounted p [] (ofSource source p) where
  preferences := rfl
  tallies := ⟨fun _ => ⟨rfl, rfl, rfl, rfl, rfl, rfl, rfl, rfl⟩, Nat.zero_le _, fun _ => rfl⟩
  opened := opensRaw_of_template rfl
  finished _ := rfl

/-- **The figures are those of the ledger, in every state.** -/
theorem tallied_accounted (p : Preferences) : Tallied (Accounted p) where
  pulled _ _ h := ⟨h.preferences, h.tallies, h.opened, h.finished⟩
  step := by
    intro ledger l h hi
    have hfigures : Figures p (ledger.map (·.value)) l.openDepth l :=
      ⟨h.preferences, by rw [hi.queue, List.map_nil, List.append_nil]; exact h.tallies⟩
    obtain ⟨hstep, hopened⟩ := hfigures.step h.opened
    refine ⟨hstep.preferences, ?_, hopened, mode_of_finished_step hi⟩
    rw [List.map_append]
    exact hstep.tallies
  limit _ h _ := ⟨h.preferences, h.tallies, h.opened, h.finished⟩

theorem ne_eof_of_mem_ledger {calls : List Call} :
    ∀ t ∈ (l.ledger calls).map (·.value), t ≠ .eof := by
  intro t ht
  obtain ⟨located, hmem, rfl⟩ := List.mem_map.mp ht
  have hkept := (List.mem_filter.mp hmem).2
  rwa [Bool.not_eq_true', ← Bool.not_eq_true, isEof_eq_true_iff] at hkept

/-- **Metrics describe the tokens produced.**

After any looks and pulls, the metrics of a lexer that gathers all of them are those of the tokens
that were taken and those that wait, and its five kinds of token make up the total.  Once the input
has ended, which it has when a reply says so, and unless the blocks of a raw directive are
transparent, the depth is that of all argument lists; in any case it is within the limit.  A lexer
that gathers only totals has the same total and the same depth. -/
theorem metrics_after {calls : List Call} (hno : Call.collect ∉ calls) (source : String)
    (p : Preferences) :
    let l := (ofSource source p.detailed).after calls
    let tokens := ((ofSource source p.detailed).ledger calls).map (·.value)
    l.metrics.Counts tokens ∧
      l.metrics.text + l.metrics.data + l.metrics.comments + l.metrics.functions +
          l.metrics.rawFunctions = l.metrics.total ∧
      (l.finished ≠ none → p.transparent ∉ p.rawFunctions →
        l.metrics.maxBracketDepth = argumentDepth tokens) ∧
      ((∃ t ∈ ((ofSource source p.detailed).replies calls).flatMap Reply.delivered,
        t.value = .eof) → l.finished ≠ none) ∧
      l.metrics.maxBracketDepth ≤ Limits.bracketDepth ∧
      ((ofSource source p.totalsOnly).after calls).metrics = l.metrics.totals := by
  intro l tokens
  have hstart : Accounted p.detailed (contents (ofSource source p.detailed).waiting) _ :=
    accounted_ofSource source p.detailed
  obtain ⟨_, -, heq, h⟩ := (tallied_accounted p.detailed).ledger hstart calls
  cases heq hno
  have hcounts : l.metrics.Counts tokens := h.tallies.counts rfl
  refine ⟨hcounts, ?_, fun hf ht => ?_, fun hend => ?_, h.tallies.bound, ?_⟩
  · rw [hcounts.text, hcounts.data, hcounts.comments, hcounts.functions, hcounts.rawFunctions,
      hcounts.total]
    exact occurrences_add_eq_length ne_eof_of_mem_ledger
  · have hdepth := h.tallies.depth ht
    rwa [openDepth_of_template (h.finished hf), Nat.max_zero] at hdepth
  · have hlast : (ofSource source p.detailed).EndLast :=
      ⟨reached_sound .start, by simp [ofSource]⟩
    obtain ⟨stop, hstop⟩ := (hlast.after calls hend).finished
    rw [hstop]
    exact Option.some_ne_none stop
  · exact congrArg Lexer.metrics (totalsOnly_after (ofSource source p.detailed) calls)

end

/-- Looking at the first token of `{{ x }}@if(a[0])`, then taking all of them and the end. -/
theorem metrics_after_three :
    Call.collect ∉ [Call.peek, .next, .next, .next] ∧
    let p : Preferences := { transparent := "" }
    let l := (ofSource "\x7b\x7b x \x7d\x7d@if(a[0])" p.detailed).after [.peek, .next, .next, .next]
    let tokens := ((ofSource "\x7b\x7b x \x7d\x7d@if(a[0])" p.detailed).ledger
      [.peek, .next, .next, .next]).map (·.value)
    l.metrics.Counts tokens ∧
      l.metrics.text + l.metrics.data + l.metrics.comments + l.metrics.functions +
          l.metrics.rawFunctions = l.metrics.total ∧
      l.metrics.maxBracketDepth = argumentDepth tokens := by
  have hno : Call.collect ∉ [Call.peek, .next, .next, .next] := by decide
  obtain ⟨hcounts, hsum, hdepth, -⟩ :=
    metrics_after hno "\x7b\x7b x \x7d\x7d@if(a[0])" { transparent := "" }
  exact ⟨hno, hcounts, hsum, hdepth (by decide +kernel) (by decide +kernel)⟩

end Lexer

end Blade
