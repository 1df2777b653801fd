import Blade.Limits.Development
import Blade.Proofs.PrintedExpression
import Blade.Proofs.Spans

/-!
# Proofs — Reprint

The tokens of a source printed and read again.  Printing respaces output expressions and argument
lists and copies everything else, so that what follows a piece starts as before (`Agree`): no piece
that was cut off grows, shrinks or fuses with the next one.

* `exists_reprinted_token`, `exists_reprinted_enter`: a printed token is a piece, in front of
  whatever agrees with what it was read in front of, but for empty last arguments (`Token.reread`).
* `reprints_of_lexes`: what is cut up is cut up into the same tokens when it is printed.
* `collect_printAll`: lexing the printed tokens of a source delivers them again, when no text holds
  an escape and no argument list ends with an empty argument.
-/

namespace Blade

/-! ### What follows a piece -/

/-- What a piece sees of `rest'` behind it, it sees of `rest`. -/
structure Agree (rest rest' : List Char) : Prop where
  head : ∀ c ∈ rest'.head?, c ∈ rest.head?
  bangs : ['!', '!'] <+: rest' → ['!', '!'] <+: rest
  list : ∀ gap : Char → Bool, gap '@' = false → gap '{' = false → OpensList gap rest' →
    OpensList gap rest

namespace Agree

variable {rest rest' : List Char}

theorem nil (rest : List Char) : Agree rest [] :=
  ⟨by simp, by simp, by simp [OpensList]⟩

theorem cons (c : Char) (h : Agree rest rest') : Agree (c :: rest) (c :: rest') := by
  refine ⟨by simp, fun hb => ?_, fun gap hat hbrace hl => ?_⟩
  · obtain ⟨hc, hb⟩ := List.cons_prefix_cons.mp hb
    obtain ⟨after', rfl⟩ := hb
    obtain ⟨after, rfl⟩ := List.head?_eq_some_iff.mp (h.head '!' (by simp))
    exact List.cons_prefix_cons.mpr ⟨hc, List.prefix_append ['!'] after⟩
  · unfold OpensList at *
    cases hg : gap c with
    | true =>
        rw [List.dropWhile_cons_of_pos hg] at hl ⊢
        exact h.list gap hat hbrace hl
    | false =>
        rw [List.dropWhile_cons_of_neg (by simp [hg])] at hl ⊢
        exact hl

theorem append (cs : List Char) (h : Agree rest rest') : Agree (cs ++ rest) (cs ++ rest') := by
  induction cs with
  | nil => exact h
  | cons c cs ih => exact ih.cons c

/-- Behind the first character of a comment, an output expression or a directive nothing is seen. -/
theorem of_opener {c : Char} (hc : c = '@' ∨ c = '{') (cs ds : List Char) :
    Agree (c :: cs) (c :: ds) := by
  refine ⟨by simp, fun hb => ?_, fun gap hat hbrace hl => ?_⟩
  · rcases hc with rfl | rfl <;> exact absurd (List.cons_prefix_cons.mp hb).1 (by decide)
  · unfold OpensList at hl
    rcases hc with rfl | rfl
    · rw [List.dropWhile_cons_of_neg (by simp [hat])] at hl
      cases hl
    · rw [List.dropWhile_cons_of_neg (by simp [hbrace])] at hl
      cases hl

theorem stopsAt {q : Char → Bool} (h : Agree rest rest') (hs : StopsAt q rest) :
    StopsAt q rest' := fun c hc => hs c (h.head c hc)

theorem not_opensBraces {c : Char} (h : Agree rest rest') (hno : ¬ OpensBraces c rest) :
    ¬ OpensBraces c rest' := by
  rintro ⟨hc, hbangs | hbrace⟩
  · exact hno ⟨hc, .inl (h.bangs hbangs)⟩
  · obtain ⟨after', rfl⟩ := hbrace
    obtain ⟨after, rfl⟩ := List.head?_eq_some_iff.mp (h.head '{' (by simp))
    exact hno ⟨hc, .inr (List.prefix_append ['{'] after)⟩

theorem nameBefore {name : List Char} (h : Agree rest rest') (hn : NameBefore name rest) :
    NameBefore name rest' := ⟨hn.1, hn.2.1, h.stopsAt hn.2.2⟩

end Agree

/-! ### One printed token -/

/-- The argument lists of a token and its filters. -/
def Token.argLists : Token → List (List String)
  | .function _ args => args.toList
  | .rawFunction _ args _ => args.toList
  | .data _ _ filters => (filters.getD []).map Filter.args
  | _ => []

/-- The token without the empty last arguments of its argument lists. -/
def Token.reread : Token → Token
  | .function name args => .function name (args.map withoutEmptyLast)
  | .rawFunction name args content => .rawFunction name (args.map withoutEmptyLast) content
  | .data escaped value filters => .data escaped value (filters.map (·.map Filter.reread))
  | token => token

theorem map_withoutEmptyLast_eq_iff {args : Option (List String)} :
    args.map withoutEmptyLast = args ↔ ∀ list ∈ args.toList, list.getLast? ≠ some "" := by
  cases args <;> simp [withoutEmptyLast_eq_iff]

/-- That is the token itself where no argument list ends with an empty argument. -/
theorem Token.reread_eq_iff {token : Token} :
    token.reread = token ↔ ∀ args ∈ token.argLists, args.getLast? ≠ some "" := by
  cases token with
  | text | comment | eof => simp [reread, argLists]
  | function name args => simp only [reread, argLists, ← map_withoutEmptyLast_eq_iff]; simp
  | rawFunction name args content =>
      simp only [reread, argLists, ← map_withoutEmptyLast_eq_iff]
      simp
  | data escaped value filters =>
      cases filters with
      | none => simp [reread, argLists]
      | some filters => simp [reread, argLists, Filter.map_reread_eq_iff]

variable {p : Preferences} {chunk after after' name : List Char} {list : Option ArgumentList}

/-- A list that may follow a name is read when it is printed, but for an empty last argument. -/
theorem exists_reprinted_list [Limits] {gap : Char → Bool} (hat : gap '@' = false)
    (hbrace : gap '{' = false)
    (hl : ListRead true gap chunk after list) (hn : NameBefore name (chunk ++ after))
    (ha : Agree after after') :
    ∃ list', list'.map ArgumentList.args = (list.map ArgumentList.args).map withoutEmptyLast ∧
      NameBefore name ((Token.printArgs (list.map ArgumentList.args)).toList ++ after') ∧
      ListRead true gap (Token.printArgs (list.map ArgumentList.args)).toList after' list' := by
  cases hl with
  | absent hno =>
      refine ⟨none, rfl, ha.nameBefore hn, .absent fun hopen => hno ?_⟩
      exact ha.list gap hat hbrace hopen
  | @closed blanks w _ list hb hc =>
      obtain ⟨list', hclose, hsame⟩ := closes_intercalate hc.args_balanced
      have hprint : (Token.printArgs (some list.args)).toList =
          [] ++ '(' :: ((", ".intercalate list.args).toList ++ [')']) := by
        simp [Token.printArgs]
      refine ⟨some list', by simp [hsame], ⟨hn.1, hn.2.1, ?_⟩, ?_⟩
      · rw [Option.map_some, hprint]
        exact (stopsAt_cons _ _ _).mpr (by decide)
      · rw [Option.map_some, hprint]
        exact .closed (by simp) hclose
  | cut hs => cases hs

/-- The printed inside of an output expression, with a blank at each end. -/
def respaced (interior : List Char) : List Char :=
  (" " ++ Token.printExpression (Expression.parse (String.ofList interior)).value
    (Expression.parse (String.ofList interior)).filters ++ " ").toList

theorem print_dataToken (escaped : Bool) (interior : List Char) :
    (dataToken escaped interior).print.toList =
      dataOpener escaped ++ (respaced interior ++ Lexer.terminator escaped) := by
  cases escaped <;> simp [dataToken, Token.print, dataOpener, Lexer.terminator, respaced]

theorem dataToken_respaced (escaped : Bool) (interior : List Char) :
    dataToken escaped (respaced interior) = (dataToken escaped interior).reread := by
  rw [dataToken, respaced, String.ofList_toList, parse_printExpression]
  rfl

theorem respaced_eq (interior : List Char) : respaced interior =
    ' ' :: ((Token.printExpression (Expression.parse (String.ofList interior)).value
      (Expression.parse (String.ofList interior)).filters).toList ++ [' ']) := by
  simp [respaced]

theorem exists_dataOpener_eq (escaped : Bool) : ∃ cs, dataOpener escaped = '{' :: cs := by
  cases escaped <;> exact ⟨_, rfl⟩

/-- No terminator stands in the printed inside, nor across its end. -/
theorem enclosed_respaced {escaped strict : Bool} {interior : List Char}
    (h : FreeBefore (Lexer.terminator escaped) interior) (after : List Char) :
    Enclosed strict (Lexer.terminator escaped) (respaced interior ++ Lexer.terminator escaped)
      after (respaced interior) := by
  have hne := terminator_ne_nil escaped
  have hforeign : ∀ c ∈ [' ', '|', ':', ','], c ∉ Lexer.terminator escaped := by
    cases escaped <;> simp [Lexer.terminator]
  have hspace : ' ' ∉ Lexer.terminator escaped := hforeign ' ' (by simp)
  have hnil : ¬ Lexer.terminator escaped <:+: [] := fun h => hne (List.infix_nil.mp h)
  have hinside : ¬ Lexer.terminator escaped <:+: (String.ofList interior).toList := by
    rw [String.toList_ofList]
    exact h.not_infix hne
  have hprinted := not_infix_printExpression hne hforeign hinside
  have hall := not_infix_append_cons hspace (not_infix_append_cons hspace hnil hprinted) hnil
  refine .closed ?_
  rw [respaced, String.toList_append, String.toList_append]
  exact freeBefore_concat hall hspace

section
variable [Limits]

/-- A printed output expression is a piece, whatever follows it. -/
theorem piece_print_dataToken {escaped : Bool} {interior : List Char}
    (hfree : FreeBefore (Lexer.terminator escaped) interior) (after : List Char) :
    Piece p none (dataToken escaped interior).print.toList after
      (.token (dataToken escaped interior).reread none) := by
  -- the blank in front keeps the opener from starting a comment
  have hdashes : ¬ ['-', '-'] <+: respaced interior ++ Lexer.terminator escaped ++ after := by
    rw [respaced_eq]
    exact fun hpre => absurd (List.cons_prefix_cons.mp hpre).1 (by decide)
  have hdata : Piece p none _ after _ := .data (enclosed_respaced hfree after) fun _ => hdashes
  rwa [dataToken_respaced, ← print_dataToken] at hdata

/-- **A printed token is a piece**, in front of whatever agrees with what it was read in front
of. -/
theorem exists_reprinted_token {token : Token} (hs : p.strict = true)
    (hp : Piece p none chunk after (.token token list)) (ha : Agree after after') :
    (∃ list', Piece p none token.print.toList after' (.token token.reread list')) ∧
      Agree (chunk ++ after) (token.print.toList ++ after') := by
  cases hp with
  | @comment chunk _ value henc =>
      rw [hs] at henc
      obtain ⟨rfl, hfree⟩ := enclosed_strict_iff.mp henc
      have hprint : (Token.comment (String.ofList value)).print.toList =
          commentOpener ++ (value ++ commentTerminator) := by
        simp [Token.print, commentOpener, commentTerminator]
      rw [hprint]
      exact ⟨⟨none, .comment (.closed hfree)⟩, .of_opener (.inr rfl) _ _⟩
  | @data escaped chunk _ interior henc _ =>
      rw [hs] at henc
      obtain ⟨rfl, hfree⟩ := enclosed_strict_iff.mp henc
      obtain ⟨cs, hcs⟩ := exists_dataOpener_eq escaped
      refine ⟨⟨none, piece_print_dataToken hfree after'⟩, ?_⟩
      rw [print_dataToken, hcs]
      exact .of_opener (.inr rfl) _ _
  | @function name chunk _ _ hname hraw hl =>
      rw [hs] at hl
      obtain ⟨list', hsame, hname', hl'⟩ :=
        exists_reprinted_list (by decide) (by decide) hl hname ha
      have hprint (args) : (Token.function (String.ofList name) args).print.toList =
          '@' :: (name ++ (Token.printArgs args).toList) := by
        simp [Token.print]
      rw [hprint]
      refine ⟨⟨list', ?_⟩, .of_opener (.inl rfl) _ _⟩
      rw [Token.reread, ← hsame]
      exact .function hname' hraw (hs ▸ hl')

/-- The printed opener of a raw block. -/
def printedOpener (name : String) (args : Option (List String)) : List Char :=
  '@' :: (name.toList ++ (Token.printArgs args).toList)

/-- **The printed opener of a raw block is a piece**, in front of whatever agrees with what it was
read in front of. -/
theorem exists_reprinted_enter (hs : p.strict = true)
    (hp : Piece p none chunk after (.enter name list)) (ha : Agree after after') :
    (∃ list', list'.map ArgumentList.args = (list.map ArgumentList.args).map withoutEmptyLast ∧
        Piece p none (printedOpener (String.ofList name) (list.map ArgumentList.args)) after'
          (.enter name list')) ∧
      Agree (chunk ++ after)
        (printedOpener (String.ofList name) (list.map ArgumentList.args) ++ after') := by
  cases hp with
  | enter hname hraw hl =>
      rw [hs] at hl
      obtain ⟨list', hsame, hname', hl'⟩ :=
        exists_reprinted_list (by decide) (by decide) hl hname ha
      rw [printedOpener, String.toList_ofList]
      exact ⟨⟨list', hsame, .enter hname' hraw (hs ▸ hl')⟩, .of_opener (.inl rfl) _ _⟩

end

/-! ### A printed source -/

/-- The characters of printed tokens. -/
def printedCuts (cuts : List Cut) : List Char := cuts.flatMap fun cut => cut.token.print.toList

theorem printedCuts_append (cuts cuts' : List Cut) :
    printedCuts (cuts ++ cuts') = printedCuts cuts ++ printedCuts cuts' := List.flatMap_append

/-- The token is text that holds no escape, or has no argument list that ends with an empty
argument. -/
structure Reprintable (cut : Cut) : Prop where
  text : ∀ v, cut.token = .text v → v.toList = cut.slice
  args : ∀ args ∈ cut.token.argLists, args.getLast? ≠ some ""

variable {h : Held} {rest tail : List Char} {cuts : List Cut}

/-- What `h` holds back, printed. -/
def Held.printed (h : Held) : List Char :=
  match h.block with
  | none => h.text
  | some (name, args) => printedOpener name args ++ h.text

theorem printedCuts_flushed (h : Held) : printedCuts h.flushed = h.text := by
  unfold Held.flushed
  split
  · next ht => rw [ht]; rfl
  · simp [printedCuts, Token.print]

theorem not_reprintable_flushed (hne : h.text ≠ []) (hlt : h.text.length < h.chars.length) :
    ∃ cut ∈ h.flushed, ¬ Reprintable cut := by
  rw [Held.flushed, if_neg hne]
  refine ⟨_, List.mem_singleton_self _, fun hr => ?_⟩
  have := hr.text _ rfl
  rw [String.toList_ofList] at this
  rw [this] at hlt
  exact Nat.lt_irrefl _ hlt

section
variable [Limits]

/-- Once text stands for fewer characters than were read, some text token holds an escape. -/
theorem exists_escaped_text (hl : Lexes p h rest cuts tail) (hb : h.block = none)
    (hlt : h.text.length < h.chars.length)
    (hmore : h.text ≠ [] ∨ ∃ c after, rest = c :: after ∧ Text.isBlank c = true) :
    ∃ cut ∈ cuts, ¬ Reprintable cut := by
  induction hl with
  | @done h _ =>
      rcases hmore with hne | ⟨c, after, hnil, -⟩
      · rw [Held.closed, hb]
        exact not_reprintable_flushed hne hlt
      · cases hnil
  | @more h chunk after e cuts tail hp _ ih =>
      rw [Held.openName?_eq_none_iff.mpr hb] at hp
      -- in front of a token or an opener there is text, which is cut off
      have hflush : (∀ value, e ≠ .hold value) → ∃ cut ∈ h.flushed, ¬ Reprintable cut := by
        intro he
        rcases hmore with hne | ⟨c, rest, hrest, hc⟩
        · exact not_reprintable_flushed hne hlt
        · refine absurd ?_ (hp.not_stopsAt he)
          rw [hrest, stopsAt_cons, hc]
          rfl
      cases e with
      | hold value =>
          -- the text stays shorter than what was read, and is not empty from here on
          have hle := hp.length_hold_le
          have htext : h.text ++ value ≠ [] := by
            intro hnil
            obtain ⟨ht, rfl⟩ := List.append_eq_nil_iff.mp hnil
            obtain ⟨-, rfl, -⟩ := hp.hold_nil
            rcases hmore with hne | ⟨c, rest, hrest, hc⟩
            · exact hne ht
            · rw [← (List.cons.inj hrest).1] at hc
              exact absurd hc (by decide)
          exact ih hb (by simp [Held.perform]; omega) (.inl htext)
      | token token list =>
          obtain ⟨cut, hcut, hno⟩ := hflush (by simp)
          exact ⟨cut, by simp [Held.cuts, hcut], hno⟩
      | enter name list =>
          obtain ⟨cut, hcut, hno⟩ := hflush (by simp)
          exact ⟨cut, by simp [Held.cuts, hcut], hno⟩
      | leave => cases hp

/-- The raw block that is open becomes a token with its name and arguments. -/
theorem exists_rawFunction (hs : p.strict = true) (hl : Lexes p h rest cuts tail) {name : String}
    {args : Option (List String)} (hb : h.block = some (name, args))
    (ht : p.isTransparent name = false) :
    ∃ content slice, ⟨.rawFunction name args content, slice⟩ ∈ cuts := by
  induction hl with
  | done hend => simp [hb, hs] at hend
  | @more h chunk after e cuts tail hp _ ih =>
      have hname : h.openName? = some name := by rw [Held.openName?, hb]; rfl
      cases e with
      | hold value =>
          obtain ⟨content, slice, hmem⟩ := ih hb
          exact ⟨content, slice, hmem⟩
      | token token list => rw [hp.block_of_token] at hname; cases hname
      | enter name list => rw [hp.block_of_enter] at hname; cases hname
      | leave =>
          refine ⟨String.ofList h.text, h.chars ++ chunk, List.mem_append_left _ ?_⟩
          simp [Held.cuts, Held.closed, hb, ht]

/-- What `h` holds back and `rest`, cut into `cuts`, are cut into the same tokens when they are
printed, whatever characters are held back. -/
def Reprints (p : Preferences) (h : Held) (rest : List Char) (cuts : List Cut) : Prop :=
  ∃ rest', h.printed ++ rest' = printedCuts cuts ∧ Agree rest rest' ∧ ∀ chars, ∃ cuts' tail',
    Lexes p { h with chars } rest' cuts' tail' ∧ cuts'.map Cut.token = cuts.map Cut.token

end

theorem printed_of_none (hb : h.block = none) : h.printed = h.text := by
  rw [Held.printed, hb]

section
variable [Limits]

/-- Where no more is cut off than the text held back, that is all there is to print. -/
theorem reprints_flushed (hb : h.block = none) (rest : List Char) :
    Reprints p h rest h.flushed := by
  refine ⟨[], ?_, .nil rest, fun chars => ?_⟩
  · rw [List.append_nil, printed_of_none hb, printedCuts_flushed]
  · refine ⟨_, _, .done (.inl hb), ?_⟩
    rw [Held.closed, hb]
    exact Held.map_token_flushed h chars

/-- Text that stands for itself is printed as it is. -/
theorem reprints_hold (hp : ∀ after', Agree after after' →
      Piece p h.openName? chunk after' (.hold chunk))
    (ih : Reprints p (h.perform p chunk (.hold chunk)) after cuts) :
    Reprints p h (chunk ++ after) cuts := by
  obtain ⟨rest', hprint, hagree, hlex⟩ := ih
  refine ⟨chunk ++ rest', ?_, hagree.append chunk, fun chars => ?_⟩
  · rw [← hprint, Held.printed, Held.printed, Held.perform]
    cases h.block <;> simp [List.append_assoc]
  · obtain ⟨cuts', tail', hl', htokens⟩ := hlex (chars ++ chunk)
    exact ⟨cuts', tail', .more (h := { h with chars }) (hp _ hagree) hl', htokens⟩

theorem reprints_token {token : Token} (hs : p.strict = true) (hb : h.block = none)
    (hp : Piece p none chunk after (.token token list))
    (hargs : ∀ args ∈ token.argLists, args.getLast? ≠ some "")
    (ih : Reprints p (h.perform p chunk (.token token list)) after cuts) :
    Reprints p h (chunk ++ after) (h.cuts p chunk (.token token list) ++ cuts) := by
  obtain ⟨rest', hprint, hagree, hlex⟩ := ih
  obtain ⟨⟨list', hp'⟩, hagree'⟩ := exists_reprinted_token hs hp hagree
  rw [Token.reread_eq_iff.mpr hargs] at hp'
  rw [printed_of_none (by exact hb)] at hprint
  refine ⟨token.print.toList ++ rest', ?_, hagree', fun chars => ?_⟩
  · rw [printed_of_none hb, ← List.append_assoc, printedCuts_append, Held.cuts,
      printedCuts_append, printedCuts_flushed, ← hprint]
    simp [Held.perform, printedCuts]
  · obtain ⟨cuts', tail', hl', htokens⟩ := hlex []
    have hopen : ({ h with chars } : Held).openName? = none := Held.openName?_eq_none_iff.mpr hb
    refine ⟨{ h with chars }.cuts p token.print.toList (.token token list') ++ cuts', tail',
      .more (h := { h with chars }) (hopen ▸ hp') hl', ?_⟩
    simp [Held.cuts, Held.map_token_flushed, htokens]

theorem reprints_enter (hs : p.strict = true) (hb : h.block = none)
    (hp : Piece p none chunk after (.enter name list))
    (hargs : ∀ args ∈ list.map ArgumentList.args, args.getLast? ≠ some "")
    (ih : Reprints p (h.perform p chunk (.enter name list)) after cuts) :
    Reprints p h (chunk ++ after) (h.cuts p chunk (.enter name list) ++ cuts) := by
  obtain ⟨rest', hprint, hagree, hlex⟩ := ih
  obtain ⟨⟨list', hsame, hp'⟩, hagree'⟩ := exists_reprinted_enter hs hp hagree
  rw [map_withoutEmptyLast_eq_iff.mpr (by simpa using hargs)] at hsame
  let opener := printedOpener (String.ofList name) (list.map ArgumentList.args)
  refine ⟨opener ++ rest', ?_, hagree', fun chars => ?_⟩
  · rw [printed_of_none hb, printedCuts_append, Held.cuts, printedCuts_flushed, ← hprint]
    simp [Held.perform, Held.printed, opener]
  · let h' : Held := { h with chars }
    obtain ⟨cuts', tail', hl', htokens⟩ := hlex (h'.kept ++ opener)
    have hopen : h'.openName? = none := Held.openName?_eq_none_iff.mpr hb
    have hl'' : Lexes p (h'.perform p opener (.enter name list')) rest' cuts' tail' := by
      rw [Held.perform, hsame]
      exact hl'
    refine ⟨h'.cuts p opener (.enter name list') ++ cuts', tail', .more (hopen ▸ hp') hl'', ?_⟩
    simp [Held.cuts, h', Held.map_token_flushed, htokens]

theorem reprints_leave {block : String × Option (List String)} (hb : h.block = some block)
    (ht : p.isTransparent block.1 = false) (hp : Piece p (some block.1) chunk after .leave)
    (ih : Reprints p (h.perform p chunk .leave) after cuts) :
    Reprints p h (chunk ++ after) (h.cuts p chunk .leave ++ cuts) := by
  obtain ⟨rest', hprint, hagree, hlex⟩ := ih
  have hclosed : ∀ h' : Held, h'.block = some block →
      h'.closed p = [⟨.rawFunction block.1 block.2 (String.ofList h'.text), h'.chars⟩] ∧
        h'.left p = [] := by
    intro h' hb'
    simp [Held.closed, Held.left, hb', ht]
  cases hp with
  | @leave _ name _ hname heq =>
      have hname' : name = "end".toList ++ block.1.toList := by
        rw [← String.toList_append, ← heq, String.toList_ofList]
      have hrest : rest' = printedCuts cuts := by
        rw [← hprint, printed_of_none (by rfl)]
        rfl
      refine ⟨'@' :: name ++ rest', ?_, .of_opener (.inl rfl) _ _, fun chars => ?_⟩
      · rw [printedCuts_append, Held.cuts, (hclosed _ (by exact hb)).1, Held.printed, hb, hrest]
        simp [printedCuts, Token.print, printedOpener, hname']
      · obtain ⟨cuts', tail', hl', htokens⟩ := hlex []
        let h' : Held := { h with chars }
        have hopen : h'.openName? = some block.1 := by rw [Held.openName?, hb]; rfl
        have hl'' : Lexes p (h'.perform p ('@' :: name) .leave) rest' cuts' tail' := by
          rw [Held.perform, (hclosed _ (by exact hb)).2]
          exact hl'
        refine ⟨h'.cuts p ('@' :: name) .leave ++ cuts', tail',
          .more (hopen ▸ .leave (hagree.nameBefore hname) heq) hl'', ?_⟩
        rw [Held.cuts, Held.cuts, (hclosed _ (by exact hb)).1, (hclosed _ (by exact hb)).1]
        simp [htokens, h']

/-! ### Every cut -/

/-- A piece of text stands for itself, also in front of less, or is an escape. -/
theorem Piece.hold_cases {block : Option String} {value : List Char}
    (hp : Piece p block chunk after (.hold value)) :
    (value = chunk ∧ ∀ after', Agree after after' → Piece p block chunk after' (.hold chunk)) ∨
      (block = none ∧ chunk = '@' :: value ∧ StopsAt (fun c => !Text.isBlank c) after) := by
  cases hp with
  | plain hc hno => exact .inl ⟨rfl, fun _ ha => .plain hc (ha.not_opensBraces hno)⟩
  | escape _ _ hstop => exact .inr ⟨rfl, rfl, hstop⟩
  | body hc => exact .inl ⟨rfl, fun _ _ => .body hc⟩
  | lone hs => exact .inl ⟨rfl, fun _ ha => .lone (ha.stopsAt hs)⟩
  | other hn hne => exact .inl ⟨rfl, fun _ ha => .other (ha.nameBefore hn) hne⟩

/-- The text held back stands for itself, and the raw block that is open becomes a token. -/
structure Unescaped (p : Preferences) (h : Held) : Prop where
  chars : h.block = none → h.chars = h.text
  block : ∀ block, h.block = some block → p.isTransparent block.1 = false

/-- At the end of input nothing more is cut off. -/
theorem Lexes.cuts_of_nil (hl : Lexes p h [] cuts tail) : cuts = h.closed p := by
  generalize hr : ([] : List Char) = rest at hl
  cases hl with
  | done => rfl
  | more hp _ => exact absurd (List.append_eq_nil_iff.mp hr.symm).1 hp.ne_nil

/-- An escape stands where the input ends, since otherwise a text token would hold it. -/
theorem reprints_escape {value : List Char} (hu : Unescaped p h) (hb : h.block = none)
    (hstop : StopsAt (fun c => !Text.isBlank c) after)
    (hl : Lexes p (h.perform p ('@' :: value) (.hold value)) after cuts tail)
    (hr : ∀ cut ∈ cuts, Reprintable cut) : Reprints p h ('@' :: value ++ after) cuts := by
  have hlt : (h.text ++ value).length < (h.chars ++ '@' :: value).length := by
    simp [hu.chars hb]
  have hnone : ¬ (h.text ++ value ≠ [] ∨ ∃ c rest, after = c :: rest ∧ Text.isBlank c = true) := by
    intro hmore
    obtain ⟨cut, hcut, hno⟩ := exists_escaped_text hl hb hlt hmore
    exact hno (hr cut hcut)
  obtain ⟨hempty, hblank⟩ := not_or.mp hnone
  obtain ⟨htext, rfl⟩ := List.append_eq_nil_iff.mp (not_not.mp hempty)
  cases after with
  | cons c rest => exact absurd ⟨c, rest, rfl, by simpa using hstop⟩ hblank
  | nil =>
      have hcuts : cuts = h.flushed := by
        rw [hl.cuts_of_nil, Held.closed]
        simp only [Held.perform, hb, Held.flushed, List.append_nil, htext, if_true]
      rw [hcuts]
      exact reprints_flushed hb _

/-- **What is cut up is cut up into the same tokens when it is printed.** -/
theorem reprints_of_lexes (hs : p.strict = true) (ht : p.transparent ∉ p.rawFunctions)
    (hl : Lexes p h rest cuts tail) (hu : Unescaped p h) (hr : ∀ cut ∈ cuts, Reprintable cut) :
    Reprints p h rest cuts := by
  induction hl with
  | @done h hend =>
      have hb : h.block = none := hend.resolve_right (by simp [hs])
      rw [Held.closed, hb]
      exact reprints_flushed hb []
  | @more h chunk after e cuts tail hp hl ih =>
      obtain ⟨hnow, hlater⟩ := List.forall_mem_append.mp hr
      cases e with
      | hold value =>
          rcases hp.hold_cases with ⟨rfl, hagain⟩ | ⟨hb, rfl, hstop⟩
          · refine reprints_hold hagain (ih ⟨fun hb => ?_, hu.block⟩ hlater)
            rw [Held.perform, hu.chars hb]
          · exact reprints_escape hu (Held.openName?_eq_none_iff.mp hb) hstop hl hlater
      | token token list =>
          have hb := Held.openName?_eq_none_iff.mp hp.block_of_token
          rw [hp.block_of_token] at hp
          have hargs := (hnow ⟨token, h.kept ++ chunk⟩ (by simp [Held.cuts])).args
          exact reprints_token hs hb hp hargs (ih ⟨fun _ => rfl, hu.block⟩ hlater)
      | enter name list =>
          have hb := Held.openName?_eq_none_iff.mp hp.block_of_enter
          rw [hp.block_of_enter] at hp
          have htrans := hp.not_transparent_of_enter ht
          -- the arguments of the opener are those of the raw function it becomes
          obtain ⟨content, slice, hmem⟩ := exists_rawFunction hs hl rfl htrans
          have hargs := (hlater _ hmem).args
          refine reprints_enter hs hb hp (by simpa [Token.argLists] using hargs)
            (ih ⟨fun hno => ?_, fun _ hopen => ?_⟩ hlater)
          · cases hno
          · cases hopen
            exact htrans
      | leave =>
          cases hb : h.block with
          | none => rw [Held.openName?_eq_none_iff.mpr hb] at hp; cases hp
          | some block =>
              have htrans := hu.block block hb
              rw [Held.openName?, hb] at hp
              refine reprints_leave hb htrans hp (ih ⟨fun _ => ?_, fun _ hno => ?_⟩ hlater)
              · simp [Held.perform, Held.left, hb, htrans]
              · cases hno

end

/-! ### A whole source -/

theorem toList_printAll (tokens : List Token) :
    (Token.printAll tokens).toList = tokens.flatMap fun token => token.print.toList := by
  have hfold : ∀ out : String, (tokens.foldl (fun out token => out ++ token.print) out).toList =
      out.toList ++ tokens.flatMap fun token => token.print.toList := by
    induction tokens with
    | nil => simp
    | cons token tokens ih => simp [ih]
  exact hfold ""

variable {source : String} {tokens : List LocatedToken} {eof : LocatedToken}

section
variable [Limits]

/-- The printed tokens of a source are drained from a lexer again. -/
theorem exists_drains_printAll (hs : p.strict = true) (ht : p.transparent ∉ p.rawFunctions)
    (hd : (Lexer.ofSource source p).Drains tokens eof)
    (htext : ∀ t ∈ tokens, ∀ v, t.value = .text v → v = t.span.slice source)
    (hargs : ∀ t ∈ tokens, ∀ args ∈ t.value.argLists, args.getLast? ≠ some "") :
    ∃ tokens' eof', tokens'.map (·.value) = tokens.map (·.value) ∧
      (Lexer.ofSource (Token.printAll (tokens.map (·.value))) p).Drains tokens' eof' := by
  obtain ⟨cuts, tail, hlex, rfl, rfl⟩ := Lexer.drains_ofSource_iff.mp hd
  have hsource : source.toList = [] ++ slices cuts ++ tail := hlex.slices_append_tail.symm
  have hr : ∀ cut ∈ cuts, Reprintable cut := by
    intro cut hcut
    rw [← slice_place hsource] at hcut
    obtain ⟨t, htoken, rfl⟩ := List.mem_map.mp hcut
    exact ⟨fun v hv => congrArg String.toList (htext t htoken v hv), hargs t htoken⟩
  have hu : Unescaped p {} := ⟨fun _ => rfl, fun _ hb => by cases hb⟩
  obtain ⟨rest', hprint, -, hagain⟩ := reprints_of_lexes hs ht hlex hu hr
  obtain ⟨cuts', tail', hlex', htokens⟩ := hagain []
  have hprinted : (Token.printAll ((place .start cuts).map (·.value))).toList = rest' := by
    rw [toList_printAll, map_value_place, List.flatMap_map]
    exact hprint.symm
  rw [← hprinted] at hlex'
  refine ⟨place .start cuts', _, ?_, Lexer.drains_ofSource_iff.mpr ⟨cuts', tail', hlex', rfl, rfl⟩⟩
  rw [map_value_place, map_value_place, htokens]

/-- **Printing the tokens of a source and lexing them again gives the same tokens**, when constructs
must be closed, no raw block is reported as text, no text token holds an escape and no argument list
ends with an empty argument. -/
theorem collect_printAll {result : Array LocatedToken} (hs : p.strict = true)
    (ht : p.transparent ∉ p.rawFunctions) (hc : (Lexer.ofSource source p).collect.1 = .ok result)
    (htext : ∀ t ∈ result.toList, ∀ v, t.value = .text v → v = t.span.slice source)
    (hargs : ∀ t ∈ result.toList, ∀ args ∈ t.value.argLists, args.getLast? ≠ some "") :
    ∃ again,
      (Lexer.ofSource (Token.printAll (result.toList.map (·.value))) p).collect.1 = .ok again ∧
        again.toList.map (·.value) = result.toList.map (·.value) := by
  obtain ⟨tokens, eof, hd, hlen, rfl⟩ := Lexer.collect_eq_ok_iff.mp hc
  obtain ⟨tokens', eof', hvalues, hd'⟩ := exists_drains_printAll hs ht hd
    (fun t htoken => htext t (by simp [htoken])) (fun t htoken => hargs t (by simp [htoken]))
  have hprint : Token.printAll ((tokens ++ [eof]).toArray.toList.map (·.value)) =
      Token.printAll (tokens.map (·.value)) := by
    refine String.toList_injective ?_
    simp [toList_printAll, hd.eof_value, Token.print]
  refine ⟨(tokens' ++ [eof']).toArray, ?_, ?_⟩
  · rw [hprint]
    refine Lexer.collect_eq_ok_iff.mpr ⟨tokens', eof', hd', ?_, rfl⟩
    have hsame := congrArg List.length hvalues
    rw [List.length_map, List.length_map] at hsame
    rwa [hsame]
  · simp [hvalues, hd.eof_value, hd'.eof_value]

end

/-- In `a{{x }}` the text stands for itself, and no argument list is empty at its end. -/
theorem collect_text_data :
    (Lexer.ofSource "a\x7b\x7bx \x7d\x7d" { strict := true, transparent := "" }).collect.1 =
      .ok #[⟨.text "a", ⟨⟨0, 1, 1⟩, ⟨1, 1, 2⟩⟩⟩, ⟨.data true "x" none, ⟨⟨1, 1, 2⟩, ⟨7, 1, 8⟩⟩⟩,
        Lexer.eofToken ⟨7, 1, 8⟩] := by
  let p : Preferences := { strict := true, transparent := "" }
  let data : List Char := dataOpener true ++ (['x', ' '] ++ Lexer.terminator true)
  have htext : Piece p none ['a'] data (.hold ['a']) :=
    .plain (by decide) (by simp [OpensBraces])
  have hdata : Piece p none data [] (.token (dataToken true ['x', ' ']) none) := by
    refine .data (.closed ⟨?_, ?_, trivial⟩) ?_ <;> decide
  have hend : Lexes p {} [] [] [] := .done (.inl rfl)
  have hlast : Lexes p { chars := ['a'], text := ['a'] } (data ++ []) _ [] := .more hdata hend
  have hlex : Lexes p {} (['a'] ++ data) _ [] := .more htext hlast
  have hd : (Lexer.ofSource "a\x7b\x7bx \x7d\x7d" p).Drains _ _ :=
    Lexer.drains_ofSource_iff.mpr ⟨_, _, hlex, rfl, rfl⟩
  have hvalue : dataToken true ['x', ' '] = .data true "x" none := by decide
  refine Lexer.collect_eq_ok_iff.mpr ⟨_, _, hd, by decide, ?_⟩
  rw [hvalue]
  rfl

/-- Printed, it has another blank, and the same tokens. -/
theorem collect_printAll_text_data :
    ∃ result, (Lexer.ofSource "a\x7b\x7bx \x7d\x7d"
        { strict := true, transparent := "" }).collect.1 = .ok result ∧
      ∃ again, (Lexer.ofSource (Token.printAll (result.toList.map (·.value)))
          { strict := true, transparent := "" }).collect.1 = .ok again ∧
        again.toList.map (·.value) = result.toList.map (·.value) := by
  have hslice : "a" = (Span.mk ⟨0, 1, 1⟩ ⟨1, 1, 2⟩).slice "a\x7b\x7bx \x7d\x7d" := by decide
  exact ⟨_, collect_text_data, collect_printAll (p := { strict := true, transparent := "" }) rfl
    (by decide) collect_text_data (by simpa [Lexer.eofToken] using hslice)
    (by simp [Lexer.eofToken, Token.argLists])⟩

end Blade
