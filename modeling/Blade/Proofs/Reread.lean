import Blade.Limits.Development
import Blade.Proofs.Canonical
import Blade.Proofs.RawBody
import Blade.Proofs.Reprint

/-!
# Proofs — Reread

One token of a source, printed and lexed on its own.  Where constructs must be closed, it comes back
as it was, but for the empty last arguments of its argument lists (`Token.reread`).

* `rereads_of_piece`, `rereads_block`: a token that is a piece comes back, and so does a raw block
  that is opened in front of its body.
* `rereads_of_lexes`: every token that is cut off comes back, unless it is text.  For a raw block
  this rests on what is held back: the opener was read in front of it (`Opened`).
* `Lexer.drains_print`: so does every token of a source.
-/

namespace Blade

theorem print_rawFunction (name : String) (args : Option (List String)) (body : List Char) :
    (Token.rawFunction name args (String.ofList body)).print.toList =
      printedOpener name args ++ (body ++ '@' :: ("end" ++ name).toList) := by
  simp [Token.print, printedOpener]

variable {p : Preferences} {h : Held} {chunk after rest tail : List Char} {cuts : List Cut}
  {e : Effect} {list : Option ArgumentList}

section
variable [Limits]

/-- The printed token is cut up into one token, itself but for empty last arguments. -/
def Rereads (p : Preferences) (token : Token) : Prop :=
  ∃ cuts, LexesTo p {} token.print.toList cuts none ∧ cuts.map Cut.token = [token.reread]

/-! ### Tokens that are pieces -/

theorem lexesTo_nil (p : Preferences) : LexesTo p {} [] [] none := .done (.inl rfl)

theorem rereads_of_piece {token : Token} (hs : p.strict = true)
    (hp : Piece p none chunk after (.token token list)) : Rereads p token := by
  obtain ⟨⟨list', hp'⟩, -⟩ := exists_reprinted_token hs hp (.nil after)
  have hlex : LexesTo p {} (token.print.toList ++ []) _ none := .more (h := {}) hp' (lexesTo_nil p)
  rw [List.append_nil] at hlex
  exact ⟨_, hlex, rfl⟩

/-! ### Raw blocks -/

theorem Piece.isAsciiLetter_of_enter {block : Option String} {name : List Char}
    (hp : Piece p block chunk after (.enter name list)) :
    ∀ c ∈ name, Text.isAsciiLetter c = true := by
  cases hp with
  | enter hname _ _ => exact hname.2.1

/-- A raw block comes back, since its end stands where something else stood that an `@` starts. -/
theorem rereads_block {opener name body more : List Char} (hs : p.strict = true)
    (hp : Piece p none opener (body ++ '@' :: more) (.enter name list))
    (hno : ¬ HoldsEnd (String.ofList name) body)
    (ht : p.isTransparent (String.ofList name) = false) :
    Rereads p (.rawFunction (String.ofList name) (list.map ArgumentList.args)
      (String.ofList body)) := by
  have hletters := hp.isAsciiLetter_of_enter
  rw [← String.toList_ofList (l := name)] at hletters
  let letters := ("end" ++ String.ofList name).toList
  have hagree : Agree (body ++ '@' :: more) (body ++ '@' :: (letters ++ [])) :=
    (Agree.of_opener (.inl rfl) _ _).append body
  obtain ⟨⟨list', hsame, hp'⟩, -⟩ := exists_reprinted_enter hs hp hagree
  obtain ⟨cuts, flaw?, hlex, htokens, hfault⟩ := LexesTo.block hp' hno
    (nameBefore_end hletters (stopsAt_nil _)) (String.ofList_toList ..) (lexesTo_nil p)
  rw [Option.map_none, Option.map_eq_none_iff] at hfault
  subst hfault
  rw [List.append_nil, ← print_rawFunction] at hlex
  refine ⟨cuts, hlex, ?_⟩
  rw [htokens, blockTokens, if_neg (by simp [ht]), hsame]
  rfl

/-! ### Every cut -/

/-- The raw block that is open was opened in front of what is held back and the rest. -/
def Opened (p : Preferences) (h : Held) (rest : List Char) : Prop :=
  ∀ block, h.block = some block → ∃ opener name list,
    Piece p none opener (h.text ++ rest) (.enter name list) ∧
      block = (String.ofList name, list.map ArgumentList.args)

theorem opened_of_none (hb : h.block = none) : Opened p h rest := by
  intro block hsome
  rw [hb] at hsome
  cases hsome

/-- **A piece leaves the opener in front of what is held back.** -/
theorem Opened.perform (ho : Opened p h (chunk ++ after)) (hp : Piece p h.openName? chunk after e) :
    Opened p (h.perform p chunk e) after := by
  cases e with
  | hold value =>
      intro block hb
      change h.block = some block at hb
      obtain ⟨opener, name, list, hopener, hsame⟩ := ho block hb
      rw [Held.openName?, hb] at hp
      obtain ⟨rfl, -⟩ := hp.hold_body
      refine ⟨opener, name, list, ?_, hsame⟩
      rwa [Held.perform, List.append_assoc]
  | token token list => exact opened_of_none (Held.openName?_eq_none_iff.mp hp.block_of_token)
  | enter name list =>
      intro block hb
      rw [hp.block_of_enter] at hp
      exact ⟨chunk, name, list, hp, (Option.some.inj hb).symm⟩
  | leave => exact opened_of_none rfl

/-- Every token but text comes back. -/
def ComesBack (p : Preferences) (token : Token) : Prop :=
  (∀ v, token ≠ .text v) → Rereads p token

theorem comesBack_flushed (h : Held) : ∀ cut ∈ h.flushed, ComesBack p cut.token := by
  unfold Held.flushed
  split
  · exact List.forall_mem_nil _
  · exact List.forall_mem_singleton.mpr fun hno => absurd rfl (hno _)

/-- The end of a raw block cuts off what was opened. -/
theorem comesBack_leave (hs : p.strict = true) (hk : Proper p h (chunk ++ after))
    (ho : Opened p h (chunk ++ after)) (hp : Piece p h.openName? chunk after .leave) :
    ∀ cut ∈ h.cuts p chunk .leave, ComesBack p cut.token := by
  rw [Held.cuts, Held.closed]
  cases hb : h.block with
  | none => exact comesBack_flushed _
  | some block =>
      obtain ⟨opener, name, list, hopener, rfl⟩ := ho block hb
      cases ht : p.isTransparent (String.ofList name) with
      | true =>
          simp only [ht, if_true]
          exact comesBack_flushed _
      | false =>
          simp only [ht, Bool.false_eq_true, if_false]
          refine List.forall_mem_singleton.mpr fun _ => ?_
          have hbody : ¬ HoldsEnd (String.ofList name) h.text := by
            obtain ⟨-, -, hend⟩ := hk _ _ hb
            have hempty := hend [] List.nil_prefix
            rw [List.append_nil] at hempty
            exact hempty.not.mpr (not_holdsEnd_nil _)
          have hopen : h.openName? = some (String.ofList name) := by rw [Held.openName?, hb]; rfl
          rw [hopen] at hp
          cases hp with
          | leave _ _ => exact rereads_block hs hopener hbody ht

theorem comesBack_cuts (hs : p.strict = true) (hk : Proper p h (chunk ++ after))
    (ho : Opened p h (chunk ++ after)) (hp : Piece p h.openName? chunk after e) :
    ∀ cut ∈ h.cuts p chunk e, ComesBack p cut.token := by
  cases e with
  | hold value => exact List.forall_mem_nil _
  | token token list =>
      rw [hp.block_of_token] at hp
      exact List.forall_mem_append.mpr ⟨comesBack_flushed h,
        List.forall_mem_singleton.mpr fun _ => rereads_of_piece hs hp⟩
  | enter name list => exact comesBack_flushed h
  | leave => exact comesBack_leave hs hk ho hp

/-- **Every token that is cut off comes back**, unless it is text. -/
theorem rereads_of_lexes (hs : p.strict = true) (hl : Lexes p h rest cuts tail)
    (hk : Proper p h rest) (ho : Opened p h rest) : ∀ cut ∈ cuts, ComesBack p cut.token := by
  induction hl with
  | @done h hend =>
      have hb : h.block = none := hend.resolve_right (by simp [hs])
      rw [Held.closed, hb]
      exact comesBack_flushed h
  | @more h chunk after e cuts tail hp _ ih =>
      exact List.forall_mem_append.mpr ⟨comesBack_cuts hs hk ho hp,
        ih ((upheld_canonical p).perform hk hp) (ho.perform hp)⟩

end

/-! ### The tokens of a source -/

namespace Lexer

variable {source : String} {tokens : List LocatedToken} {eof t : LocatedToken} {value : Token}

section
variable [Limits]

/-- Lexing the source delivers one token, with the value, and then the end of input. -/
def DeliversOnly (source : String) (p : Preferences) (value : Token) : Prop :=
  ∃ token eof, (ofSource source p).Drains [token] eof ∧ token.value = value

theorem DeliversOnly.unique {value' : Token} (hd : DeliversOnly source p value)
    (hd' : DeliversOnly source p value') : value = value' := by
  obtain ⟨token, eof, hdrain, rfl⟩ := hd
  obtain ⟨token', eof', hdrain', rfl⟩ := hd'
  obtain ⟨m, hrun⟩ := drains_iff_runs.mp hdrain
  obtain ⟨m', hrun'⟩ := drains_iff_runs.mp hdrain'
  obtain ⟨hsame, -⟩ := hrun'.unique hrun
  rw [List.singleton_inj.mp hsame]

theorem deliversOnly_of_rereads (hr : Rereads p value) :
    DeliversOnly value.print p value.reread := by
  obtain ⟨cuts, hlex, htokens⟩ := hr
  obtain ⟨m, hrun⟩ := runs_ofSource_iff.mpr ⟨cuts, none, hlex, rfl, rfl⟩
  rw [← map_value_place .start] at htokens
  obtain ⟨token, htoken, hvalue⟩ := List.map_eq_singleton_iff.mp htokens
  rw [htoken] at hrun
  exact ⟨token, _, drains_iff_runs.mpr ⟨m, hrun⟩, hvalue⟩

/-- It is the token itself where no argument list ends with an empty argument. -/
theorem deliversOnly_print_iff (hr : Rereads p value) : DeliversOnly value.print p value ↔
    ∀ args ∈ value.argLists, args.getLast? ≠ some "" := by
  rw [← Token.reread_eq_iff]
  constructor
  · exact (deliversOnly_of_rereads hr).unique
  · intro hsame
    have hd := deliversOnly_of_rereads hr
    rwa [hsame] at hd

/-- **A token of a source, printed, is source for the token again**, when constructs must be closed,
unless it is text: for the token without the empty last arguments of its argument lists, and so for
the token itself exactly if none of them ends with an empty argument. -/
theorem drains_print (hs : p.strict = true) (hd : (ofSource source p).Drains tokens eof)
    (ht : t ∈ tokens) (hne : ∀ v, t.value ≠ .text v) :
    DeliversOnly t.value.print p t.value.reread ∧
      (DeliversOnly t.value.print p t.value ↔
        ∀ args ∈ t.value.argLists, args.getLast? ≠ some "") := by
  obtain ⟨cuts, tail, hlex, rfl, rfl⟩ := drains_ofSource_iff.mp hd
  have hback := rereads_of_lexes hs hlex (proper_of_none rfl) (opened_of_none rfl)
  have hreread := forall_mem_place hback t ht hne
  exact ⟨deliversOnly_of_rereads hreread, deliversOnly_print_iff hreread⟩

/-- The directive `@if(a,,)` is a piece, whose list ends with an empty argument. -/
theorem piece_empty_last : ∃ list,
    Piece { strict := true } none ['@', 'i', 'f', '(', 'a', ',', ',', ')'] []
      (.token (.function "if" (some ["a", ""])) list) := by
  have hclose : Closes ['a', ',', ','] ⟨["a", ""], 1, true⟩ :=
    ⟨_, rfl, ⟨rfl, rfl⟩, rfl⟩
  have hname : NameBefore ['i', 'f'] (([] ++ '(' :: (['a', ',', ','] ++ [')'])) ++ []) :=
    ⟨by simp, by simp [Text.isAsciiLetter], (stopsAt_cons _ _ _).mpr (by decide)⟩
  exact ⟨_, .function hname (by decide) (.closed (List.forall_mem_nil _) hclose)⟩

theorem drains_empty_last : (ofSource "@if(a,,)" { strict := true }).Drains
    [⟨.function "if" (some ["a", ""]), ⟨.start, ⟨8, 1, 9⟩⟩⟩] (eofToken ⟨8, 1, 9⟩) := by
  obtain ⟨list, hp⟩ := piece_empty_last
  have hlex : Lexes _ {} _ _ [] := .more (h := {}) hp (.done (.inl rfl))
  exact drains_ofSource_iff.mpr ⟨_, [], hlex, rfl, rfl⟩

end

/-- It is printed as `@if(a, )`, which has one argument. -/
theorem drains_print_empty_last :
    ({ strict := true } : Preferences).strict = true ∧
      (ofSource "@if(a,,)" { strict := true }).Drains
        [⟨.function "if" (some ["a", ""]), ⟨.start, ⟨8, 1, 9⟩⟩⟩] (eofToken ⟨8, 1, 9⟩) ∧
      (∀ v, Token.function "if" (some ["a", ""]) ≠ .text v) ∧
      DeliversOnly (Token.function "if" (some ["a", ""])).print { strict := true }
        (.function "if" (some ["a"])) ∧
      ¬ DeliversOnly (Token.function "if" (some ["a", ""])).print { strict := true }
        (.function "if" (some ["a", ""])) := by
  obtain ⟨hagain, hiff⟩ := drains_print (p := { strict := true }) rfl drains_empty_last
    (List.mem_singleton_self _) nofun
  refine ⟨rfl, drains_empty_last, nofun, hagain, fun hsame => ?_⟩
  exact hiff.mp hsame ["a", ""] (by simp [Token.argLists]) rfl

/-- So not every token comes back as it was. -/
theorem not_delivers_printed : ¬ ∀ (source : String) (p : Preferences)
    (tokens : List LocatedToken) (eof t : LocatedToken), p.strict = true →
      (ofSource source p).Drains tokens eof → t ∈ tokens → (∀ v, t.value ≠ .text v) →
        DeliversOnly t.value.print p t.value := by
  intro hall
  have hsame := hall _ _ _ _ _ rfl drains_empty_last (List.mem_singleton_self _) nofun
  obtain ⟨list, hp⟩ := piece_empty_last
  have hlast := (deliversOnly_print_iff (rereads_of_piece rfl hp)).mp hsame
  exact hlast ["a", ""] (by simp [Token.argLists]) rfl

end Lexer

end Blade
