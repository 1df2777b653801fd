import Blade.Limits.Development
import Blade.Proofs.ArgumentText
import Blade.Proofs.Outcome

/-!
# Proofs — RawBody

The body of a raw block is copied, whatever it holds, up to the end of the block.

* `LexesTo.body`: in front of an `@` behind it, a body that nothing ends is held back as it is.
* `LexesTo.of_chars`: how the rest is cut up does not depend on which characters are held back, only
  on the text that they stand for.
* `Lexer.runs_rawBlock`: a source that starts with a raw block delivers it and then what the source
  behind it delivers.
-/

namespace Blade

variable {p : Preferences} {h : Held} {chunk after rest : List Char} {cuts : List Cut}
  {flaw? : Option Flaw}

/-! ### Characters held back -/

/-- **Which characters are held back does not matter**, only the text that they stand for. -/
theorem LexesTo.of_chars [Limits] (hl : LexesTo p h rest cuts flaw?) (chars : List Char) :
    ∃ cuts' flaw?', LexesTo p { h with chars } rest cuts' flaw?' ∧
      cuts'.map Cut.token = cuts.map Cut.token ∧
      flaw?'.map Flaw.fault = flaw?.map Flaw.fault := by
  induction hl generalizing chars with
  | @done h hs =>
      exact ⟨_, none, .done (h := { h with chars }) hs, h.map_token_closed p chars, rfl⟩
  | @cutOff h _ _ hs hb hcut => exact ⟨_, _, .cutOff (h := { h with chars }) hs hb hcut, rfl, rfl⟩
  | @unclosed h _ _ _ _ hs hb hp hno =>
      exact ⟨_, _, .unclosed (h := { h with chars }) hs hb hp hno, h.map_token_flushed chars, rfl⟩
  | @mismatched h _ _ _ hb hm =>
      exact ⟨_, _, .mismatched (h := { h with chars }) hb hm, rfl, rfl⟩
  | @more h chunk after e cuts flaw? hp _ ih =>
      obtain ⟨chars', hperform⟩ := h.perform_chars p chars chunk e
      obtain ⟨cuts', flaw?', hl', htokens, hfault⟩ := ih chars'
      rw [← hperform] at hl'
      refine ⟨_, flaw?', .more (h := { h with chars }) hp hl', ?_, hfault⟩
      rw [List.map_append, List.map_append, h.map_token_cuts, htokens]

/-! ### The body -/

theorem stopsAt_at (more : List Char) : StopsAt Text.isAsciiLetter ('@' :: more) :=
  (stopsAt_cons _ _ _).mpr (by decide)

/-- What a raw block holds back stands for itself, also when an `@` follows the body. -/
theorem Piece.hold_body [Limits] {block : String} {value : List Char}
    (hp : Piece p (some block) chunk after (.hold value)) :
    value = chunk ∧ ∀ more, Piece p (some block) chunk (after ++ '@' :: more) (.hold chunk) := by
  cases hp with
  | body hc => exact ⟨rfl, fun _ => .body hc⟩
  | lone hs => exact ⟨rfl, fun more => .lone (hs.append fun _ => stopsAt_at more)⟩
  | other hn hne => exact ⟨rfl, fun more => .other (hn.append fun _ => stopsAt_at more) hne⟩

/-- **A body that nothing ends is held back as it is**, up to the `@` behind it. -/
theorem LexesTo.body [Limits] {block : String × Option (List String)} {body more : List Char}
    (hb : h.block = some block) (hno : ¬ HoldsEnd block.1 body)
    (hl : LexesTo p ⟨h.block, h.chars ++ body, h.text ++ body⟩ ('@' :: more) cuts flaw?) :
    LexesTo p h (body ++ '@' :: more) cuts flaw? := by
  -- on the number of characters, since no piece is empty
  induction hn : body.length using Nat.strong_induction_on generalizing h body with
  | _ n ih =>
    cases body with
    | nil => simpa using hl
    | cons c cs =>
        obtain ⟨chunk, after, value, hbody, hp, hno'⟩ := exists_hold_of_not_holdsEnd p hno
        obtain ⟨rfl, hagain⟩ := hp.hold_body
        have hpos := List.length_pos_iff.mpr hp.ne_nil
        rw [hbody, List.length_append] at hn
        rw [hbody] at hl ⊢
        have hopen : h.openName? = some block.1 := by rw [Held.openName?, hb]; rfl
        have hrest := ih after.length (by omega) (h := h.perform p value (.hold value)) hb hno'
          (by simpa [Held.perform] using hl) rfl
        rw [List.append_assoc]
        exact .more (hopen ▸ hagain more) hrest

/-- The name that ends a raw block, in front of what goes on with no letter. -/
theorem nameBefore_end {name : String} (hn : ∀ c ∈ name.toList, Text.isAsciiLetter c = true)
    (hs : StopsAt Text.isAsciiLetter rest) : NameBefore ("end" ++ name).toList rest := by
  refine ⟨by simp, ?_, hs⟩
  rw [String.toList_append]
  exact List.forall_mem_append.mpr ⟨by simp [Text.isAsciiLetter], hn⟩

/-- What a raw block is delivered as. -/
def blockTokens (p : Preferences) (name : String) (args : Option (List String)) (body : String) :
    List Token :=
  if p.isTransparent name then if body = "" then [] else [.text body]
  else [.rawFunction name args body]

theorem map_token_closed_block {name : String} {args : Option (List String)}
    {chars body : List Char} :
    (Held.closed ⟨some (name, args), chars, body⟩ p).map Cut.token =
      blockTokens p name args (String.ofList body) := by
  simp only [Held.closed, blockTokens]
  split
  · simp only [Held.flushed]
    by_cases hbody : body = [] <;> simp [hbody]
  · rfl

section
variable [Limits]

/-- **A raw block is read up to its end**, and the rest goes on as on its own. -/
theorem LexesTo.block {opener name body letters : List Char} {list : Option ArgumentList}
    (hp : Piece p none opener (body ++ '@' :: (letters ++ rest)) (.enter name list))
    (hno : ¬ HoldsEnd (String.ofList name) body) (hend : NameBefore letters rest)
    (heq : String.ofList letters = "end" ++ String.ofList name)
    (hl : LexesTo p {} rest cuts flaw?) :
    ∃ cuts' flaw?', LexesTo p {} (opener ++ (body ++ '@' :: (letters ++ rest))) cuts' flaw?' ∧
      cuts'.map Cut.token = blockTokens p (String.ofList name) (list.map ArgumentList.args)
        (String.ofList body) ++ cuts.map Cut.token ∧
      flaw?'.map Flaw.fault = flaw?.map Flaw.fault := by
  let block : Option (String × Option (List String)) :=
    some (String.ofList name, list.map ArgumentList.args)
  let opened : Held := ⟨block, opener, []⟩
  let full : Held := ⟨block, opener ++ body, body⟩
  -- what is held back behind the block is no text
  let left := Held.left { full with chars := full.chars ++ '@' :: letters } p
  obtain ⟨cuts', flaw?', hl', htokens, hfault⟩ := hl.of_chars left
  have hleave : Piece p full.openName? ('@' :: letters) rest .leave := .leave hend heq
  have hclosed := LexesTo.more hleave hl'
  have hbody : LexesTo p opened (body ++ '@' :: (letters ++ rest)) _ flaw?' :=
    LexesTo.body rfl hno hclosed
  refine ⟨_, flaw?', .more (h := {}) hp hbody, ?_, hfault⟩
  rw [List.map_append, List.map_append, htokens, ← map_token_closed_block]
  rfl

/-! ### A source that starts with a raw block -/

/-- What opens a raw block in front of a body, and the arguments it gives: the name alone, unless
the body goes on with it or with a list, or the name and a list. -/
inductive RawOpener (name body : String) : String → Option (List String) → Prop where
  | bare : StopsAt Text.isAsciiLetter body.toList → ¬ OpensList Lexer.isInlineBlank body.toList →
      RawOpener name body ("@" ++ name) none
  | list {w : String} {n : Nat} : ArgumentText n w.toList → n < Limits.bracketDepth →
      RawOpener name body ("@" ++ name ++ "(" ++ w ++ ")") (some (argumentsOf w.toList))

/-- An opener is a piece in front of the body and the end of the block. -/
theorem RawOpener.exists_piece {name body opener : String} {args : Option (List String)}
    (ho : RawOpener name body opener args) (hname : Preferences.isDirectiveName name = true)
    (hraw : p.isRawFunction name = true) (more : List Char) :
    ∃ list, list.map ArgumentList.args = args ∧
      Piece p none opener.toList (body.toList ++ '@' :: more) (.enter name.toList list) := by
  obtain ⟨hne, hletters⟩ := isDirectiveName_iff.mp hname
  have hraw' : p.isRawFunction (String.ofList name.toList) = true := by
    rwa [String.ofList_toList]
  cases ho with
  | bare hstop hno =>
      have hbefore : NameBefore name.toList ([] ++ (body.toList ++ '@' :: more)) :=
        ⟨hne, hletters, hstop.append fun _ => stopsAt_at more⟩
      refine ⟨none, rfl, ?_⟩
      have hclosed : ¬ OpensList Lexer.isInlineBlank (body.toList ++ '@' :: more) :=
        not_opensList_append hno fun _ => not_opensList_cons (by decide) (by decide) more
      have hpiece : Piece p none _ _ (.enter name.toList none) :=
        .enter hbefore hraw' (.absent hclosed)
      simpa using hpiece
  | @list w n hw hn =>
      obtain ⟨list, hclose⟩ := hw.exists_closes hn
      have hbefore : NameBefore name.toList
          (([] ++ '(' :: (w.toList ++ [')'])) ++ (body.toList ++ '@' :: more)) :=
        ⟨hne, hletters, (stopsAt_cons _ _ _).mpr (by decide)⟩
      refine ⟨some list, by rw [Option.map_some, hclose.args_eq], ?_⟩
      have hpiece : Piece p none _ _ (.enter name.toList (some list)) :=
        .enter hbefore hraw' (.closed (List.forall_mem_nil _) hclose)
      simpa using hpiece

end

/-- Both are the end of input, or errors of the same kind. -/
def EndsAlike : Except LexError LocatedToken → Except LexError LocatedToken → Prop
  | .ok _, .ok _ => True
  | .error e, .error e' => e.fault = e'.fault
  | _, _ => False

theorem endsAlike_endingAt {source source' : String} {base base' stop stop' : Position}
    {flaw? flaw?' : Option Flaw} (h : flaw?'.map Flaw.fault = flaw?.map Flaw.fault) :
    EndsAlike (endingAt source' base' stop' flaw?') (endingAt source base stop flaw?) := by
  cases flaw? with
  | none =>
      rw [Option.map_none, Option.map_eq_none_iff] at h
      rw [h]
      trivial
  | some flaw =>
      obtain ⟨flaw', rfl, hfault⟩ := Option.map_eq_some_iff.mp h
      exact hfault

/-- **Raw bodies are opaque.**  A source that starts with a raw block delivers the block, with its
body as it stands, and then the tokens of the source behind it; and it ends as that one does. -/
theorem Lexer.runs_rawBlock [Limits] {name body rest opener : String} {args : Option (List String)}
    (hname : Preferences.isDirectiveName name = true) (hraw : p.isRawFunction name = true)
    (ho : RawOpener name body opener args) (hno : ¬ HoldsEnd name body.toList)
    (hrest : StopsAt Text.isAsciiLetter rest.toList) :
    ∃ tokens ending m tokens' ending' m', (ofSource rest p).Runs tokens ending m ∧
      (ofSource (opener ++ body ++ "@end" ++ name ++ rest) p).Runs tokens' ending' m' ∧
      tokens'.map (·.value) = blockTokens p name args body ++ tokens.map (·.value) ∧
      EndsAlike ending' ending := by
  obtain ⟨hne, hletters⟩ := isDirectiveName_iff.mp hname
  obtain ⟨cuts, flaw?, hlex⟩ := exists_lexesTo p rest.toList
  obtain ⟨m, hrun⟩ := runs_ofSource_iff.mpr ⟨cuts, flaw?, hlex, rfl, rfl⟩
  obtain ⟨list, rfl, hpiece⟩ := ho.exists_piece (p := p) hname hraw
    (("end" ++ name).toList ++ rest.toList)
  obtain ⟨cuts', flaw?', hlex', htokens, hfault⟩ := LexesTo.block hpiece
    (by rwa [String.ofList_toList]) (nameBefore_end hletters hrest)
    (by rw [String.ofList_toList, String.ofList_toList]) hlex
  have hsource : (opener ++ body ++ "@end" ++ name ++ rest).toList = opener.toList ++
      (body.toList ++ '@' :: (("end" ++ name).toList ++ rest.toList)) := by
    simp
  rw [← hsource] at hlex'
  obtain ⟨m', hrun'⟩ := runs_ofSource_iff.mpr ⟨cuts', flaw?', hlex', rfl, rfl⟩
  refine ⟨_, _, m, _, _, m', hrun, hrun', ?_, endsAlike_endingAt hfault⟩
  rw [map_value_place, map_value_place, htokens, String.ofList_toList, String.ofList_toList]

/-- A directive whose name only starts as the end of the block does is part of the body. -/
theorem Lexer.runs_rawBlock_js :
    Preferences.isDirectiveName "js" = true ∧ ({} : Preferences).isRawFunction "js" = true ∧
      ¬ HoldsEnd "js" "x@endjsx ".toList ∧
      ∃ tokens ending m tokens' ending' m', (ofSource " y" {}).Runs tokens ending m ∧
        (ofSource ("@js(a)" ++ "x@endjsx " ++ "@end" ++ "js" ++ " y") {}).Runs tokens' ending' m' ∧
        tokens'.map (·.value) =
          blockTokens {} "js" (some ["a"]) "x@endjsx " ++ tokens.map (·.value) ∧
        EndsAlike ending' ending := by
  have hno : ¬ HoldsEnd "js" "x@endjsx ".toList := by
    have hletters : ∀ c ∈ ['e', 'n', 'd', 'j', 's', 'x'], Text.isAsciiLetter c := by
      simp [Text.isAsciiLetter]
    have hname : String.ofList ['e', 'n', 'd', 'j', 's', 'x'] ≠ "end" ++ "js" := by decide
    have hx : '@' ∉ ['x'] := by decide
    have hblank : '@' ∉ [' '] := by decide
    have hbody : "x@endjsx ".toList =
        ['x'] ++ '@' :: (['e', 'n', 'd', 'j', 's', 'x'] ++ ([' '] ++ [])) := rfl
    intro hends
    rw [hbody] at hends
    have hat := (holdsEnd_append_iff hx).mp hends
    have hlast := (holdsEnd_at_iff hletters (by simp [Text.isAsciiLetter]) hname).mp hat
    exact not_holdsEnd_nil _ ((holdsEnd_append_iff hblank).mp hlast)
  have harg : ArgumentText 0 ['a'] := .char .nil (by decide) (by decide) (by decide)
  have ho : RawOpener "js" "x@endjsx " ("@" ++ "js" ++ "(" ++ "a" ++ ")") (some ["a"]) :=
    .list harg (by decide)
  have hspace : " y".toList = [' ', 'y'] := rfl
  have hrest : StopsAt Text.isAsciiLetter " y".toList := by
    rw [hspace, stopsAt_cons]
    decide
  exact ⟨by decide, by decide, hno, runs_rawBlock (by decide) (by decide) ho hno hrest⟩

end Blade
