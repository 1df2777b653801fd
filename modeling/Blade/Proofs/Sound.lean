import Blade.Limits.Development
import Blade.Proofs.Cover

/-!
# Proofs — Sound

What a token says about the characters it was read from (`Token.ReadFrom`), when no construct may be
cut off by the end of input and no raw block is reported as text.

* `readFrom_of_piece`: a comment, an output expression or a directive is read from its piece.
* `readFrom_of_lexes`: every cut's token is read from its slice, and at most an `@` is left over.
* `lexing_sound`: the delivered tokens are consecutive, their slices are the source up to an `@` at
  its end, and each token is read from its slice.
-/

namespace Blade

/-! ### Escapes in text -/

/-- Whether characters are being copied after `c`: up to a blank one once an `@` has been read. -/
def copiesAfter (copying : Bool) (c : Char) : Bool :=
  if copying then !Text.isBlank c else c == '@'

/-- The text that characters stand for: outside what is copied, an `@` is left out and what follows
it is copied, up to the next blank character. -/
def unescapeFrom (copying : Bool) : List Char → List Char
  | [] => []
  | c :: cs =>
      if !copying && c == '@' then unescapeFrom (copiesAfter copying c) cs
      else c :: unescapeFrom (copiesAfter copying c) cs

/-- The text that characters stand for. -/
def unescape (cs : List Char) : List Char := unescapeFrom false cs

/-- Whether the last characters of a text are copied. -/
def endsCopying (cs : List Char) : Bool := cs.foldl copiesAfter false

theorem unescapeFrom_append (copying : Bool) (cs ds : List Char) :
    unescapeFrom copying (cs ++ ds) =
      unescapeFrom copying cs ++ unescapeFrom (cs.foldl copiesAfter copying) ds := by
  induction cs generalizing copying with
  | nil => rfl
  | cons c cs ih =>
      simp only [List.cons_append, unescapeFrom, ih, List.foldl_cons]
      split <;> rfl

theorem unescape_append (cs ds : List Char) :
    unescape (cs ++ ds) = unescape cs ++ unescapeFrom (endsCopying cs) ds :=
  unescapeFrom_append false cs ds

theorem endsCopying_append (cs ds : List Char) :
    endsCopying (cs ++ ds) = ds.foldl copiesAfter (endsCopying cs) :=
  List.foldl_append

theorem unescapeFrom_run {run : List Char} (h : ∀ c ∈ run, !Text.isBlank c) :
    unescapeFrom true run = run ∧ run.foldl copiesAfter true = true := by
  induction run with
  | nil => exact ⟨rfl, rfl⟩
  | cons c run ih =>
      have hc := h c (List.mem_cons_self ..)
      have ⟨htext, hcopy⟩ := ih fun d hd => h d (List.mem_cons_of_mem _ hd)
      simp [unescapeFrom, copiesAfter, hc, htext, hcopy]

theorem eq_of_unescape_eq_nil {cs : List Char} (h : unescape cs = []) : cs = [] ∨ cs = ['@'] := by
  rcases cs with _ | ⟨c, _ | ⟨d, cs⟩⟩
  · exact .inl rfl
  · by_cases hc : c = '@'
    · exact .inr (by rw [hc])
    · simp [unescape, unescapeFrom, hc] at h
  · by_cases hc : c = '@'
    · simp [unescape, unescapeFrom, copiesAfter, hc] at h
    · simp [unescape, unescapeFrom, hc] at h

/-! ### What a token says about its slice -/

section
variable [Limits]

/-- What follows a name with some arguments: nothing, or a list in parentheses, which only `gap`
characters precede. -/
def ListText (gap : Char → Bool) (text : String) : Option (List String) → Prop
  | none => text = ""
  | some args => ∃ blanks w list, text = blanks ++ "(" ++ w ++ ")" ∧ (∀ c ∈ blanks.toList, gap c) ∧
      (Cursor.ofSource (w ++ ")")).arguments = (.ok list, (Cursor.ofSource (w ++ ")")).skipAll) ∧
      list.terminated = true ∧ list.args = args

/-- The token is what `slice` says. -/
def Token.ReadFrom (slice : String) : Token → Prop
  | .comment value => slice = "\x7b\x7b--" ++ value ++ "--\x7d\x7d"
  | .text value => value ≠ "" ∧ value.toList = unescape slice.toList
  | .data true value filters => ∃ i, slice = "\x7b\x7b" ++ i ++ "\x7d\x7d" ∧
      Expression.parse i = ⟨value, filters⟩ ∧ ¬ "\x7d\x7d".toList <:+: i.toList
  | .data false value filters => ∃ i, slice = "\x7b!!" ++ i ++ "!!\x7d" ∧
      Expression.parse i = ⟨value, filters⟩ ∧ ¬ "!!\x7d".toList <:+: i.toList
  | .function name args => ∃ list, slice = "@" ++ name ++ list ∧ ListText Text.isBlank list args
  | .rawFunction name args content => ∃ list,
      slice = "@" ++ name ++ list ++ content ++ "@end" ++ name ∧
        ListText Lexer.isInlineBlank list args
  | .eof => False

variable {p : Preferences} {chunk after : List Char}

/-- A list that is closed is read from the characters between its parentheses. -/
theorem listText_of_listRead {gap : Char → Bool} {list : Option ArgumentList}
    (h : ListRead true gap chunk after list) :
    ListText gap (String.ofList chunk) (list.map ArgumentList.args) := by
  cases h with
  | absent => rfl
  | @closed blanks w _ list hb hc =>
      have hrest : (Cursor.ofSource (String.ofList w ++ ")")).rest = w ++ [')'] := by
        simp [Cursor.ofSource]
      refine ⟨String.ofList blanks, String.ofList w, list, ?_, ?_, ?_, hc.terminated, rfl⟩
      · simp [String.ofList_append, String.append_assoc]
      · simpa using hb
      · rw [Cursor.arguments_of_closes hc hrest, ← Cursor.skip_length, hrest,
          List.length_append, List.length_singleton]
  | cut hs => cases hs

/-- **A token is read from its piece.** -/
theorem readFrom_of_piece {block : Option String} {token : Token} {list : Option ArgumentList}
    (hs : p.strict = true) (h : Piece p block chunk after (.token token list)) :
    token.ReadFrom (String.ofList chunk) := by
  cases h with
  | comment henc =>
      rw [hs] at henc
      obtain ⟨rfl, -⟩ := enclosed_strict_iff.mp henc
      exact String.toList_injective (by simp [commentOpener, commentTerminator])
  | @data escaped _ _ interior henc hdash =>
      rw [hs] at henc
      obtain ⟨rfl, hfree⟩ := enclosed_strict_iff.mp henc
      have hin := hfree.not_infix (terminator_ne_nil escaped)
      cases escaped with
      | true =>
          refine ⟨String.ofList interior, String.toList_injective ?_, rfl, ?_⟩
          · simp [dataOpener, Lexer.terminator]
          · simpa [Lexer.terminator] using hin
      | false =>
          refine ⟨String.ofList interior, String.toList_injective ?_, rfl, ?_⟩
          · simp [dataOpener, Lexer.terminator]
          · simpa [Lexer.terminator] using hin
  | @function name chunk _ _ _ _ hl =>
      rw [hs] at hl
      refine ⟨String.ofList chunk, String.toList_injective ?_, listText_of_listRead hl⟩
      simp

/-! ### Every cut -/

/-- Where `h` is held back in front of `rest`, its text is what its characters stand for; in a raw
block, they are the opener and the body so far. -/
def Clean (p : Preferences) (h : Held) (rest : List Char) : Prop :=
  match h.block with
  | none => h.text = unescape h.chars ∧
      (endsCopying h.chars = true → StopsAt (fun c => !Text.isBlank c) rest)
  | some (name, args) => p.isTransparent name = false ∧ ∃ list : String,
      h.chars = '@' :: (name.toList ++ list.toList ++ h.text) ∧
        ListText Lexer.isInlineBlank list args

variable {h : Held} {rest tail : List Char} {cuts : List Cut}

theorem clean_of_none (hb : h.block = none) : Clean p h rest ↔ h.text = unescape h.chars ∧
    (endsCopying h.chars = true → StopsAt (fun c => !Text.isBlank c) rest) := by
  simp only [Clean, hb]

theorem readFrom_flushed (ht : h.text = unescape h.chars) :
    ∀ cut ∈ h.flushed, cut.token.ReadFrom (String.ofList cut.slice) := by
  unfold Held.flushed
  split
  · simp
  · next hne => simp [Token.ReadFrom, ← ht, hne]

/-- In front of a token nothing is left that stands for no text. -/
theorem Clean.kept_eq_nil (hc : Clean p h rest) (hb : h.block = none)
    (hr : ¬ StopsAt (fun c => !Text.isBlank c) rest) : h.kept = [] := by
  obtain ⟨ht, hcopy⟩ := (clean_of_none hb).mp hc
  unfold Held.kept
  split
  · next htext =>
      rcases eq_of_unescape_eq_nil (ht.symm.trans htext) with hchars | hchars
      · exact hchars
      · exact absurd (hcopy (by rw [hchars]; rfl)) hr
  · rfl

/-- Reading more text leaves what is held back clean. -/
theorem clean_hold {value : List Char} (hc : Clean p h (chunk ++ after))
    (hp : Piece p h.openName? chunk after (.hold value)) :
    Clean p (h.perform p chunk (.hold value)) after := by
  cases hb : h.block with
  | none =>
      obtain ⟨ht, hcopy⟩ := (clean_of_none hb).mp hc
      rw [Held.openName?_eq_none_iff.mpr hb] at hp
      rw [clean_of_none (by exact hb)]
      simp only [Held.perform, unescape_append, endsCopying_append, ht]
      cases hp with
      | @plain c _ hne _ =>
          -- a character that is being copied is blank, since it stops the copying
          cases hend : endsCopying h.chars with
          | true =>
              have hblank : Text.isBlank c = true := by simpa using hcopy hend
              simp [unescapeFrom, copiesAfter, hblank]
          | false => simp [unescapeFrom, copiesAfter, hne]
      | escape _ hrun hstop =>
          have hend : endsCopying h.chars = false := by
            rw [← Bool.not_eq_true]
            intro hend
            exact absurd (hcopy hend) (by simp [Text.isBlank])
          have htext := (unescapeFrom_run hrun).1
          refine ⟨?_, fun _ => hstop⟩
          simp [unescapeFrom, copiesAfter, hend, htext]
  | some block =>
      simp only [Clean, hb] at hc
      obtain ⟨htrans, list, hchars, hlist⟩ := hc
      have hv : value = chunk := by
        rw [Held.openName?, hb] at hp
        cases hp <;> rfl
      simp only [Clean, Held.perform, hb]
      exact ⟨htrans, list, by rw [hchars, hv]; simp, hlist⟩

theorem clean_enter {name : List Char} {list : Option ArgumentList} (hs : p.strict = true)
    (ht : p.transparent ∉ p.rawFunctions) (hk : h.kept = [])
    (hp : Piece p none chunk after (.enter name list)) :
    Clean p (h.perform p chunk (.enter name list)) after := by
  have htrans := hp.not_transparent_of_enter ht
  cases hp with
  | @enter _ chunk _ _ _ _ hl =>
      rw [hs] at hl
      simp only [Clean, Held.perform, hk]
      exact ⟨htrans, String.ofList chunk, by simp, listText_of_listRead hl⟩

/-- A raw block is read from its opener, its body and its end. -/
theorem readFrom_leave (hc : Clean p h (chunk ++ after))
    (hp : Piece p h.openName? chunk after .leave) :
    ∀ cut ∈ h.cuts p chunk .leave, cut.token.ReadFrom (String.ofList cut.slice) := by
  cases hb : h.block with
  | none => rw [Held.openName?_eq_none_iff.mpr hb] at hp; cases hp
  | some block =>
      simp only [Clean, hb] at hc
      obtain ⟨htrans, list, hchars, hlist⟩ := hc
      rw [Held.openName?, hb] at hp
      cases hp with
      | @leave _ name _ _ hname =>
          have hname' : name = "end".toList ++ block.1.toList := by
            rw [← String.toList_append, ← hname, String.toList_ofList]
          simp only [Held.cuts, Held.closed, hb, htrans, Bool.false_eq_true, if_false,
            List.mem_singleton, forall_eq]
          refine ⟨list, String.toList_injective ?_, hlist⟩
          simp [hchars, hname']

theorem clean_leave (hc : Clean p h (chunk ++ after))
    (hp : Piece p h.openName? chunk after .leave) : Clean p (h.perform p chunk .leave) after := by
  cases hb : h.block with
  | none => rw [Held.openName?_eq_none_iff.mpr hb] at hp; cases hp
  | some block =>
      simp only [Clean, hb] at hc
      have hleft : (h.perform p chunk .leave).chars = [] := by
        simp [Held.perform, Held.left, hb, hc.1]
      rw [clean_of_none rfl, hleft]
      exact ⟨rfl, by simp [endsCopying]⟩

/-- **Every token is read from its slice**, and no more than an `@` is left over. -/
theorem readFrom_of_lexes (hs : p.strict = true) (ht : p.transparent ∉ p.rawFunctions)
    (hl : Lexes p h rest cuts tail) (hc : Clean p h rest) :
    (∀ cut ∈ cuts, cut.token.ReadFrom (String.ofList cut.slice)) ∧ (tail = [] ∨ tail = ['@']) := by
  induction hl with
  | @done h hend =>
      have hb : h.block = none := hend.resolve_right (by rw [hs]; simp)
      obtain ⟨htext, -⟩ := (clean_of_none hb).mp hc
      simp only [Held.closed, Held.left, hb]
      refine ⟨readFrom_flushed htext, ?_⟩
      unfold Held.kept
      split
      · next hnil => exact eq_of_unescape_eq_nil (htext.symm.trans hnil)
      · exact .inl rfl
  | @more h chunk after e cuts tail hp hl ih =>
      -- what the piece cuts off comes before what the rest is cut into
      have hcut : ∀ {cuts₀}, (∀ cut ∈ cuts₀, cut.token.ReadFrom (String.ofList cut.slice)) →
          Clean p (h.perform p chunk e) after →
            (∀ cut ∈ cuts₀ ++ cuts, cut.token.ReadFrom (String.ofList cut.slice)) ∧
              (tail = [] ∨ tail = ['@']) := fun h₀ hclean =>
        ⟨List.forall_mem_append.mpr ⟨h₀, (ih hclean).1⟩, (ih hclean).2⟩
      cases e with
      | hold value => exact hcut (by simp [Held.cuts]) (clean_hold hc hp)
      | token token list =>
          have hb := Held.openName?_eq_none_iff.mp hp.block_of_token
          rw [hp.block_of_token] at hp
          have hkept := hc.kept_eq_nil hb (hp.not_stopsAt (by simp))
          have hclean : Clean p (h.perform p chunk (.token token list)) after :=
            (clean_of_none (by exact hb)).mpr ⟨rfl, by simp [Held.perform, endsCopying]⟩
          refine hcut ?_ hclean
          refine List.forall_mem_append.mpr ⟨readFrom_flushed ((clean_of_none hb).mp hc).1, ?_⟩
          simp only [List.mem_singleton, forall_eq, hkept, List.nil_append]
          exact readFrom_of_piece hs hp
      | enter name list =>
          have hb := Held.openName?_eq_none_iff.mp hp.block_of_enter
          rw [hp.block_of_enter] at hp
          have hkept := hc.kept_eq_nil hb (hp.not_stopsAt (by simp))
          exact hcut (readFrom_flushed ((clean_of_none hb).mp hc).1) (clean_enter hs ht hkept hp)
      | leave => exact hcut (readFrom_leave hc hp) (clean_leave hc hp)

variable {source : String} {tokens : List LocatedToken} {eof : LocatedToken}

/-- **Lexing is sound.**  When constructs must be closed and no raw block is reported as text, the
delivered tokens are consecutive from the start of the source; their slices are the source, but for
an `@` that may end it; and every token is what its slice says. -/
theorem lexing_sound (hs : p.strict = true) (ht : p.transparent ∉ p.rawFunctions)
    (hd : (Lexer.ofSource source p).Drains tokens eof) :
    (∃ stop, Consecutive .start tokens stop) ∧
      (source = String.join (tokens.map (·.span.slice source)) ∨
        source = String.join (tokens.map (·.span.slice source)) ++ "@") ∧
      ∀ t ∈ tokens, t.value.ReadFrom (t.span.slice source) := by
  obtain ⟨cuts, tail, hlex, rfl, rfl⟩ := Lexer.drains_ofSource_iff.mp hd
  have hsource : source.toList = slices cuts ++ tail := hlex.slices_append_tail.symm
  obtain ⟨hread, htail⟩ := readFrom_of_lexes hs ht hlex
    ((clean_of_none rfl).mpr ⟨rfl, by simp [endsCopying]⟩)
  have hjoin : (String.join ((place .start cuts).map (·.span.slice source))).toList =
      slices cuts := by
    rw [String.toList_join, List.flatMap_map]
    exact flatMap_slice_place hsource
  refine ⟨⟨_, consecutive_place .start cuts⟩, ?_, fun t htoken => ?_⟩
  · rcases htail with rfl | rfl
    · exact .inl (String.toList_injective (by rw [hjoin, hsource, List.append_nil]))
    · exact .inr (String.toList_injective (by rw [String.toList_append, hjoin, hsource]; rfl))
  · have hcut := List.mem_map_of_mem (f := fun t : LocatedToken =>
      (⟨t.value, (t.span.slice source).toList⟩ : Cut)) htoken
    have hcuts : source.toList = [] ++ slices cuts ++ tail := hsource
    rw [show Position.start = Position.start.advanceAll [] from rfl, slice_place hcuts] at hcut
    have hread := hread _ hcut
    rwa [String.ofList_toList] at hread

end

/-- In `{{x}}@` an `@` is left over. -/
theorem lexing_sound_data_escape :
    ∃ tokens eof,
      (Lexer.ofSource "\x7b\x7bx\x7d\x7d@"
          { strict := true, transparent := "" }).Drains tokens eof ∧
        (∃ stop, Consecutive .start tokens stop) ∧
        ("\x7b\x7bx\x7d\x7d@" =
            String.join (tokens.map (·.span.slice "\x7b\x7bx\x7d\x7d@")) ∨
          "\x7b\x7bx\x7d\x7d@" =
            String.join (tokens.map (·.span.slice "\x7b\x7bx\x7d\x7d@")) ++ "@") ∧
        ∀ t ∈ tokens, t.value.ReadFrom (t.span.slice "\x7b\x7bx\x7d\x7d@") :=
  ⟨_, _, drains_data_escape _,
    lexing_sound (p := { strict := true, transparent := "" }) rfl (by decide)
      (drains_data_escape _)⟩

end Blade
