import Blade.Token.Json
import Mathlib.Data.List.Forall2

/-!
# Proofs — TokenJson

Tokens written as JSON are read back as they were.

The fields of a JSON object have no order that a reader may count on: what is written in one order
may come back in another.  So the tokens are read back from every value that agrees with what was
written but for that order (`Json.Agrees`).  Where the keys of an object are distinct, agreeing
objects give agreeing values to every key (`Json.Agrees.exists_obj`); the readers ask for no more.

* `Json.list?_of_agrees`, `Json.optional?_of_agrees`: lists and fields that may be missing are read
  back when their parts are.
* `Token.ofJson?_of_agrees`: a token is read back.
* `Token.eq_of_agrees`: so two tokens that are written alike are equal.
* `tokens_read_back`: both, and lists of located tokens.
-/

namespace Blade

namespace Json

/-- The same JSON value but for the order of the fields of its objects. -/
inductive Agrees : Json → Json → Prop where
  | null : Agrees .null .null
  | bool (b : Bool) : Agrees (.bool b) (.bool b)
  | int (i : Int) : Agrees (.int i) (.int i)
  | decimal (mantissa : Int) (places : Nat) :
      Agrees (.decimal mantissa places) (.decimal mantissa places)
  | str (s : String) : Agrees (.str s) (.str s)
  | arr {xs ys : List Json} : List.Forall₂ Agrees xs ys → Agrees (.arr xs) (.arr ys)
  | obj {fields sorted fields' : List (String × Json)} :
      fields.Perm sorted → sorted.map Prod.fst = fields'.map Prod.fst →
        List.Forall₂ Agrees (sorted.map Prod.snd) (fields'.map Prod.snd) →
        Agrees (.obj fields) (.obj fields')

theorem sizeOf_lt_obj {fields : List (String × Json)} {value : Json}
    (h : value ∈ fields.map Prod.snd) : sizeOf value < sizeOf (Json.obj fields) := by
  obtain ⟨⟨key, value⟩, hfield, rfl⟩ := List.mem_map.mp h
  have hlt := List.sizeOf_lt_of_mem hfield
  simp only [Prod.mk.sizeOf_spec, Json.obj.sizeOf_spec] at hlt ⊢
  omega

/-- A value agrees with itself. -/
theorem Agrees.refl : ∀ value : Json, value.Agrees value
  | .null => .null
  | .bool b => .bool b
  | .int i => .int i
  | .decimal mantissa places => .decimal mantissa places
  | .str s => .str s
  | .arr items => .arr (List.forall₂_same.mpr fun item _ => Agrees.refl item)
  | .obj fields =>
      .obj (.refl fields) rfl (List.forall₂_same.mpr fun value _ => Agrees.refl value)
termination_by value => sizeOf value
decreasing_by
  · have hlt := List.sizeOf_lt_of_mem ‹_›
    rw [Json.arr.sizeOf_spec]
    omega
  · exact sizeOf_lt_obj ‹_›

/-! ### The fields of an object -/

/-- Where keys are distinct, the order of the fields does not matter to a lookup. -/
theorem lookup_perm {fields fields' : List (String × Json)} (h : fields.Perm fields')
    (hd : (fields.map Prod.fst).Nodup) (name : String) :
    fields.lookup name = fields'.lookup name := by
  induction h with
  | nil => rfl
  | cons field _ ih =>
      rw [List.map_cons, List.nodup_cons] at hd
      rw [List.lookup_cons, List.lookup_cons, ih hd.2]
  | swap field field' fields =>
      have hne : field'.1 ≠ field.1 := by
        intro heq
        simp [heq] at hd
      rw [List.lookup_cons, List.lookup_cons, List.lookup_cons, List.lookup_cons]
      cases h : name == field'.1 with
      | false => rfl
      | true =>
          cases h' : name == field.1 with
          | false => rfl
          | true => exact absurd ((eq_of_beq h).symm.trans (eq_of_beq h')) hne
  | trans h _ ih ih' => rw [ih hd, ih' ((h.map Prod.fst).nodup_iff.mp hd)]

/-- Fields with the same keys and related values give related values to every key. -/
theorem lookup_rel {R : Json → Json → Prop} {fields fields' : List (String × Json)}
    (hk : fields.map Prod.fst = fields'.map Prod.fst)
    (hv : List.Forall₂ R (fields.map Prod.snd) (fields'.map Prod.snd)) (name : String) :
    Option.Rel R (fields.lookup name) (fields'.lookup name) := by
  induction fields generalizing fields' with
  | nil =>
      cases fields' with
      | nil => exact .none
      | cons field' fields' => cases hk
  | cons field fields ih =>
      cases fields' with
      | nil => cases hk
      | cons field' fields' =>
          obtain ⟨key, value⟩ := field
          obtain ⟨key', value'⟩ := field'
          rw [List.map_cons, List.map_cons, List.cons.injEq] at hk
          obtain ⟨hkey, hk⟩ := hk
          dsimp only at hkey
          subst hkey
          rw [List.map_cons, List.map_cons, List.forall₂_cons] at hv
          rw [List.lookup_cons, List.lookup_cons]
          split
          · exact .some hv.1
          · exact ih hk hv.2

/-- **What agrees with an object of distinct keys** is an object that gives agreeing values to every
key. -/
theorem Agrees.exists_obj {fields : List (String × Json)} {value : Json}
    (h : (Json.obj fields).Agrees value) (hd : (fields.map Prod.fst).Nodup) :
    ∃ fields', value = .obj fields' ∧
      ∀ name, Option.Rel Agrees (fields.lookup name) (fields'.lookup name) := by
  cases h with
  | @obj _ sorted fields' hperm hk hv =>
      refine ⟨fields', rfl, fun name => ?_⟩
      rw [lookup_perm hperm hd]
      exact lookup_rel hk hv name

theorem exists_lookup {value : Json} {value? : Option Json}
    (h : Option.Rel Agrees (some value) value?) :
    ∃ value', value? = some value' ∧ value.Agrees value' := by
  cases h with
  | some h => exact ⟨_, rfl, h⟩

/-- Nothing else agrees with the value, since there are no fields in it. -/
def Leaf (value : Json) : Prop := ∀ value', value.Agrees value' → value' = value

theorem leaf_str (s : String) : Leaf (.str s) := by
  intro value' h
  cases h with
  | str => rfl

theorem leaf_bool (b : Bool) : Leaf (.bool b) := by
  intro value' h
  cases h with
  | bool => rfl

theorem leaf_nat (n : Nat) : Leaf (nat n) := by
  intro value' h
  cases h with
  | int => rfl

theorem lookup_leaf {value : Json} {value? : Option Json} (hleaf : Leaf value)
    (h : Option.Rel Agrees (some value) value?) : value? = some value := by
  obtain ⟨value', rfl, hvalue⟩ := exists_lookup h
  rw [hleaf value' hvalue]

/-! ### Parts that are read back -/

variable {α : Type} {write : α → Json} {read : Json → Option α} {value : Json}

/-- **A list is read back when its items are.** -/
theorem list?_of_agrees {items : List α}
    (hread : ∀ a ∈ items, ∀ value, (write a).Agrees value → read value = some a)
    (h : (arr (items.map write)).Agrees value) : list? read value = some items := by
  cases h with
  | @arr _ ys hitems =>
      change ys.mapM read = some items
      induction items generalizing ys with
      | nil =>
          cases hitems
          rfl
      | cons a items ih =>
          rw [List.forall_mem_cons] at hread
          cases hitems with
          | @cons _ y _ ys hitem hrest =>
              rw [List.mapM_cons, hread.1 y hitem, ih hread.2 hrest]
              rfl

theorem strings?_of_agrees {items : List String} (h : (strings items).Agrees value) :
    value.strings? = some items := by
  have hlist : list? str? value = some items := by
    refine list?_of_agrees ?_ h
    intro s _ value hs
    rw [leaf_str s value hs]
    rfl
  cases value with
  | arr ys => exact hlist
  | null | bool | int | decimal | str | obj => cases hlist

/-- **A field that may be missing is read back**, a missing one as missing, when no value is written
as null. -/
theorem optional?_of_agrees {a? : Option α} {value? : Option Json}
    (hread : ∀ a value, (write a).Agrees value → read value = some a)
    (hnull : ∀ a, ¬ (write a).Agrees .null)
    (h : Option.Rel Agrees (a?.map write) value?) : optional? read value? = some a? := by
  cases a? with
  | none =>
      cases h
      rfl
  | some a =>
      cases h with
      | @some _ value ha =>
          have hne : value ≠ .null := by
            rintro rfl
            exact hnull a ha
          have hsome : optional? read (some value) = (read value).map some := by
            cases value with
            | null => exact absurd rfl hne
            | bool | int | decimal | str | arr | obj => rfl
          rw [hsome, hread a value ha]
          rfl

theorem not_agrees_null {items : List Json} : ¬ (Json.arr items).Agrees .null := by
  intro h
  cases h

end Json

/-! ### Tokens -/

open Json

variable {value : Json}

theorem Filter.ofJson?_of_agrees {f : Filter} (h : f.toJson.Agrees value) :
    Filter.ofJson? value = some f := by
  obtain ⟨fields, rfl, hfields⟩ := h.exists_obj (by simp)
  have hname := lookup_leaf (leaf_str _) (hfields "name")
  obtain ⟨args, hargs, hagrees⟩ := exists_lookup (hfields "args")
  simp only [ofJson?, record?, List.map_cons, List.map_nil, hname, hargs, str?,
    strings?_of_agrees hagrees]
  rfl

/-- An argument list that may be missing is read back. -/
theorem arguments?_of_agrees {args : Option (List String)} {value? : Option Json}
    (h : Option.Rel Agrees (args.map strings) value?) :
    optional? strings? value? = some args :=
  optional?_of_agrees (fun _ _ => strings?_of_agrees) (fun _ => not_agrees_null) h

/-- A filter list that may be missing is read back. -/
theorem filters?_of_agrees {filters : Option (List Filter)} {value? : Option Json}
    (h : Option.Rel Agrees (filters.map fun fs => .arr (fs.map Filter.toJson)) value?) :
    optional? (list? Filter.ofJson?) value? = some filters :=
  optional?_of_agrees (fun _ _ => list?_of_agrees fun _ _ _ => Filter.ofJson?_of_agrees)
    (fun _ => not_agrees_null) h

/-- **A token is read back** from all that agrees with what is written for it. -/
theorem Token.ofJson?_of_agrees {t : Token} (h : t.toJson.Agrees value) :
    Token.ofJson? value = some t := by
  cases t with
  | comment text =>
      obtain ⟨fields, rfl, hfields⟩ := h.exists_obj (by simp)
      have htype := lookup_leaf (leaf_str _) (hfields "type")
      have hvalue := lookup_leaf (leaf_str _) (hfields "value")
      simp [ofJson?, ofFields?, TokenKind.ofName?, record?, str?, htype, hvalue]
  | text text =>
      obtain ⟨fields, rfl, hfields⟩ := h.exists_obj (by simp)
      have htype := lookup_leaf (leaf_str _) (hfields "type")
      have hvalue := lookup_leaf (leaf_str _) (hfields "value")
      simp [ofJson?, ofFields?, TokenKind.ofName?, record?, str?, htype, hvalue]
  | data escaped text filters =>
      obtain ⟨fields, rfl, hfields⟩ := h.exists_obj (by cases filters <;> simp [optionalField])
      have htype := lookup_leaf (leaf_str _) (hfields "type")
      have hescaped := lookup_leaf (leaf_bool _) (hfields "escaped")
      have hvalue := lookup_leaf (leaf_str _) (hfields "value")
      have hfilters :
          optional? (list? Filter.ofJson?) (fields.lookup "filters") = some filters := by
        have hmissing := hfields "filters"
        refine filters?_of_agrees ?_
        cases filters <;> exact hmissing
      simp [ofJson?, ofFields?, TokenKind.ofName?, record?, str?, bool?, htype, hescaped, hvalue,
        hfilters]
  | function name args =>
      obtain ⟨fields, rfl, hfields⟩ := h.exists_obj (by cases args <;> simp [optionalField])
      have htype := lookup_leaf (leaf_str _) (hfields "type")
      have hname := lookup_leaf (leaf_str _) (hfields "name")
      have hargs : optional? strings? (fields.lookup "args") = some args := by
        have hmissing := hfields "args"
        refine arguments?_of_agrees ?_
        cases args <;> exact hmissing
      simp [ofJson?, ofFields?, TokenKind.ofName?, record?, str?, htype, hname, hargs]
  | rawFunction name args content =>
      obtain ⟨fields, rfl, hfields⟩ := h.exists_obj (by cases args <;> simp [optionalField])
      have htype := lookup_leaf (leaf_str _) (hfields "type")
      have hname := lookup_leaf (leaf_str _) (hfields "name")
      have hargs : optional? strings? (fields.lookup "args") = some args := by
        have hmissing := hfields "args"
        refine arguments?_of_agrees ?_
        cases args <;> exact hmissing
      have hcontent : fields.lookup "content" = some (.str content) := by
        have hlast := hfields "content"
        refine lookup_leaf (leaf_str content) ?_
        cases args <;> exact hlast
      simp [ofJson?, ofFields?, TokenKind.ofName?, record?, str?, htype, hname, hargs, hcontent]
  | eof =>
      obtain ⟨fields, rfl, hfields⟩ := h.exists_obj (by simp)
      have htype := lookup_leaf (leaf_str _) (hfields "type")
      simp [ofJson?, ofFields?, TokenKind.ofName?, record?, str?, htype]

/-- **Tokens that are written alike are equal**: no list is one with an empty list, and no kind one
with another. -/
theorem Token.eq_of_agrees {t u : Token} (h : t.toJson.Agrees u.toJson) : t = u := by
  have hread := ofJson?_of_agrees (.refl u.toJson)
  rw [ofJson?_of_agrees h] at hread
  exact Option.some.inj hread

/-! ### Located tokens -/

/-- The offset is one of 64 bits, and the line and the column are of 32 bits. -/
structure Position.Fits (p : Position) : Prop where
  offset : p.offset < UInt64.size
  line : p.line < UInt32.size
  column : p.column < UInt32.size

/-- Both ends are positions that a machine can hold. -/
structure Span.Fits (s : Span) : Prop where
  start : s.start.Fits
  stop : s.stop.Fits

theorem Json.nat?_nat {n bound : Nat} (h : n < bound) : (nat n).nat? bound = some n := by
  simp [Json.nat, nat?, h]

theorem Position.ofJson?_of_agrees {p : Position} (hp : p.Fits) (h : p.toJson.Agrees value) :
    Position.ofJson? value = some p := by
  obtain ⟨fields, rfl, hfields⟩ := h.exists_obj (by simp)
  have hoffset := lookup_leaf (leaf_nat _) (hfields "offset")
  have hline := lookup_leaf (leaf_nat _) (hfields "line")
  have hcolumn := lookup_leaf (leaf_nat _) (hfields "column")
  have hoffset' : (nat p.offset).nat? 18446744073709551616 = some p.offset := nat?_nat hp.offset
  have hline' : (nat p.line).nat? 4294967296 = some p.line := nat?_nat hp.line
  have hcolumn' : (nat p.column).nat? 4294967296 = some p.column := nat?_nat hp.column
  simp [ofJson?, record?, hoffset, hline, hcolumn, hoffset', hline', hcolumn']

theorem Span.ofJson?_of_agrees {s : Span} (hs : s.Fits) (h : s.toJson.Agrees value) :
    Span.ofJson? value = some s := by
  obtain ⟨fields, rfl, hfields⟩ := h.exists_obj (by simp)
  obtain ⟨start, hstart, hstart'⟩ := exists_lookup (hfields "start")
  obtain ⟨stop, hstop, hstop'⟩ := exists_lookup (hfields "end")
  simp [ofJson?, record?, hstart, hstop, Position.ofJson?_of_agrees hs.start hstart',
    Position.ofJson?_of_agrees hs.stop hstop']

theorem LocatedToken.ofJson?_of_agrees {t : LocatedToken} (ht : t.span.Fits)
    (h : t.toJson.Agrees value) : LocatedToken.ofJson? value = some t := by
  obtain ⟨fields, rfl, hfields⟩ := h.exists_obj (by simp)
  obtain ⟨token, htoken, htoken'⟩ := exists_lookup (hfields "value")
  obtain ⟨span, hspan, hspan'⟩ := exists_lookup (hfields "span")
  simp [ofJson?, record?, htoken, hspan, Token.ofJson?_of_agrees htoken',
    Span.ofJson?_of_agrees ht hspan']

/-- **Tokens written as JSON are read back.**  A token is read back from what is written for it, in
whatever order its fields come; tokens that are written alike are equal; and a list of located
tokens is read back in the same way. -/
theorem tokens_read_back :
    (∀ t : Token, Token.ofJson? t.toJson = some t ∧
        ∀ value, t.toJson.Agrees value → Token.ofJson? value = some t) ∧
      (∀ t u : Token, t.toJson.Agrees u.toJson → t = u) ∧
      ∀ ts : List LocatedToken, (∀ t ∈ ts, t.span.Fits) →
        list? LocatedToken.ofJson? (.arr (ts.map LocatedToken.toJson)) = some ts ∧
          ∀ value, (Json.arr (ts.map LocatedToken.toJson)).Agrees value →
            list? LocatedToken.ofJson? value = some ts := by
  refine ⟨?_, ?_, ?_⟩
  · intro t
    exact ⟨Token.ofJson?_of_agrees (.refl _), fun _ => Token.ofJson?_of_agrees⟩
  · intro t u h
    exact Token.eq_of_agrees h
  · intro ts hts
    have hread : ∀ value, (Json.arr (ts.map LocatedToken.toJson)).Agrees value →
        list? LocatedToken.ofJson? value = some ts := by
      intro value h
      exact list?_of_agrees (fun t ht _ => LocatedToken.ofJson?_of_agrees (hts t ht)) h
    exact ⟨hread _ (.refl _), hread⟩

/-- The last position that a machine can hold. -/
def Position.last : Position := ⟨UInt64.size - 1, UInt32.size - 1, UInt32.size - 1⟩

/-- An empty argument list is read back as an empty one, from fields in reverse order; and so it is
with the last position that a machine can hold. -/
theorem tokens_read_back_function :
    (Token.function "if" (some [])).toJson.Agrees
        (.obj [("args", .arr []), ("name", .str "if"), ("type", .str "function")]) ∧
      Token.ofJson? (.obj [("args", .arr []), ("name", .str "if"), ("type", .str "function")]) =
        some (.function "if" (some [])) ∧
      (Span.point .last).Fits ∧
      list? LocatedToken.ofJson?
          (.arr ([⟨.function "if" (some []), .point .last⟩].map LocatedToken.toJson)) =
        some [⟨.function "if" (some []), .point .last⟩] := by
  have hagrees : (Token.function "if" (some [])).toJson.Agrees
      (.obj [("args", .arr []), ("name", .str "if"), ("type", .str "function")]) := by
    refine .obj (List.reverse_perm _).symm rfl ?_
    exact List.forall₂_same.mpr fun value _ => .refl value
  have hlast : Position.last.Fits := ⟨by decide, by decide, by decide⟩
  have hfits : (Span.point .last).Fits := ⟨hlast, hlast⟩
  refine ⟨hagrees, (tokens_read_back.1 _).2 _ hagrees, hfits, ?_⟩
  exact (tokens_read_back.2.2 _ (List.forall_mem_singleton.mpr hfits)).1

end Blade
