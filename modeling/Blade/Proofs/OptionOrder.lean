import Blade.CommandLine.Options
import Mathlib.Data.List.Induction

/-!
# Proofs — OptionOrder

A command line read request by request.

The words are read by an index into them, which an option moves by two where it takes a word.  The
same is read when the words are first grouped into arguments, one or two words each, and these are
taken in order.

A request is what an argument stands for: an option with the word that it takes, which may be any
word, a word that looks like an option and is none, or a template.  The words of some requests are
read back as just these requests, and what they ask for is a matter of which requests there are, and
of the last one where an option takes a word.

* `readFrom_eq_takeAll`: reading by index is taking the arguments that are left, by the recursion of
  the reading.
* `group_words`: grouping the words of some requests gives an argument for each of them.
* `takeAll_requests`: what taking these arguments comes to, by induction on the requests from the
  last one.
* `parse_words`: so reading the words gives what is asked, or says what is wrong with the templates.
* `parse_order_free`: the order of the requests matters only among those whose last word counts.
-/

namespace Blade

/-- The words that are options. -/
def optionWords : List String := ["--json", "--strict", "--metrics", "--raw", "--config"]

/-- One or two words that belong together. -/
inductive Argument where
  | json
  | strict
  | metrics
  | raw (list : Option String)
  | settings (path : Option String)
  | unknown (word : String)
  | plain (word : String)
  deriving DecidableEq, Repr, Inhabited

namespace Argument

/-- The argument that a word makes without the word after it. -/
def ofWord (word : String) : Argument :=
  match word with
  | "--json" => .json
  | "--strict" => .strict
  | "--metrics" => .metrics
  | "--raw" => .raw none
  | "--config" => .settings none
  | word => if word.startsWith "--" then .unknown word else .plain word

/-- The words grouped into arguments. -/
def group : List String → List Argument
  | [] => []
  | "--raw" :: value :: words => .raw (some value) :: group words
  | "--config" :: value :: words => .settings (some value) :: group words
  | word :: words => ofWord word :: group words

/-- The word that a warning is given for. -/
def warned? : Argument → Option String
  | .unknown word => some word
  | _ => none

end Argument

namespace Options

/-- Takes one argument. -/
def take (o : Options) : Argument → Except UsageError Options
  | .json => .ok { o with json := true }
  | .strict => .ok { o with strict := true }
  | .metrics => .ok { o with showMetrics := true }
  | .raw none => .error .missingRawList
  | .raw (some list) => .ok { o with rawFunctions := some (Text.nameList list) }
  | .settings none => .error .missingSettingsPath
  | .settings (some path) => .ok { o with settingsPath := some path }
  | .unknown _ => .ok o
  | .plain word =>
      if o.input.isEmpty then .ok { o with input := word } else .error (.unexpectedArgument word)

/-- Takes arguments in order, up to the first that is an error; also gives the words to warn of. -/
def takeAll (o : Options) : List Argument → Except UsageError Options × List String
  | [] => (.ok o, [])
  | argument :: arguments =>
      match o.take argument with
      | .error e => (.error e, [])
      | .ok o =>
          let (result, words) := takeAll o arguments
          (result, argument.warned?.toList ++ words)

end Options

/-- One thing that a command line may ask for. -/
inductive Request where
  | json
  | strict
  | metrics
  | raw (list : String)
  | settings (path : String)
  /-- A word with two dashes that is no option. -/
  | unknown (word : String) (dashed : word.startsWith "--" = true) (other : word ∉ optionWords)
  | template (word : String) (nonempty : word ≠ "") (plain : word.startsWith "--" = false)
  deriving DecidableEq

namespace Request

/-- The words of a request. -/
def words : Request → List String
  | .json => ["--json"]
  | .strict => ["--strict"]
  | .metrics => ["--metrics"]
  | .raw list => ["--raw", list]
  | .settings path => ["--config", path]
  | .unknown word _ _ => [word]
  | .template word _ _ => [word]

/-- The argument that a request is read as. -/
def argument : Request → Argument
  | .json => .json
  | .strict => .strict
  | .metrics => .metrics
  | .raw list => .raw (some list)
  | .settings path => .settings (some path)
  | .unknown word _ _ => .unknown word
  | .template word _ _ => .plain word

def template? : Request → Option String
  | .template word _ _ => some word
  | _ => none

def rawList? : Request → Option String
  | .raw list => some list
  | _ => none

def settingsPath? : Request → Option String
  | .settings path => some path
  | _ => none

end Request

/-- The templates that some requests name. -/
def templates (requests : List Request) : List String := requests.filterMap Request.template?

/-- The lists of raw directives that some requests give. -/
def rawLists (requests : List Request) : List String := requests.filterMap Request.rawList?

/-- The settings files that some requests name. -/
def settingsPaths (requests : List Request) : List String :=
  requests.filterMap Request.settingsPath?

/-! ### Grouping -/

theorem startsWith_of_mem_optionWords {word : String} (h : word ∈ optionWords) :
    word.startsWith "--" = true := by
  revert word
  decide +kernel

theorem not_mem_optionWords {word : String} (hjson : word = "--json" → False)
    (hstrict : word = "--strict" → False) (hmetrics : word = "--metrics" → False)
    (hraw : word = "--raw" → False) (hsettings : word = "--config" → False) :
    word ∉ optionWords := by
  simp only [optionWords, List.mem_cons, List.not_mem_nil, or_false, not_or]
  exact ⟨hjson, hstrict, hmetrics, hraw, hsettings⟩

theorem ofWord_of_not_mem {word : String} (h : word ∉ optionWords) :
    Argument.ofWord word = if word.startsWith "--" then .unknown word else .plain word := by
  simp only [optionWords, List.mem_cons, List.not_mem_nil, or_false, not_or] at h
  unfold Argument.ofWord
  split <;> simp_all

theorem group_cons_of_not_mem {word : String} (h : word ∉ optionWords) (words : List String) :
    Argument.group (word :: words) = Argument.ofWord word :: Argument.group words := by
  simp only [optionWords, List.mem_cons, List.not_mem_nil, or_false, not_or] at h
  cases words <;> simp [Argument.group, h]

/-- A request takes its own words and no more. -/
theorem group_words_append (r : Request) (words : List String) :
    Argument.group (r.words ++ words) = r.argument :: Argument.group words := by
  cases r with
  | json | strict | metrics =>
      cases words <;> simp [Request.words, Request.argument, Argument.group, Argument.ofWord]
  | raw list | settings path => simp [Request.words, Request.argument, Argument.group]
  | unknown word dashed other =>
      rw [Request.words, List.singleton_append, group_cons_of_not_mem other,
        ofWord_of_not_mem other, if_pos dashed, Request.argument]
  | template word nonempty plain =>
      have hother : word ∉ optionWords := fun h => by
        rw [startsWith_of_mem_optionWords h] at plain
        cases plain
      rw [Request.words, List.singleton_append, group_cons_of_not_mem hother,
        ofWord_of_not_mem hother, if_neg (by rw [plain]; decide), Request.argument]

/-- **The words of some requests are read as these requests**, whatever the words taken by options
look like. -/
theorem group_words (requests : List Request) :
    Argument.group (requests.flatMap Request.words) = requests.map Request.argument := by
  induction requests with
  | nil => rfl
  | cons r requests ih => rw [List.flatMap_cons, group_words_append, ih, List.map_cons]

/-! ### Reading by index -/

section Index

variable {words : Array String} {i : Nat} {word value : String}

theorem drop_of_word (hi : i < words.size) (hword : words[i] = word) :
    words.toList.drop i = word :: words.toList.drop (i + 1) := by
  rw [← hword]
  exact List.drop_eq_getElem_cons hi

theorem drop_of_two_words (hi : i < words.size) (hword : words[i] = word)
    (hvalue : words[i + 1]? = some value) :
    words.toList.drop i = word :: value :: words.toList.drop (i + 2) := by
  obtain ⟨hi', hvalue⟩ := Array.getElem?_eq_some_iff.mp hvalue
  rw [drop_of_word hi hword, drop_of_word hi' hvalue]

theorem drop_of_last_word (hi : i < words.size) (hword : words[i] = word)
    (hend : words[i + 1]? = none) : words.toList.drop i = [word] := by
  have hle : words.toList.length ≤ i + 1 := Array.getElem?_eq_none_iff.mp hend
  rw [drop_of_word hi hword, List.drop_of_length_le hle]

end Index

namespace Options

variable {o o' : Options} {a : Argument}

theorem takeAll_cons_of_ok (h : o.take a = .ok o') (hwarned : a.warned? = none)
    (arguments : List Argument) : o.takeAll (a :: arguments) = o'.takeAll arguments := by
  rw [takeAll, h, hwarned]
  rfl

theorem takeAll_cons_of_error {e : UsageError} (h : o.take a = .error e)
    (arguments : List Argument) : o.takeAll (a :: arguments) = (.error e, []) := by
  rw [takeAll, h]

theorem takeAll_cons_unknown (o : Options) (word : String) (arguments : List Argument) :
    o.takeAll (.unknown word :: arguments) =
      ((o.takeAll arguments).1, word :: (o.takeAll arguments).2) := by
  rw [takeAll]
  rfl

/-- A request that nothing is wrong with is taken, and what follows is left. -/
theorem takeAll_words_append (r : Request) (h : o.take r.argument = .ok o')
    (hwarned : r.argument.warned? = none) (words : List String) :
    o.takeAll (Argument.group (r.words ++ words)) = o'.takeAll (Argument.group words) := by
  rw [group_words_append, takeAll_cons_of_ok h hwarned]

/-- **Reading by index is taking the arguments that are left.** -/
theorem readFrom_eq_takeAll (words : Array String) (i : Nat) (o : Options) :
    o.readFrom words i = o.takeAll (Argument.group (words.toList.drop i)) := by
  fun_induction readFrom words i o with
  | case1 i o hi hword ih =>
      rw [ih, drop_of_word hi hword]
      exact (takeAll_words_append .json rfl rfl _).symm
  | case2 i o hi hword ih =>
      rw [ih, drop_of_word hi hword]
      exact (takeAll_words_append .strict rfl rfl _).symm
  | case3 i o hi hword ih =>
      rw [ih, drop_of_word hi hword]
      exact (takeAll_words_append .metrics rfl rfl _).symm
  | case4 i o hi hword list hlist ih =>
      rw [ih, drop_of_two_words hi hword hlist]
      exact (takeAll_words_append (.raw list) rfl rfl _).symm
  | case5 i o hi hword hend =>
      rw [drop_of_last_word hi hword hend]
      exact (takeAll_cons_of_error rfl []).symm
  | case6 i o hi hword path hpath ih =>
      rw [ih, drop_of_two_words hi hword hpath]
      exact (takeAll_words_append (.settings path) rfl rfl _).symm
  | case7 i o hi hword hend =>
      rw [drop_of_last_word hi hword hend]
      exact (takeAll_cons_of_error rfl []).symm
  | case8 i o hi result unknown hrest hjson hstrict hmetrics hraw hsettings hdashed ih =>
      have hother := not_mem_optionWords hjson hstrict hmetrics hraw hsettings
      rw [drop_of_word hi rfl, group_cons_of_not_mem hother, ofWord_of_not_mem hother,
        if_pos hdashed, takeAll_cons_unknown, ← ih, hrest]
  | case9 i o hi hnew hjson hstrict hmetrics hraw hsettings hplain ih =>
      have hother := not_mem_optionWords hjson hstrict hmetrics hraw hsettings
      rw [ih, drop_of_word hi rfl, group_cons_of_not_mem hother, ofWord_of_not_mem hother,
        if_neg hplain]
      have htake : o.take (.plain words[i]) = .ok { o with input := words[i] } := if_pos hnew
      exact (takeAll_cons_of_ok htake rfl _).symm
  | case10 i o hi hsecond hjson hstrict hmetrics hraw hsettings hplain =>
      have hother := not_mem_optionWords hjson hstrict hmetrics hraw hsettings
      rw [drop_of_word hi rfl, group_cons_of_not_mem hother, ofWord_of_not_mem hother,
        if_neg hplain]
      have htake : o.take (.plain words[i]) = .error (.unexpectedArgument words[i]) :=
        if_neg hsecond
      exact (takeAll_cons_of_error htake _).symm
  | case11 i o hend =>
      rw [List.drop_of_length_le (Nat.le_of_not_lt hend)]
      rfl

end Options

/-! ### What is asked -/

/-- What some requests ask for, the template apart. -/
def asked (requests : List Request) : Options where
  json := decide (.json ∈ requests)
  strict := decide (.strict ∈ requests)
  rawFunctions := (rawLists requests).getLast?.map Text.nameList
  settingsPath := (settingsPaths requests).getLast?
  showMetrics := decide (.metrics ∈ requests)

theorem exists_of_template?_eq_some {r : Request} {word : String} (h : r.template? = some word) :
    ∃ nonempty plain, r = .template word nonempty plain := by
  cases r with
  | template word nonempty plain =>
      cases h
      exact ⟨nonempty, plain, rfl⟩
  | json | strict | metrics | raw | settings | unknown => cases h

theorem ne_empty_of_mem_templates {requests : List Request} {word : String}
    (h : word ∈ templates requests) : word ≠ "" := by
  obtain ⟨r, -, hr⟩ := List.mem_filterMap.mp h
  obtain ⟨nonempty, -, -⟩ := exists_of_template?_eq_some hr
  exact nonempty

theorem templates_concat (requests : List Request) (r : Request) :
    templates (requests ++ [r]) = templates requests ++ r.template?.toList := by
  rw [templates, List.filterMap_append]
  cases r <;> rfl

/-- One request more that names no template is one option more. -/
theorem take_asked {r : Request} (requests : List Request) (input : String)
    (hr : r.template? = none) :
    { asked requests with input }.take r.argument =
      .ok { asked (requests ++ [r]) with input } := by
  cases r with
  | template => cases hr
  | json | strict | metrics | raw | settings | unknown =>
      simp [Options.take, Request.argument, asked, rawLists, settingsPaths, Request.rawList?,
        Request.settingsPath?, List.filterMap_append]

/-- One request more that names a template changes no option. -/
theorem asked_concat_template (requests : List Request) (word : String) (nonempty : word ≠ "")
    (plain : word.startsWith "--" = false) :
    asked (requests ++ [.template word nonempty plain]) = asked requests := by
  simp [asked, rawLists, settingsPaths, Request.rawList?, Request.settingsPath?,
    List.filterMap_append]

theorem takeAll_append (o : Options) (arguments more : List Argument) :
    (o.takeAll (arguments ++ more)).1 =
      (o.takeAll arguments).1.bind fun o' => (o'.takeAll more).1 := by
  induction arguments generalizing o with
  | nil => rfl
  | cons a arguments ih =>
      rw [List.cons_append, Options.takeAll, Options.takeAll]
      cases o.take a with
      | error e => rfl
      | ok o' => exact ih o'

theorem takeAll_singleton (o : Options) (a : Argument) : (o.takeAll [a]).1 = o.take a := by
  rw [Options.takeAll]
  cases o.take a <;> rfl

/-- What reading some requests comes to, before it is checked that there is a template. -/
def reading (requests : List Request) : Except UsageError Options :=
  match templates requests with
  | [] => .ok (asked requests)
  | [word] => .ok { asked requests with input := word }
  | _ :: word :: _ => .error (.unexpectedArgument word)

/-- **Taking requests one after the other gives what they ask for**, up to the second template. -/
theorem takeAll_requests (requests : List Request) :
    (({} : Options).takeAll (requests.map Request.argument)).1 = reading requests := by
  induction requests using List.reverseRecOn with
  | nil => rfl
  | append_singleton requests r ih =>
      rw [List.map_append, List.map_singleton, takeAll_append, ih, reading, reading,
        templates_concat]
      cases hr : r.template? with
      | none =>
          rw [Option.toList_none, List.append_nil]
          match templates requests with
          | [] => exact (takeAll_singleton _ _).trans (take_asked requests "" hr)
          | [word] => exact (takeAll_singleton _ _).trans (take_asked requests word hr)
          | _ :: _ :: _ => rfl
      | some word =>
          obtain ⟨nonempty, plain, rfl⟩ := exists_of_template?_eq_some hr
          rw [asked_concat_template, Option.toList_some]
          match hts : templates requests with
          | [] => exact takeAll_singleton _ _
          | [first] =>
              have hne : first ≠ "" := ne_empty_of_mem_templates (hts ▸ List.mem_singleton_self _)
              refine (takeAll_singleton _ _).trans ?_
              simp [Options.take, Request.argument, hne]
          | _ :: _ :: _ => rfl

/-- **Reading a command line gives what its requests ask for**, where just one names a template. -/
theorem parse_words (requests : List Request) :
    (Options.parse (requests.flatMap Request.words)).1 =
      match templates requests with
      | [] => .error .noTemplate
      | [word] => .ok { asked requests with input := word }
      | _ :: word :: _ => .error (.unexpectedArgument word) := by
  have hparse : (Options.parse (requests.flatMap Request.words)).1 =
      (reading requests).bind Options.complete := by
    rw [← takeAll_requests, ← group_words, Options.parse, Options.readFrom_eq_takeAll]
    rfl
  rw [hparse, reading]
  match hts : templates requests with
  | [] => rfl
  | [word] =>
      have hne : word ≠ "" := ne_empty_of_mem_templates (hts ▸ List.mem_singleton_self _)
      simp [Except.bind, Options.complete, hne]
  | _ :: _ :: _ => rfl

/-- The word that an option takes is no option. -/
example : (Options.parse ["--raw", "--json", "page", "--mind"]).1 =
    .ok { input := "page", rawFunctions := some ["--json"] } := by
  decide +kernel

theorem asked_perm {requests requests' : List Request} (h : requests'.Perm requests)
    (hraw : rawLists requests' = rawLists requests)
    (hsettings : settingsPaths requests' = settingsPaths requests) :
    asked requests' = asked requests := by
  simp only [asked, h.mem_iff, hraw, hsettings]

/-- **The options of a command line do not depend on the order of its requests.**  A command line is
refused exactly if the requests do not name just one template.  Otherwise the options are the
template, the flags that occur, and the last list of raw directives and the last settings file that
are given; so another order of the requests gives the same options, or is refused too, if it keeps
the order of the lists and that of the files. -/
theorem parse_order_free (requests : List Request) :
    ((∃ e, (Options.parse (requests.flatMap Request.words)).1 = .error e) ↔
        (templates requests).length ≠ 1) ∧
      (∀ word, templates requests = [word] →
        ∃ o, (Options.parse (requests.flatMap Request.words)).1 = .ok o ∧ o.input = word ∧
          (o.json = true ↔ .json ∈ requests) ∧ (o.strict = true ↔ .strict ∈ requests) ∧
          (o.showMetrics = true ↔ .metrics ∈ requests) ∧
          o.rawFunctions = (rawLists requests).getLast?.map Text.nameList ∧
          o.settingsPath = (settingsPaths requests).getLast?) ∧
      ∀ requests', requests'.Perm requests → rawLists requests' = rawLists requests →
        settingsPaths requests' = settingsPaths requests →
          (Options.parse (requests'.flatMap Request.words)).1.toOption =
            (Options.parse (requests.flatMap Request.words)).1.toOption := by
  refine ⟨?_, fun word hword => ?_, fun requests' hperm hraw hsettings => ?_⟩
  · rw [parse_words]
    match templates requests with
    | [] => simp
    | [word] => simp
    | _ :: _ :: _ => simp
  · rw [parse_words, hword]
    exact ⟨_, rfl, rfl, decide_eq_true_iff, decide_eq_true_iff, decide_eq_true_iff, rfl, rfl⟩
  · have htemplates : (templates requests').Perm (templates requests) := hperm.filterMap _
    rw [parse_words, parse_words, asked_perm hperm hraw hsettings]
    match hts : templates requests with
    | [] =>
        rw [hts] at htemplates
        rw [htemplates.eq_nil]
    | [word] =>
        rw [hts] at htemplates
        rw [List.perm_singleton.mp htemplates]
    | first :: second :: more =>
        rw [hts] at htemplates
        have hlen := htemplates.length_eq
        match templates requests', hlen with
        | _ :: _ :: _, _ => rfl

end Blade
