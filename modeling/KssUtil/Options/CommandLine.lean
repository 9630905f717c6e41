import KssUtil.Options.ProgramOptions

/-!
# Command lines of long options

A command line that gives options by their long names, and what `parse` makes of
it.
-/

namespace KssUtil.Options

open KssUtil.Foundation KssUtil.Libc

/-- Some of the options, and a value for each that takes an argument. -/
structure Assignment (poptions : List ProgramOption) where
  given : List (ProgramOption × List Char)
  known : ∀ x ∈ given, x.1 ∈ poptions
  nodup : (given.map fun x => x.1.name).Nodup
  value : ∀ x ∈ given, x.1.hasArg ≠ .none → x.2 ≠ []
  noValue : ∀ x ∈ given, x.1.hasArg = .none → x.2 = []
  text : ∀ x ∈ given, nul ∉ x.2

/-- What follows the dashes of a word. -/
def wordBody (x : ProgramOption × List Char) : List Char :=
  x.1.name ++ if x.1.hasArg = .none then [] else '=' :: x.2

/-- `--name` or `--name=value` -/
def word (x : ProgramOption × List Char) : List Char := '-' :: '-' :: wordBody x

namespace Assignment

variable {poptions : List ProgramOption}

def commandLine (a : Assignment poptions) (programName : List Char) : List (List Char) :=
  programName :: a.given.map word

/-- The object knows the options that are given and their values, and the defaults
of the others. -/
structure Restored (a : Assignment poptions) (impl : Impl) : Prop where
  present : ∀ n, n ≠ [] → (hasOption impl n = .ok true ↔ (∃ x ∈ a.given, x.1.name = n) ∨
    ∃ o ∈ poptions, o.hasArg = .optional ∧ o.name = n)
  values : ∀ x ∈ a.given, rawOptionValue impl x.1.name = .ok x.2
  absent : ∀ o ∈ poptions, o.hasArg = .optional → (∀ x ∈ a.given, x.1.name ≠ o.name) →
    rawOptionValue impl o.name = .ok o.defaultValue

end Assignment

/-- The command line of the assignment is parsed, and gives it back. -/
def RoundTrips (env : Env) (vars : Getopt) (impl : Impl) (ignoreUnknownOptions : Bool)
    (programName : List Char) (a : Assignment impl.poptions) : Prop :=
  ∃ enough, ∀ fuel ≥ enough,
    let r := parse env fuel vars impl (a.commandLine programName) ignoreUnknownOptions
    r.outcome = some (.ok ()) ∧ a.Restored r.impl

/-! ## One option -/

section

variable {env : Env} {poptions : List ProgramOption} {ignoreUnknownOptions : Bool}
  {x : ProgramOption × List Char} {scan : Scan}

theorem ne_nul_of_valid {name : List Char} (h : isValidArgumentName name = true) :
    name ≠ [] ∧ ∀ c ∈ name, c ≠ nul := by
  rw [isValidArgumentName, Bool.and_eq_true, List.all_eq_true] at h
  constructor
  · rintro rfl
    exact absurd h.1 (by decide)
  · rintro c hc rfl
    exact absurd (h.2 nul hc) (by decide)

theorem WellNamed.names (h : WellNamed poptions) :
    (createGetOptLongStructOptions poptions).map LongOption.name =
      poptions.map ProgramOption.name := by
  rw [createGetOptLongStructOptions, List.map_map]
  apply List.map_congr_left
  intro o ho
  exact cstr_of_ne (ne_nul_of_valid (h.valid o ho)).2

/-- The long option of an option of the table. -/
theorem getElem?_createGetOptLongStructOptions {i : ℕ} {p : LongOption} :
    (createGetOptLongStructOptions poptions)[i]? = some p ↔
      ∃ o, poptions[i]? = some o ∧
        p = { name := cstr o.name, hasArg := toHasArg o.hasArg, val := 0 } := by
  rw [createGetOptLongStructOptions, List.getElem?_map, Option.map_eq_some_iff]
  constructor
  · rintro ⟨o, ho, rfl⟩
    exact ⟨o, ho, rfl⟩
  · rintro ⟨o, ho, rfl⟩
    exact ⟨o, ho, rfl⟩

/-- The next element of the command line is the word of `x`. -/
structure AtWord (scan : Scan) (x : ProgramOption × List Char) : Prop where
  ready : scan.vars.Ready
  element : scan.argv[scan.vars.optind]? = some (word x)

/-- One element of the command line has been read. -/
structure Advanced (scan scan' : Scan) : Prop where
  argv : scan'.argv = scan.argv
  ready : scan'.vars.Ready
  optind : scan'.vars.optind = scan.vars.optind + 1

/-- The call of `getopt` at a word looks the option up by what is in front of the
first `=`. -/
theorem callGetopt_word (env : Env) (poptions : List ProgramOption) (hname : x.1.name ≠ [])
    (h : AtWord scan x) :
    ∃ g', scan.vars.Looking g' ∧
      (let answer := (processLongOption scan.argv (optionChars (createGetOptLongOptString poptions))
         (createGetOptLongStructOptions poptions) true { g' with nextchar := wordBody x }).getD
           { code := -1, vars := g' }
       callGetopt env poptions scan =
         (answer.code, { scan with vars := answer.vars,
                                   idx := (answer.longind.map Int.ofNat).getD scan.idx })) := by
  obtain ⟨g', hlook, hcall⟩ := getoptLongOnly_long env.posixlyCorrect
    (createGetOptLongOptString poptions) (createGetOptLongStructOptions poptions) h.ready h.element
    (List.append_ne_nil_of_left_ne_nil hname _)
  refine ⟨g', hlook, ?_⟩
  rw [callGetopt, hcall]

theorem optind_lt (h : AtWord scan x) : scan.vars.optind < scan.argv.length :=
  (List.getElem?_eq_some_iff.mp h.element).1

/-- An option of the table is found by its index. -/
theorem getOptionFromCharacter_zero (env : Env) (ignoreUnknownOptions : Bool) {i : ℕ}
    {o : ProgramOption} (ho : poptions[i]? = some o) :
    getOptionFromCharacter env 0 i poptions ignoreUnknownOptions = .ok (some o) := by
  have hlt : i < poptions.length := (List.getElem?_eq_some_iff.mp ho).1
  have hrange : decide ((0 : ℤ) ≤ i ∧ (i : ℤ) < poptions.length) = true := by
    rw [decide_eq_true_eq]
    omega
  rw [getOptionFromCharacter, if_neg (by decide), if_neg (by decide), if_pos rfl, hrange,
    assertion_bind, Int.toNat_natCast, ho]
  rfl

theorem parseLoop_next {fuel : ℕ} {ch : ℤ} {called handled : Scan}
    (hcall : callGetopt env poptions scan = (ch, called)) (hch : ch ≠ -1)
    (hhandle : handleOption env poptions ignoreUnknownOptions ch called = (handled, .ok ())) :
    parseLoop env poptions ignoreUnknownOptions (fuel + 1) scan =
      parseLoop env poptions ignoreUnknownOptions fuel handled := by
  rw [parseLoop, hcall]
  dsimp only
  rw [if_neg hch, hhandle]

theorem parseLoop_error {fuel : ℕ} {ch : ℤ} {called handled : Scan} {e : Exn}
    (hcall : callGetopt env poptions scan = (ch, called)) (hch : ch ≠ -1)
    (hhandle : handleOption env poptions ignoreUnknownOptions ch called = (handled, .error e)) :
    parseLoop env poptions ignoreUnknownOptions (fuel + 1) scan = (handled, some (.error e)) := by
  rw [parseLoop, hcall]
  dsimp only
  rw [if_neg hch, hhandle]

/-- After an option has been taken from the next element. -/
theorem advanced_of_looking {g' : Getopt} (hlook : scan.vars.Looking g')
    (optarg : Option (List Char)) (idx : ℤ) (results : Results) :
    Advanced scan ⟨scan.argv, { g' with optind := g'.optind + 1, nextchar := [], optarg },
      idx, results⟩ := by
  constructor
  · rfl
  · constructor
    · exact Nat.succ_pos _
    · intro _
      refine ⟨rfl, ?_⟩
      dsimp only
      rw [hlook.nonopts]
  · exact congrArg (· + 1) hlook.optind

/-- An option with an argument takes it from behind the `=`. -/
theorem storeResult_value {o : ProgramOption} (env : Env) (ho : o.hasArg ≠ .none)
    {value : List Char} (hvalue : value ≠ []) {argc : ℕ} (hoptind : scan.vars.optind ≤ argc)
    (hoptarg : scan.vars.optarg = some value) :
    storeResult env o argc scan =
      ({ scan with results := scan.results.set o.name value }, .ok ()) := by
  have hresult : getResultFromOption o argc scan.vars = .ok value := by
    rw [getResultFromOption, hoptarg]
    cases hasArg : o.hasArg with
    | none => exact absurd hasArg ho
    | required =>
        refine if_neg ?_
        rintro (hlt | hnil)
        · exact absurd hlt (Nat.not_lt.mpr hoptind)
        · exact hvalue hnil
    | optional => rfl
  rw [storeResult, hresult]
  rfl

/-- Only what stands behind the `=` can be stored. -/
theorem storeResult_cases {o : ProgramOption} (env : Env) (ho : o.hasArg ≠ .none)
    {value : List Char} (argc : ℕ) (hoptarg : scan.vars.optarg = some value) :
    (∃ scan' e, storeResult env o argc scan = (scan', .error e)) ∨
      storeResult env o argc scan =
        ({ scan with results := scan.results.set o.name value }, .ok ()) := by
  have hresult : ∀ v, getResultFromOption o argc scan.vars = .ok v → v = value := by
    intro v hv
    rw [getResultFromOption, hoptarg] at hv
    cases hasArg : o.hasArg with
    | none => exact absurd hasArg ho
    | required =>
        rw [hasArg] at hv
        dsimp only at hv
        split at hv
        · cases hv
        · exact (Except.ok.inj hv).symm
    | optional =>
        rw [hasArg] at hv
        exact (Except.ok.inj hv).symm
  rw [storeResult]
  cases hget : getResultFromOption o argc scan.vars with
  | error e => exact Or.inl ⟨_, e, rfl⟩
  | ok v =>
      right
      rw [hresult v hget]
      rfl

theorem toHasArg_eq_none {a : HasArgument} : toHasArg a = .noArgument ↔ a = .none := by
  cases a <;> decide

theorem letters_of_not_mem {cs : List Char} (h : '=' ∉ cs) :
    ∀ c ∈ cs, decide (c ≠ '=') = true := by
  rintro c hc
  rw [decide_eq_true_eq]
  rintro rfl
  exact h hc

/-- A name without `=` is what stands in front of the first one of its word. -/
theorem wordBody_clean (hclean : '=' ∉ x.1.name) :
    (wordBody x).takeWhile (· ≠ '=') = x.1.name ∧
      (wordBody x).dropWhile (· ≠ '=') = if x.1.hasArg = .none then [] else '=' :: x.2 := by
  have hletters := letters_of_not_mem hclean
  have hstop : Stops (fun c : Char => decide (c ≠ '='))
      (if x.1.hasArg = .none then [] else '=' :: x.2) := by
    split
    · exact stops_nil
    · exact stops_cons.mpr (by decide)
  exact ⟨takeWhile_append_stops hletters hstop, dropWhile_append_stops hletters hstop⟩

/-- A name without `=` is found, and its value stored. -/
theorem turn_given (env : Env) (ignoreUnknownOptions : Bool) (hnamed : WellNamed poptions)
    (hx : x.1 ∈ poptions) (hclean : '=' ∉ x.1.name) (hvalue : x.1.hasArg ≠ .none → x.2 ≠ [])
    (hnoValue : x.1.hasArg = .none → x.2 = []) (h : AtWord scan x) : ∃ scan', Advanced scan scan' ∧
      scan'.results = scan.results.set x.1.name x.2 ∧
        ∀ fuel, parseLoop env poptions ignoreUnknownOptions (fuel + 1) scan =
          parseLoop env poptions ignoreUnknownOptions fuel scan' := by
  obtain ⟨hne, hnul⟩ := ne_nul_of_valid (hnamed.valid x.1 hx)
  obtain ⟨i, ho⟩ := List.mem_iff_getElem?.mp hx
  obtain ⟨g', hlook, hcall⟩ := callGetopt_word env poptions hne h
  have hlong := getElem?_createGetOptLongStructOptions.mpr ⟨x.1, ho, rfl⟩
  have hnodup : ((createGetOptLongStructOptions poptions).map LongOption.name).Nodup := by
    rw [hnamed.names]
    exact hnamed.nodup
  have hmatch := matchLong_of_name true hnodup hlong
  dsimp only at hmatch
  rw [cstr_of_ne hnul] at hmatch
  obtain ⟨htake, hdrop⟩ := wordBody_clean hclean
  rw [← htake] at hmatch
  rw [processLongOption_of_found (g := { g' with nextchar := wordBody x }) _ _ hmatch, hdrop]
    at hcall
  have hlt := optind_lt h
  rw [← hlook.optind] at hlt
  have hcode : (0 : ℤ) ≠ -1 := by decide
  have hoption := getOptionFromCharacter_zero env ignoreUnknownOptions ho
  by_cases hasArg : x.1.hasArg = .none
  · rw [if_pos hasArg, foundLong_plain _ _ _ _ (toHasArg_eq_none.mpr hasArg)] at hcall
    refine ⟨⟨scan.argv, { g' with optind := g'.optind + 1, nextchar := [] }, i,
      scan.results.set x.1.name x.2⟩, advanced_of_looking hlook _ _ _, rfl, ?_⟩
    intro fuel
    refine parseLoop_next hcall hcode ?_
    rw [handleOption]
    dsimp only [Option.map_some, Option.getD_some, Int.ofNat_eq_natCast]
    rw [hoption, hnoValue hasArg]
    dsimp only
    rw [storeResult, getResultFromOption, hasArg]
    rfl
  · rw [if_neg hasArg, foundLong_value _ _ _ _ (fun hno => hasArg (toHasArg_eq_none.mp hno))]
      at hcall
    refine ⟨⟨scan.argv, { g' with optind := g'.optind + 1, nextchar := [], optarg := some x.2 }, i,
      scan.results.set x.1.name x.2⟩, advanced_of_looking hlook _ _ _, rfl, ?_⟩
    intro fuel
    refine parseLoop_next hcall hcode ?_
    rw [handleOption]
    dsimp only [Option.map_some, Option.getD_some, Int.ofNat_eq_natCast]
    rw [hoption]
    exact storeResult_value env hasArg (hvalue hasArg) hlt rfl

/-! ### A name with `=` -/

/-- An option that is not recognised is an error, or is skipped. -/
theorem parseLoop_unknown (env : Env) (ignoreUnknownOptions : Bool) {called : Scan}
    (hcall : callGetopt env poptions scan = (unknownCode, called)) :
    (∀ fuel, parseLoop env poptions ignoreUnknownOptions (fuel + 1) scan =
        (called, some (.error .invalidArgument))) ∨
      ∀ fuel, parseLoop env poptions ignoreUnknownOptions (fuel + 1) scan =
        parseLoop env poptions ignoreUnknownOptions fuel called := by
  have hcode : unknownCode ≠ -1 := by decide
  cases ignoreUnknownOptions with
  | false =>
      left
      intro fuel
      refine parseLoop_error hcall hcode ?_
      rw [handleOption, getOptionFromCharacter, if_pos (show unknownCode = '?'.toNat from rfl)]
      rfl
  | true =>
      right
      intro fuel
      refine parseLoop_next hcall hcode ?_
      rw [handleOption, getOptionFromCharacter, if_pos (show unknownCode = '?'.toNat from rfl)]
      have hassert : assertion env.ndebug true = .ok () := by
        rw [assertion, Bool.or_true]
        rfl
      exact congrArg (Prod.mk called) hassert

/-- What stands behind the first `=` of a word whose name has one. -/
theorem wordBody_cut (hcut : '=' ∈ x.1.name) : ∃ value,
    (wordBody x).dropWhile (· ≠ '=') = '=' :: value ∧ (x.1.hasArg ≠ .none → value ≠ x.2) := by
  obtain ⟨pre, post, hname, hpre⟩ := List.eq_append_cons_of_mem hcut
  have hletters := letters_of_not_mem hpre
  have hstop : ∀ tail, Stops (fun c : Char => decide (c ≠ '=')) ('=' :: tail) :=
    fun tail => stops_cons.mpr (by decide)
  refine ⟨post ++ if x.1.hasArg = .none then [] else '=' :: x.2, ?_, ?_⟩
  · rw [wordBody, hname, List.append_assoc, List.cons_append]
    exact dropWhile_append_stops hletters (hstop _)
  · intro hasArg heq
    have hlen := congrArg List.length heq
    rw [if_neg hasArg, List.length_append, List.length_cons] at hlen
    omega

/-- The loop ends in an error, or the value of `x` is not stored under its name. -/
def Misses (env : Env) (poptions : List ProgramOption) (ignoreUnknownOptions : Bool) (scan : Scan)
    (x : ProgramOption × List Char) : Prop :=
  (∃ scan' e, ∀ fuel, parseLoop env poptions ignoreUnknownOptions (fuel + 1) scan =
      (scan', some (.error e))) ∨
    ∃ scan', Advanced scan scan' ∧
      (scan'.results x.1.name = scan.results x.1.name ∨ scan'.results x.1.name ≠ some x.2) ∧
        ∀ fuel, parseLoop env poptions ignoreUnknownOptions (fuel + 1) scan =
          parseLoop env poptions ignoreUnknownOptions fuel scan'

theorem misses_of_unknown (env : Env) (ignoreUnknownOptions : Bool) {g' : Getopt}
    (hlook : scan.vars.Looking g')
    (hcall : callGetopt env poptions scan = (unknownCode,
      ⟨scan.argv, { g' with optind := g'.optind + 1, nextchar := [] }, scan.idx,
        scan.results⟩)) :
    Misses env poptions ignoreUnknownOptions scan x := by
  rcases parseLoop_unknown env ignoreUnknownOptions hcall with herror | hnext
  · exact Or.inl ⟨_, _, herror⟩
  · exact Or.inr ⟨_, advanced_of_looking hlook _ _ _, Or.inl rfl, hnext⟩

/-- A value is stored under a name that is found: that of another option, or the name of
`x` with a value that is not its own. -/
theorem misses_of_found (env : Env) (ignoreUnknownOptions : Bool) (hnamed : WellNamed poptions)
    (hx : x.1 ∈ poptions) {g' : Getopt} (hlook : scan.vars.Looking g') {o : ProgramOption} {i : ℕ}
    (ho : poptions[i]? = some o) (hasArg : o.hasArg ≠ .none) {value : List Char}
    (hvalue : x.1.hasArg ≠ .none → value ≠ x.2)
    (hcall : callGetopt env poptions scan = (0,
      ⟨scan.argv, { g' with optind := g'.optind + 1, nextchar := [], optarg := some value }, i,
        scan.results⟩)) :
    Misses env poptions ignoreUnknownOptions scan x := by
  have hcode : (0 : ℤ) ≠ -1 := by decide
  let taken : Scan :=
    { argv := scan.argv, idx := i, results := scan.results,
      vars := { g' with optind := g'.optind + 1, nextchar := [], optarg := some value } }
  have hhandle : handleOption env poptions ignoreUnknownOptions 0 taken =
      storeResult env o scan.argv.length taken := by
    rw [handleOption]
    dsimp only [taken]
    rw [getOptionFromCharacter_zero env ignoreUnknownOptions ho]
  have hoptarg : taken.vars.optarg = some value := rfl
  rcases storeResult_cases env hasArg scan.argv.length hoptarg with ⟨scan', e, hstore⟩ | hstore
  · exact Or.inl ⟨scan', e, fun fuel => parseLoop_error hcall hcode (hhandle.trans hstore)⟩
  · refine Or.inr ⟨_, advanced_of_looking hlook _ _ _, ?_,
      fun fuel => parseLoop_next hcall hcode (hhandle.trans hstore)⟩
    by_cases hname : x.1.name = o.name
    · -- the option itself: its value has got longer
      right
      have hsame := hnamed.inj hx (List.mem_of_getElem? ho) hname
      rw [← hsame] at hasArg
      dsimp only [taken]
      rw [Results.set, if_pos hname]
      intro heq
      exact hvalue hasArg (Option.some.inj heq)
    · left
      exact if_neg hname

/-- The name is cut at its first `=`. -/
theorem turn_cut (env : Env) (ignoreUnknownOptions : Bool) (hnamed : WellNamed poptions)
    (hx : x.1 ∈ poptions) (hcut : '=' ∈ x.1.name) (h : AtWord scan x) :
    Misses env poptions ignoreUnknownOptions scan x := by
  obtain ⟨g', hlook, hcall⟩ := callGetopt_word env poptions
    (ne_nul_of_valid (hnamed.valid x.1 hx)).1 h
  obtain ⟨value, hdrop, hvalue⟩ := wordBody_cut hcut
  -- the name that is looked up is cut at its `=`: it may be that of another option
  by_cases hfound : ∃ p i, matchLong true (createGetOptLongStructOptions poptions)
      ((wordBody x).takeWhile (· ≠ '=')) = .found p i
  · obtain ⟨p, i, hmatch⟩ := hfound
    rw [processLongOption_of_found (g := { g' with nextchar := wordBody x }) _ _ hmatch, hdrop]
      at hcall
    obtain ⟨o, ho, rfl⟩ := getElem?_createGetOptLongStructOptions.mp (matchLong_found hmatch)
    by_cases hasArg : o.hasArg = .none
    · rw [foundLong_unwanted _ _ _ _ (toHasArg_eq_none.mpr hasArg)] at hcall
      exact misses_of_unknown env ignoreUnknownOptions hlook hcall
    · rw [foundLong_value _ _ _ _ (fun hno => hasArg (toHasArg_eq_none.mp hno))] at hcall
      exact misses_of_found env ignoreUnknownOptions hnamed hx hlook ho hasArg hvalue hcall
  · have hdash : (scan.argv.getD g'.optind []).getD 1 nul = '-' := by
      have hget : scan.argv.getD scan.vars.optind [] = word x := by
        rw [List.getD_eq_getElem?_getD, h.element]
        rfl
      rw [hlook.optind, hget]
      rfl
    rw [processLongOption_of_not_found (g := { g' with nextchar := wordBody x }) _ hdash
      fun p i hmatch => hfound ⟨p, i, hmatch⟩] at hcall
    exact misses_of_unknown env ignoreUnknownOptions hlook hcall

theorem parseLoop_end (env : Env) (poptions : List ProgramOption) (ignoreUnknownOptions : Bool)
    (fuel : ℕ) (hready : scan.vars.Ready)
    (hend : scan.vars.optind = scan.argv.length) :
    ∃ scan', scan'.results = scan.results ∧
      parseLoop env poptions ignoreUnknownOptions (fuel + 1) scan = (scan', some (.ok ())) := by
  have hcode := getoptLongOnly_end env.posixlyCorrect (createGetOptLongOptString poptions)
    (createGetOptLongStructOptions poptions) hready hend
  refine ⟨(callGetopt env poptions scan).2, rfl, ?_⟩
  rw [parseLoop]
  exact if_pos hcode

/-- The rest of a command line is `given`. -/
theorem parseLoop_given (env : Env) (ignoreUnknownOptions : Bool) (hnamed : WellNamed poptions) :
    ∀ {given : List (ProgramOption × List Char)},
    (∀ x ∈ given, x.1 ∈ poptions ∧ '=' ∉ x.1.name ∧ (x.1.hasArg ≠ .none → x.2 ≠ []) ∧
      (x.1.hasArg = .none → x.2 = [])) →
    ∀ {scan : Scan}, scan.vars.Ready → scan.vars.optind ≤ scan.argv.length →
      scan.argv.drop scan.vars.optind = given.map word →
        ∀ fuel > given.length, ∃ scan',
          scan'.results = scan.results.setAll (given.map fun x => (x.1.name, x.2)) ∧
            parseLoop env poptions ignoreUnknownOptions fuel scan = (scan', some (.ok ())) := by
  intro given
  induction given with
  | nil =>
      intro _ scan hready hle hdrop fuel hfuel
      obtain ⟨fuel, rfl⟩ := Nat.exists_eq_succ_of_ne_zero (Nat.ne_of_gt hfuel)
      have hend := Nat.le_antisymm hle (List.drop_eq_nil_iff.mp hdrop)
      exact parseLoop_end env poptions ignoreUnknownOptions fuel hready hend
  | cons x given ih =>
      intro hgiven scan hready hle hdrop fuel hfuel
      obtain ⟨fuel, rfl⟩ := Nat.exists_eq_succ_of_ne_zero (Nat.ne_of_gt (Nat.zero_lt_of_lt hfuel))
      obtain ⟨⟨hx, hclean, hvalue, hnoValue⟩, hrest⟩ := List.forall_mem_cons.mp hgiven
      have hword : AtWord scan x := by
        refine ⟨hready, ?_⟩
        rw [← List.head?_drop, hdrop]
        rfl
      obtain ⟨scan', hadvanced, hresults, hturn⟩ := turn_given env ignoreUnknownOptions
        hnamed hx hclean hvalue hnoValue hword
      have hle' : scan'.vars.optind ≤ scan'.argv.length := by
        rw [hadvanced.argv, hadvanced.optind]
        exact optind_lt hword
      have hdrop' : scan'.argv.drop scan'.vars.optind = given.map word := by
        rw [hadvanced.argv, hadvanced.optind, ← List.tail_drop, hdrop]
        rfl
      obtain ⟨scan'', hresults', hloop⟩ := ih hrest hadvanced.ready hle' hdrop' fuel
        (Nat.lt_of_succ_lt_succ hfuel)
      refine ⟨scan'', ?_, (hturn fuel).trans hloop⟩
      rw [hresults', hresults]
      rfl

end

/-! ## Whole command lines -/

section

variable {env : Env} {vars : Getopt} {impl : Impl} {ignoreUnknownOptions : Bool}
  {programName : List Char}

/-- The results of a command line that is read as it was written. -/
theorem restored_of_results (hnamed : WellNamed impl.poptions) (a : Assignment impl.poptions)
    {impl' : Impl} (hresults : impl'.results = (initWithDefaultValues impl.poptions).setAll
      (a.given.map fun x => (x.1.name, x.2))) : a.Restored impl' := by
  -- a name is given at most once, so its value is not overwritten
  have hentries : ((a.given.map fun x => (x.1.name, x.2)).map Prod.fst).Nodup := by
    rw [List.map_map]
    exact a.nodup
  have hgiven : ∀ x ∈ a.given, impl'.results x.1.name = some x.2 := by
    intro x hx
    rw [hresults]
    exact Results.setAll_of_mem hentries (List.mem_map.mpr ⟨x, hx, rfl⟩) _
  have hdefault : ∀ n, (∀ x ∈ a.given, x.1.name ≠ n) →
      impl'.results n = Results.setAll (fun _ => none) (defaults impl.poptions) n := by
    intro n hn
    rw [hresults, ← initWithDefaultValues_eq]
    apply Results.setAll_of_not_mem
    intro y hy
    obtain ⟨x, hx, rfl⟩ := List.mem_map.mp hy
    exact hn x hx
  have hname : ∀ o ∈ impl.poptions, o.name ≠ [] :=
    fun o ho => (ne_nul_of_valid (hnamed.valid o ho)).1
  constructor
  · intro n hn
    have hsome : hasOption impl' n = .ok true ↔ (impl'.results n).isSome = true := by
      rw [hasOption, if_neg hn]
      exact ⟨fun h => Except.ok.inj h, fun h => congrArg Except.ok h⟩
    rw [hsome]
    by_cases hpresent : ∃ x ∈ a.given, x.1.name = n
    · obtain ⟨x, hx, rfl⟩ := hpresent
      rw [hgiven x hx]
      exact iff_of_true rfl (Or.inl ⟨x, hx, rfl⟩)
    · rw [or_iff_right hpresent, hdefault n fun x hx heq => hpresent ⟨x, hx, heq⟩]
      by_cases hoptional : ∃ o ∈ impl.poptions, o.hasArg = .optional ∧ o.name = n
      · obtain ⟨o, ho, hopt, rfl⟩ := hoptional
        rw [Results.setAll_of_mem hnamed.nodup_defaults (mem_defaults.mpr ⟨o, ho, hopt, rfl⟩)]
        exact iff_of_true rfl ⟨o, ho, hopt, rfl⟩
      · rw [Results.setAll_of_not_mem]
        · exact iff_of_false Bool.false_ne_true hoptional
        · rintro y hy rfl
          obtain ⟨o, ho, hopt, rfl⟩ := mem_defaults.mp hy
          exact hoptional ⟨o, ho, hopt, rfl⟩
  · intro x hx
    rw [rawOptionValue, if_neg (hname x.1 (a.known x hx)), hgiven x hx]
    rfl
  · intro o ho hopt habsent
    rw [rawOptionValue, if_neg (hname o ho), hdefault o.name habsent,
      Results.setAll_of_mem hnamed.nodup_defaults (mem_defaults.mpr ⟨o, ho, hopt, rfl⟩)]
    rfl

theorem roundTrips_of_clean (hnamed : WellNamed impl.poptions) (hidle : vars.Idle)
    (a : Assignment impl.poptions) (hclean : ∀ x ∈ a.given, '=' ∉ x.1.name) :
    RoundTrips env vars impl ignoreUnknownOptions programName a := by
  have hgiven : ∀ x ∈ a.given, x.1 ∈ impl.poptions ∧ '=' ∉ x.1.name ∧
      (x.1.hasArg ≠ .none → x.2 ≠ []) ∧ (x.1.hasArg = .none → x.2 = []) :=
    fun x hx => ⟨a.known x hx, hclean x hx, a.value x hx, a.noValue x hx⟩
  let scan : Scan := ⟨a.commandLine programName, { vars with optind := 1 }, -1,
    initWithDefaultValues impl.poptions⟩
  have hstart : scan.vars.Ready ∧ scan.vars.optind ≤ scan.argv.length ∧
      scan.argv.drop scan.vars.optind = a.given.map word :=
    ⟨hidle.ready, Nat.succ_le_succ (Nat.zero_le _), rfl⟩
  refine ⟨a.given.length + 1, ?_⟩
  intro fuel hfuel
  obtain ⟨scan', hresults, hloop⟩ := parseLoop_given env ignoreUnknownOptions
    hnamed hgiven hstart.1 hstart.2.1 hstart.2.2 fuel hfuel
  have hparse : parse env fuel vars impl (a.commandLine programName) ignoreUnknownOptions =
      (let r := parseLoop env impl.poptions ignoreUnknownOptions fuel scan
       ⟨r.2, r.1.vars, { impl with results := r.1.results, programName }⟩) := rfl
  rw [hparse, hloop]
  exact ⟨rfl, restored_of_results hnamed a hresults⟩

/-- What an option has from the beginning is its default. -/
theorem initWithDefaultValues_some {poptions : List ProgramOption} (hnamed : WellNamed poptions)
    {o : ProgramOption} {v : List Char} (ho : o ∈ poptions)
    (h : initWithDefaultValues poptions o.name = some v) :
    o.hasArg = .optional ∧ v = o.defaultValue := by
  rw [initWithDefaultValues_eq] at h
  have hopt : o.hasArg = .optional := by
    by_contra hne
    rw [Results.setAll_of_not_mem] at h
    · cases h
    · intro y hy heq
      obtain ⟨o', ho', hopt', rfl⟩ := mem_defaults.mp hy
      rw [hnamed.inj ho' ho heq] at hopt'
      exact hne hopt'
  refine ⟨hopt, ?_⟩
  have hdefault := Results.setAll_of_mem hnamed.nodup_defaults
    (mem_defaults.mpr ⟨o, ho, hopt, rfl⟩) fun _ => none
  exact Option.some.inj (h.symm.trans hdefault)

/-- One option, given alone. -/
def Assignment.single {poptions : List ProgramOption} (o : ProgramOption) (v : List Char)
    (ho : o ∈ poptions) (hvalue : o.hasArg ≠ .none → v ≠ []) (hnoValue : o.hasArg = .none → v = [])
    (htext : nul ∉ v) : Assignment poptions where
  given := [(o, v)]
  known := List.forall_mem_singleton.mpr ho
  nodup := List.nodup_singleton _
  value := List.forall_mem_singleton.mpr hvalue
  noValue := List.forall_mem_singleton.mpr hnoValue
  text := List.forall_mem_singleton.mpr htext

/-- A value that is not the default. -/
def otherValue (o : ProgramOption) : List Char :=
  if o.hasArg = .none then [] else if o.defaultValue = ['x'] then ['y'] else ['x']

/-- An option with `=` in its name is not given back when it is given alone, with a
value that is not its default. -/
theorem not_roundTrips_single (hnamed : WellNamed impl.poptions) (hidle : vars.Idle)
    {o : ProgramOption} {v : List Char} (ho : o ∈ impl.poptions) (hcut : '=' ∈ o.name)
    (hvalue : o.hasArg ≠ .none → v ≠ []) (hnoValue : o.hasArg = .none → v = []) (htext : nul ∉ v)
    (hdefault : o.hasArg = .optional → v ≠ o.defaultValue) :
    ¬ RoundTrips env vars impl ignoreUnknownOptions programName
      (Assignment.single o v ho hvalue hnoValue htext) := by
  rintro ⟨enough, h⟩
  let scan : Scan := ⟨[programName, word (o, v)], { vars with optind := 1 }, -1,
    initWithDefaultValues impl.poptions⟩
  obtain ⟨houtcome, hrestored⟩ := h (enough + 2) (Nat.le_add_right _ _)
  have hparse : parse env (enough + 2) vars impl
      ((Assignment.single o v ho hvalue hnoValue htext).commandLine programName)
        ignoreUnknownOptions =
      (let r := parseLoop env impl.poptions ignoreUnknownOptions (enough + 2) scan
       ⟨r.2, r.1.vars, { impl with results := r.1.results, programName }⟩) := rfl
  rw [hparse] at houtcome hrestored
  have hword : AtWord scan (o, v) := ⟨hidle.ready, rfl⟩
  rcases turn_cut env ignoreUnknownOptions hnamed ho hcut hword with
    ⟨scan', e, herror⟩ | ⟨scan', hadvanced, hstored, hnext⟩
  · rw [herror] at houtcome
    cases houtcome
  · have hend : scan'.vars.optind = scan'.argv.length := by
      rw [hadvanced.argv, hadvanced.optind]
      rfl
    obtain ⟨scan'', hresults, hloop⟩ := parseLoop_end env impl.poptions ignoreUnknownOptions
      enough hadvanced.ready hend
    rw [hnext, hloop] at hrestored
    have hraw := hrestored.values (o, v) List.mem_cons_self
    have hname := (ne_nul_of_valid (hnamed.valid o ho)).1
    have hread : scan'.results o.name = some v := by
      rw [rawOptionValue, if_neg hname] at hraw
      dsimp only at hraw
      rw [hresults] at hraw
      split at hraw
      · rename_i value hsome
        rw [hsome, ← Except.ok.inj hraw]
      · cases hraw
    rcases hstored with hsame | hother
    · -- the value is there from the beginning, so it is the default of the option
      rw [hread] at hsame
      have hinit : initWithDefaultValues impl.poptions o.name = some v := hsame.symm
      obtain ⟨hopt, heq⟩ := initWithDefaultValues_some hnamed ho hinit
      exact hdefault hopt heq
    · exact hother hread

/-- **The round trip of command lines.**  Whatever is given is given back if no name
of the table has a `=`, and in any case if none of those given has. -/
theorem round_trips_iff_names (env : Env) (hidle : vars.Idle) (haccepted : Accepted impl.poptions)
    (ignoreUnknownOptions : Bool) (programName : List Char) :
    ((∀ a : Assignment impl.poptions,
        RoundTrips env vars impl ignoreUnknownOptions programName a) ↔
      ∀ o ∈ impl.poptions, '=' ∉ o.name) ∧
    ∀ a : Assignment impl.poptions, (∀ x ∈ a.given, '=' ∉ x.1.name) →
      RoundTrips env vars impl ignoreUnknownOptions programName a := by
  have hnamed := haccepted.wellNamed
  refine ⟨⟨?_, ?_⟩, fun a => roundTrips_of_clean hnamed hidle a⟩
  · intro h o ho hcut
    have hvalue : o.hasArg ≠ .none → otherValue o ≠ [] := by
      intro hne
      rw [otherValue, if_neg hne]
      split <;> exact List.cons_ne_nil _ _
    have hnoValue : o.hasArg = .none → otherValue o = [] := fun heq => if_pos heq
    have htext : nul ∉ otherValue o := by
      unfold otherValue
      split
      · exact List.not_mem_nil
      · split <;> decide
    have hdefault : o.hasArg = .optional → otherValue o ≠ o.defaultValue := by
      intro hopt
      rw [otherValue, if_neg (by rw [hopt]; decide)]
      split
      · rename_i heq
        rw [heq]
        decide
      · rename_i hne
        exact fun heq => hne heq.symm
    exact not_roundTrips_single hnamed hidle ho hcut hvalue hnoValue htext hdefault (h _)
  · intro hclean a
    exact roundTrips_of_clean hnamed hidle a fun x hx => hclean x.1 (a.known x hx)

/-- `--out=<value>`, `--output[=<value>]` and `--verbose`; the first is the beginning of the
second. -/
def outAndOutput : Impl :=
  { poptions :=
      [{ name := "out".toList, shortOption := 'o', hasArg := .required },
       { name := "output".toList, shortOption := noShortOption, hasArg := .optional,
         defaultValue := "a.txt".toList },
       { name := "verbose".toList, shortOption := 'v' }]
    results := fun _ => none
    programName := [] }

theorem accepted_outAndOutput : Accepted outAndOutput.poptions :=
  ((Accepted.nil.add
    (o := { name := "out".toList, shortOption := 'o', hasArg := .required }) rfl).add
    (o := { name := "output".toList, shortOption := noShortOption, hasArg := .optional,
            defaultValue := "a.txt".toList }) rfl).add
    (o := { name := "verbose".toList, shortOption := 'v' }) rfl

/-- `--out=--x --verbose`, without `--output` -/
def outIsGiven : Assignment outAndOutput.poptions where
  given :=
    [({ name := "out".toList, shortOption := 'o', hasArg := .required }, "--x".toList),
     ({ name := "verbose".toList, shortOption := 'v' }, [])]
  known := by decide
  nodup := by decide
  value := by decide
  noValue := by decide
  text := by decide

theorem idle_fresh : Getopt.Idle {} := fun h => absurd h (by decide)

theorem round_trips_iff_names_out :
    outIsGiven.commandLine "prog".toList =
        ["prog".toList, "--out=--x".toList, "--verbose".toList] ∧
      RoundTrips ⟨false, false, false⟩ {} outAndOutput false "prog".toList outIsGiven :=
  ⟨rfl, (round_trips_iff_names ⟨false, false, false⟩ idle_fresh accepted_outAndOutput false
    "prog".toList).2 outIsGiven (by decide)⟩

/-- A table of one option, without arguments or a short form. -/
def oneOption (name : List Char) : Impl :=
  { poptions := [{ name, shortOption := noShortOption }], results := fun _ => none,
    programName := [] }

theorem accepted_oneOption {name : List Char} (h : isValidArgumentName name = true) :
    Accepted (oneOption name).poptions := by
  refine Accepted.nil.add (o := { name, shortOption := noShortOption }) ?_
  unfold add verifyOption
  rw [h]
  rfl

/-- `add` takes the name `a=b`, and `parse` throws on `--a=b`. -/
theorem name_with_equals_is_lost :
    ∃ a : Assignment (oneOption "a=b".toList).poptions,
      Accepted (oneOption "a=b".toList).poptions ∧
      a.commandLine "prog".toList = ["prog".toList, "--a=b".toList] ∧
      ¬ RoundTrips ⟨false, false, false⟩ {} (oneOption "a=b".toList) false "prog".toList a := by
  have ho : { name := "a=b".toList, shortOption := noShortOption } ∈
      (oneOption "a=b".toList).poptions := List.mem_singleton_self _
  have hvalid : isValidArgumentName "a=b".toList = true := by decide
  have hnamed := (accepted_oneOption hvalid).wellNamed
  refine ⟨Assignment.single _ [] ho (fun h => absurd rfl h) (fun _ => rfl) List.not_mem_nil,
    accepted_oneOption hvalid, rfl, ?_⟩
  refine not_roundTrips_single hnamed idle_fresh ho ?_ _ _ _ ?_
  · decide
  · intro hopt
    cases hopt

end
end KssUtil.Options
