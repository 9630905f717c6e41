import KssUtil.Options.Readings

/-!
# Parses that fail

What a call of `parse` that throws leaves in the object.
-/

namespace KssUtil.Options

open KssUtil.Libc

/-- The same answers from `usage`, from `hasOption` and from `rawOptionValue`. -/
structure SameAnswers (impl impl' : Impl) : Prop where
  usage : usage impl' = usage impl
  hasOption : ∀ n, hasOption impl' n = hasOption impl n
  rawOptionValue : ∀ n, rawOptionValue impl' n = rawOptionValue impl n

/-- After the findings of `rs`, which are gone on from, `getopt` comes to that of `r`, which is
refused. -/
inductive Refusal (env : Env) (poptions : List ProgramOption) (ignoreUnknownOptions : Bool) :
    List (List Char) → Getopt → List Reading → Reading → Prop where
  | here {argv : List (List Char)} {g : Getopt} {f : Finding} {after : List (List Char) × Answer}
      (h : getoptFinding env.posixlyCorrect argv (createGetOptLongOptString poptions)
        (createGetOptLongStructOptions poptions) g = f) (hf : f ≠ .finished)
      (hafter : getoptLongOnly env.posixlyCorrect argv (createGetOptLongOptString poptions)
        (createGetOptLongStructOptions poptions) g = after)
      (hrefused : verdict env.ndebug poptions ignoreUnknownOptions
        ⟨f, after.1.length, after.2.vars⟩ = .refused) :
      Refusal env poptions ignoreUnknownOptions argv g [] ⟨f, after.1.length, after.2.vars⟩
  | next {argv : List (List Char)} {g : Getopt} {f : Finding} {rs : List Reading} {r : Reading}
      {after : List (List Char) × Answer}
      (h : getoptFinding env.posixlyCorrect argv (createGetOptLongOptString poptions)
        (createGetOptLongStructOptions poptions) g = f) (hf : f ≠ .finished)
      (hafter : getoptLongOnly env.posixlyCorrect argv (createGetOptLongOptString poptions)
        (createGetOptLongStructOptions poptions) g = after)
      (hgone : verdict env.ndebug poptions ignoreUnknownOptions
          ⟨f, after.1.length, after.2.vars⟩ = .passed ∨
        verdict env.ndebug poptions ignoreUnknownOptions
          ⟨f, after.1.length, after.2.vars⟩ = .overlooked)
      (rest : Refusal env poptions ignoreUnknownOptions after.1 after.2.vars rs r) :
      Refusal env poptions ignoreUnknownOptions argv g (⟨f, after.1.length, after.2.vars⟩ :: rs) r

/-- The options that the findings give, each with its value -/
def taken (poptions : List ProgramOption) (rs : List Reading) : List (ProgramOption × List Char) :=
  rs.filterMap fun r => (reported poptions r.finding).map fun o => (o, r.value o)

/-- An option whose value is refused may get an entry, but no value. -/
def refusedEntry (env : Env) (poptions : List ProgramOption) (r : Reading) (name : List Char) :
    Option (List Char) :=
  if env.lookupFirst ∧ (reported poptions r.finding).any (fun o => o.name = name) then some []
  else none

/-- There is no command line; or the object has its program name already, and for every name the
value that is given last in front of what is refused, or the default if none is given. -/
def AlreadyHeld (env : Env) (vars : Getopt) (impl : Impl) (argv : List (List Char))
    (ignoreUnknownOptions : Bool) : Prop :=
  argv = [] ∨ argv.head? = some impl.programName ∧ ∃ rs r,
    Refusal env impl.poptions ignoreUnknownOptions argv { vars with optind := 1 } rs r ∧
    ∀ n ≠ [], impl.results n =
      (valueOf impl.poptions (taken impl.poptions rs) n).or (refusedEntry env impl.poptions r n)

/-- Calls of `add` and of `parse` of which none has succeeded, on one object, with the
command lines in order.  Other objects may be used in between, so nothing is said about
the variables of `getopt`. -/
inductive NoneParsed (env : Env) : List (List (List Char)) → Impl → Prop where
  | fresh : NoneParsed env [] ⟨[], fun _ => none, []⟩
  | add {argvs : List (List (List Char))} {impl : Impl} {o : ProgramOption}
      {poptions' : List ProgramOption} (h : NoneParsed env argvs impl)
      (hadd : add impl.poptions o = .ok poptions') :
      NoneParsed env argvs { impl with poptions := poptions' }
  | parse {argvs : List (List (List Char))} {impl : Impl} (fuel : ℕ) (vars : Getopt)
      (argv : List (List Char)) (ignoreUnknownOptions : Bool) (h : NoneParsed env argvs impl)
      (hfailed : (parse env fuel vars impl argv ignoreUnknownOptions).outcome =
        some (.error .invalidArgument)) :
      NoneParsed env (argvs ++ [argv]) (parse env fuel vars impl argv ignoreUnknownOptions).impl

/-! ## What can be observed -/

section

variable {impl : Impl}

theorem usage_eq_nil : usage impl = [] ↔ impl.programName = [] := by
  constructor
  · intro h
    by_contra hname
    rw [usage, if_neg hname] at h
    cases h
  · intro hname
    rw [usage, if_pos hname]

/-- The text begins with the program name. -/
theorem usage_programName {programName : List Char} {results : Results} :
    usage ⟨impl.poptions, results, programName⟩ = usage impl ↔ programName = impl.programName := by
  constructor
  · intro h
    by_cases hname : impl.programName = []
    · rw [usage_eq_nil.mpr hname] at h
      rw [hname]
      exact usage_eq_nil.mp h
    · by_cases hname' : programName = []
      · have hnil : usage ⟨impl.poptions, results, programName⟩ = [] := usage_eq_nil.mpr hname'
        rw [hnil] at h
        exact absurd (usage_eq_nil.mp h.symm) hname
      · unfold usage at h
        rw [if_neg hname, if_neg hname'] at h
        exact List.append_cancel_left (List.append_cancel_right (List.append_cancel_right
          (List.append_cancel_right h)))
  · rintro rfl
    rfl

/-- Only the entries that have a name can be asked for. -/
theorem sameAnswers_iff {results : Results} {programName : List Char} :
    SameAnswers impl ⟨impl.poptions, results, programName⟩ ↔
      programName = impl.programName ∧ ∀ n ≠ [], impl.results n = results n := by
  constructor
  · intro h
    refine ⟨usage_programName.mp h.usage, ?_⟩
    intro n hn
    have hhas := h.hasOption n
    have hraw := h.rawOptionValue n
    unfold Options.hasOption at hhas
    unfold Options.rawOptionValue at hraw
    rw [if_neg hn, if_neg hn] at hhas hraw
    have hsome : (results n).isSome = (impl.results n).isSome := Except.ok.inj hhas
    dsimp only at hraw
    cases hnew : results n with
    | none =>
        rw [hnew] at hsome
        exact Option.not_isSome_iff_eq_none.mp (by rw [← hsome]; decide)
    | some value =>
        rw [hnew] at hsome hraw
        obtain ⟨value', hold⟩ := Option.isSome_iff_exists.mp hsome.symm
        rw [hold] at hraw ⊢
        rw [Except.ok.inj hraw]
  · rintro ⟨hname, hresults⟩
    constructor
    · exact usage_programName.mpr hname
    · exact fun n => hasOption_congr fun hn => (hresults n hn).symm
    · exact fun n => rawOptionValue_congr fun hn => (hresults n hn).symm

end

/-! ## The loop -/

section

variable {env : Env} {poptions : List ProgramOption} {ignoreUnknownOptions : Bool} {scan : Scan}

/-- A loop that ends with an exception has come to what is refused. -/
theorem exists_refusal (h : OptionTable poptions) {fuel : ℕ}
    (hfailed : (parseLoop env poptions ignoreUnknownOptions fuel scan).2 =
      some (.error .invalidArgument)) :
    ∃ rs r, Refusal env poptions ignoreUnknownOptions scan.argv scan.vars rs r := by
  induction fuel generalizing scan with
  | zero => cases hfailed
  | succ fuel ih =>
      have hcode := (callGetopt_answers env poptions scan).2.1
      generalize hfound : getoptFinding env.posixlyCorrect scan.argv
        (createGetOptLongOptString poptions) (createGetOptLongStructOptions poptions) scan.vars = f
        at hcode
      by_cases hf : f = .finished
      · subst hf
        have hend : (callGetopt env poptions scan).1 = -1 := hcode
        rw [parseLoop] at hfailed
        dsimp only at hfailed
        rw [if_pos hend] at hfailed
        cases hfailed
      · obtain ⟨hne, hturn⟩ := turn_of_finding h env ignoreUnknownOptions scan hfound hf
        generalize hv : verdict env.ndebug poptions ignoreUnknownOptions
          ⟨f, (callGetopt env poptions scan).2.argv.length,
            (callGetopt env poptions scan).2.vars⟩ = v at hturn
        by_cases hgone : v = .passed ∨ v = .overlooked
        · rw [parseLoop_next rfl hne (hturn.goes_on hgone)] at hfailed
          obtain ⟨rs, r, hrest⟩ := ih hfailed
          rw [← hv] at hgone
          exact ⟨_, r, .next hfound hf rfl hgone hrest⟩
        · cases hturn with
          | refused hhandle => exact ⟨[], _, .here hfound hf rfl hv⟩
          | passed _ _ => exact absurd (Or.inl rfl) hgone
          | overlooked _ _ _ => exact absurd (Or.inr rfl) hgone
          | aborted hhandle =>
              rw [parseLoop_error rfl hne hhandle] at hfailed
              cases hfailed

/-- The entries are those of the findings in front of what is refused. -/
theorem results_of_refusal (h : OptionTable poptions) {argv : List (List Char)} {g : Getopt}
    {rs : List Reading} {r : Reading}
    (hrefusal : Refusal env poptions ignoreUnknownOptions argv g rs r) {fuel : ℕ} {idx : ℤ}
    {results : Results}
    (hfailed : (parseLoop env poptions ignoreUnknownOptions fuel ⟨argv, g, idx, results⟩).2 =
      some (.error .invalidArgument)) :
    (parseLoop env poptions ignoreUnknownOptions fuel ⟨argv, g, idx, results⟩).1.results =
      refuse env poptions (rs.foldl (store poptions) results) r := by
  induction hrefusal generalizing fuel idx results with
  | @here argv g f after hfound hf hafter hrefused =>
      subst hafter
      cases fuel with
      | zero => cases hfailed
      | succ fuel =>
          obtain ⟨hne, hturn⟩ := turn_of_finding h env ignoreUnknownOptions
            ⟨argv, g, idx, results⟩ hfound hf
          generalize hv : verdict env.ndebug poptions ignoreUnknownOptions _ = v at hturn
          obtain rfl : v = .refused := hv.symm.trans hrefused
          cases hturn with
          | refused hhandle =>
              rw [parseLoop_error rfl hne hhandle]
              rfl
  | @next argv g f rs r after hfound hf hafter hgone rest ih =>
      subst hafter
      cases fuel with
      | zero => cases hfailed
      | succ fuel =>
          obtain ⟨hne, hturn⟩ := turn_of_finding h env ignoreUnknownOptions
            ⟨argv, g, idx, results⟩ hfound hf
          rw [parseLoop_next rfl hne (hturn.goes_on hgone)] at hfailed ⊢
          exact ih hfailed

/-- What is stored, one finding after the other. -/
theorem foldl_store (rs : List Reading) (results : Results) :
    rs.foldl (store poptions) results =
      results.setAll ((taken poptions rs).map fun x => (x.1.name, x.2)) := by
  induction rs generalizing results with
  | nil => rfl
  | cons r rs ih =>
      unfold taken at *
      rw [List.foldl_cons, ih, List.filterMap_cons]
      cases hreported : reported poptions r.finding with
      | none =>
          rw [store_of_none hreported]
          rfl
      | some o =>
          rw [store, hreported]
          rfl

theorem refuse_apply (env : Env) (poptions : List ProgramOption) (results : Results) (r : Reading)
    (n : List Char) :
    refuse env poptions results r n = (results n).or (refusedEntry env poptions r n) := by
  unfold refuse refusedEntry
  cases reported poptions r.finding with
  | none =>
      rw [if_neg fun h => Bool.false_ne_true h.2, Option.or_none]
  | some o =>
      dsimp only [Option.any_some]
      by_cases hlookup : env.lookupFirst = true
      · rw [if_pos hlookup, Results.touch, Results.set]
        by_cases hname : n = o.name
        · subst hname
          rw [if_pos rfl, if_pos ⟨hlookup, decide_eq_true rfl⟩]
          cases results o.name <;> rfl
        · rw [if_neg hname, if_neg fun h => hname (of_decide_eq_true h.2).symm, Option.or_none]
      · rw [if_neg hlookup, if_neg fun h => hlookup h.1, Option.or_none]

end

/-! ## Whole calls -/

section

variable {env : Env}

/-- What a call that throws leaves in the object. -/
theorem parse_refusal {impl : Impl} (h : Accepted impl.poptions) {vars : Getopt}
    {programName : List Char} {args : List (List Char)} {ignoreUnknownOptions : Bool}
    {rs : List Reading} {r : Reading}
    (hrefusal : Refusal env impl.poptions ignoreUnknownOptions (programName :: args)
      { vars with optind := 1 } rs r) {fuel : ℕ}
    (hfailed : (parse env fuel vars impl (programName :: args) ignoreUnknownOptions).outcome =
      some (.error .invalidArgument)) :
    ∃ results, (parse env fuel vars impl (programName :: args) ignoreUnknownOptions).impl =
        ⟨impl.poptions, results, programName⟩ ∧
      ∀ n, results n = (valueOf impl.poptions (taken impl.poptions rs) n).or
        (refusedEntry env impl.poptions r n) := by
  refine ⟨_, rfl, ?_⟩
  intro n
  have hresults := results_of_refusal h.optionTable hrefusal hfailed
  refine (congrFun hresults n).trans ?_
  rw [refuse_apply, foldl_store, Results.setAll_eq, initWithDefaultValues_find? h.wellNamed,
    valueOf]

theorem sameAnswers_parse_iff {impl : Impl} (h : Accepted impl.poptions) {fuel : ℕ}
    {vars : Getopt} {argv : List (List Char)} {ignoreUnknownOptions : Bool}
    (hfailed : (parse env fuel vars impl argv ignoreUnknownOptions).outcome =
      some (.error .invalidArgument)) :
    SameAnswers impl (parse env fuel vars impl argv ignoreUnknownOptions).impl ↔
      AlreadyHeld env vars impl argv ignoreUnknownOptions := by
  cases argv with
  | nil =>
      have hsame : SameAnswers impl impl := ⟨rfl, fun _ => rfl, fun _ => rfl⟩
      exact iff_of_true hsame (Or.inl rfl)
  | cons programName args =>
      constructor
      · intro hsame
        obtain ⟨rs, r, hrefusal⟩ := exists_refusal h.optionTable hfailed
        obtain ⟨results, himpl, hresults⟩ := parse_refusal h hrefusal hfailed
        rw [himpl, sameAnswers_iff] at hsame
        obtain ⟨rfl, hkept⟩ := hsame
        exact Or.inr ⟨rfl, rs, r, hrefusal, fun n hn => (hkept n hn).trans (hresults n)⟩
      · rintro (hnil | ⟨hhead, rs, r, hrefusal, hheld⟩)
        · cases hnil
        · obtain ⟨results, himpl, hresults⟩ := parse_refusal h hrefusal hfailed
          rw [himpl, sameAnswers_iff]
          refine ⟨Option.some.inj hhead, ?_⟩
          intro n hn
          exact (hheld n hn).trans (hresults n).symm

/-- The program name is the one of the last call that had one. -/
theorem NoneParsed.programName {argvs : List (List (List Char))} {impl : Impl}
    (h : NoneParsed env argvs impl) :
    impl.programName = ((argvs.filterMap List.head?).getLast?).getD [] := by
  induction h with
  | fresh => rfl
  | add h hadd ih => exact ih
  | parse fuel vars argv ignoreUnknownOptions h hfailed ih =>
      rw [List.filterMap_append]
      cases argv with
      | nil =>
          rw [List.filterMap_cons_none rfl, List.filterMap_nil, List.append_nil]
          exact ih
      | cons programName args =>
          have hlast : [programName :: args].filterMap List.head? = [programName] := rfl
          rw [hlast, List.getLast?_concat]
          rfl

/-- **A parse that fails.**  It leaves the answers of the object as they were if and only
if the object holds already what is given in front of the argument that is refused.  Before the
first parse that succeeds, `usage` is empty as long as the last program name is. -/
theorem failed_parse_keeps_answers_iff (env : Env) :
    (∀ (fuel : ℕ) (vars : Getopt) (impl : Impl) (argv : List (List Char))
      (ignoreUnknownOptions : Bool), Accepted impl.poptions →
      (parse env fuel vars impl argv ignoreUnknownOptions).outcome =
        some (.error .invalidArgument) →
      (SameAnswers impl (parse env fuel vars impl argv ignoreUnknownOptions).impl ↔
        AlreadyHeld env vars impl argv ignoreUnknownOptions)) ∧
    ∀ (argvs : List (List (List Char))) (impl : Impl), NoneParsed env argvs impl →
      (usage impl = [] ↔ ((argvs.filterMap List.head?).getLast?).getD [] = []) := by
  constructor
  · intro fuel vars impl argv ignoreUnknownOptions h hfailed
    exact sameAnswers_parse_iff h hfailed
  · intro argvs impl h
    rw [usage_eq_nil, h.programName]

/-- A table with one option `help`, which has been given. -/
def helpGiven : Impl :=
  { oneOption "help".toList with
    results := Results.set (fun _ => none) "help".toList [], programName := "prog".toList }

/-- `--help` -/
def helpReading : Reading :=
  ⟨.long 0, 3, { optind := 2, initialized := true, firstNonopt := 1, lastNonopt := 1 }⟩

/-- `--bad` -/
def badReading : Reading :=
  ⟨.unknown, 3, { optind := 3, initialized := true, firstNonopt := 2, lastNonopt := 2 }⟩

theorem refusal_bad : Refusal ⟨false, false, false⟩ helpGiven.poptions false
    ["prog".toList, "--help".toList, "--bad".toList] {} [helpReading] badReading := by
  have hhelp : getoptLongOnly (Env.mk false false false).posixlyCorrect
      ["prog".toList, "--help".toList, "--bad".toList]
      (createGetOptLongOptString helpGiven.poptions)
      (createGetOptLongStructOptions helpGiven.poptions) {} =
        (["prog".toList, "--help".toList, "--bad".toList], ⟨0, some 0, helpReading.vars⟩) := by
    decide +kernel
  have hbad : getoptLongOnly (Env.mk false false false).posixlyCorrect
      ["prog".toList, "--help".toList, "--bad".toList]
      (createGetOptLongOptString helpGiven.poptions)
      (createGetOptLongStructOptions helpGiven.poptions) helpReading.vars =
        (["prog".toList, "--help".toList, "--bad".toList],
          ⟨unknownCode, none, badReading.vars⟩) := by
    decide +kernel
  refine Refusal.next ?_ ?_ hhelp (Or.inl ?_) (Refusal.here ?_ ?_ hbad ?_)
  · decide +kernel
  · decide
  · decide +kernel
  · decide +kernel
  · decide
  · decide +kernel

theorem failed_parse_keeps_answers_iff_bad :
    SameAnswers helpGiven (parse ⟨false, false, false⟩ 5 {} helpGiven
        ["prog".toList, "--help".toList, "--bad".toList] false).impl ∧
    (usage (⟨[], fun _ => none, []⟩ : Impl) = [] ↔
      (((([] : List (List (List Char))).filterMap List.head?).getLast?).getD [] = [])) := by
  have haccepted : Accepted helpGiven.poptions := accepted_oneOption (by decide)
  obtain ⟨hanswers, husage⟩ := failed_parse_keeps_answers_iff ⟨false, false, false⟩
  refine ⟨?_, husage [] _ NoneParsed.fresh⟩
  refine (hanswers 5 {} helpGiven _ false haccepted (by decide +kernel)).mpr ?_
  refine Or.inr ⟨rfl, [helpReading], badReading, refusal_bad, ?_⟩
  intro n _
  by_cases hn : "help".toList = n
  · subst hn
    decide +kernel
  · have hgiven : lastGiven (taken helpGiven.poptions [helpReading]) n = none := by
      have hone : taken helpGiven.poptions [helpReading] =
          [({ name := "help".toList, shortOption := noShortOption }, [])] := by decide +kernel
      rw [hone, lastGiven, List.reverse_singleton, List.find?_singleton,
        if_neg fun h => hn (of_decide_eq_true h)]
      rfl
    have hheld : helpGiven.results n = none := if_neg fun heq => hn heq.symm
    rw [hheld, valueOf, hgiven]
    rfl

/-- The first parse of an object fails, and `usage` is not empty after it. -/
theorem usage_after_failed_parse :
    NoneParsed ⟨false, false, false⟩ [] (oneOption "help".toList) ∧
    (parse ⟨false, false, false⟩ 5 {} (oneOption "help".toList)
      ["prog".toList, "--bad".toList] false).outcome = some (.error .invalidArgument) ∧
    usage (oneOption "help".toList) = [] ∧
    usage (parse ⟨false, false, false⟩ 5 {} (oneOption "help".toList)
      ["prog".toList, "--bad".toList] false).impl =
        "usage: prog <options>\n  where options are:\n    --help\n".toList := by
  refine ⟨?_, ?_, ?_, ?_⟩
  · refine NoneParsed.fresh.add (o := { name := "help".toList, shortOption := noShortOption }) ?_
    decide
  · decide +kernel
  · decide +kernel
  · decide +kernel

end
end KssUtil.Options
