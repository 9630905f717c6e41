import KssUtil.Options.Readings

/-!
# Missing arguments (programoptions.cpp)

`parse` is told of a missing argument by the code for an unknown option, unless the
string of the short options begins with a colon.  With unknown options to be ignored,
the option is then skipped.
-/

namespace KssUtil.Options

open KssUtil.Libc

/-- The argument of a known option is missing. -/
def isMissing : Finding → Bool
  | .missingLong _ => true
  | .missingShort _ => true
  | _ => false

/-- The last thing on the command line is an option that lacks the argument it has to have. -/
def EndsMissing (poptions : List ProgramOption) (rs : List Reading) : Prop :=
  ∃ r ∈ rs.getLast?, isMissing r.finding = true ∧
    ∃ o ∈ named poptions r.finding, o.hasArg = .required
/-- The first verdict that is not to pass -/
def firstVerdict (ndebug : Bool) (poptions : List ProgramOption) (ignoreUnknownOptions : Bool)
    (rs : List Reading) : Option Verdict :=
  (rs.map (verdict ndebug poptions ignoreUnknownOptions)).find? (· ≠ .passed)

/-- What the loop of `parse` finds and goes on from without an option. -/
def skipped (env : Env) (poptions : List ProgramOption) (ignoreUnknownOptions : Bool) :
    ℕ → Scan → List Finding
  | 0, _ => []
  | fuel + 1, scan =>
      let call := callGetopt env poptions scan
      if call.1 = -1 then []
      else
        let f := getoptFinding env.posixlyCorrect scan.argv (createGetOptLongOptString poptions)
          (createGetOptLongStructOptions poptions) scan.vars
        let r := handleOption env poptions ignoreUnknownOptions call.1 call.2
        match r.2, getOptionFromCharacter env call.1 call.2.idx poptions ignoreUnknownOptions with
        | .error _, _ => []
        | .ok _, .ok none => f :: skipped env poptions ignoreUnknownOptions fuel r.1
        | .ok _, _ => skipped env poptions ignoreUnknownOptions fuel r.1

/-- `parse` throws `invalid_argument`. -/
def Rejects (env : Env) (vars : Getopt) (impl : Impl) (argv : List (List Char))
    (ignoreUnknownOptions : Bool) : Prop :=
  ∃ enough, ∀ fuel ≥ enough,
    (parse env fuel vars impl argv ignoreUnknownOptions).outcome = some (.error .invalidArgument)

/-- What `parse` goes on without is about no option of the list. -/
def SkipsOnlyUnknown (env : Env) (vars : Getopt) (impl : Impl) (argv : List (List Char))
    (ignoreUnknownOptions : Bool) : Prop :=
  ∀ fuel, ∀ f ∈ skipped env impl.poptions ignoreUnknownOptions fuel
    (firstScan vars impl.poptions argv), named impl.poptions f = none
/-! ## The loop -/

section

variable {env : Env} {poptions : List ProgramOption} {ignoreUnknownOptions : Bool} {scan : Scan}
  {f : Finding}

theorem firstVerdict_cons (ndebug : Bool) (poptions : List ProgramOption)
    (ignoreUnknownOptions : Bool) (r : Reading) (rs : List Reading) :
    firstVerdict ndebug poptions ignoreUnknownOptions (r :: rs) =
      if verdict ndebug poptions ignoreUnknownOptions r = .passed then
        firstVerdict ndebug poptions ignoreUnknownOptions rs
      else some (verdict ndebug poptions ignoreUnknownOptions r) := by
  rw [firstVerdict, List.map_cons, List.find?_cons]
  by_cases hpassed : verdict ndebug poptions ignoreUnknownOptions r = .passed
  · rw [if_pos hpassed, decide_eq_false (not_not_intro hpassed)]
    rfl
  · rw [if_neg hpassed, decide_eq_true hpassed]

theorem skipped_error {fuel : ℕ} {handled : Scan} {e : Exn}
    (hch : (callGetopt env poptions scan).1 ≠ -1)
    (hhandle : handleOption env poptions ignoreUnknownOptions (callGetopt env poptions scan).1
      (callGetopt env poptions scan).2 = (handled, .error e)) :
    skipped env poptions ignoreUnknownOptions (fuel + 1) scan = [] := by
  rw [skipped]
  dsimp only
  rw [if_neg hch, hhandle]

/-- The finding is skipped if it has no option, and the loop goes on. -/
theorem skipped_next (fuel : ℕ) {handled : Scan}
    (hfound : getoptFinding env.posixlyCorrect scan.argv (createGetOptLongOptString poptions)
      (createGetOptLongStructOptions poptions) scan.vars = f)
    (hch : (callGetopt env poptions scan).1 ≠ -1)
    (hhandle : handleOption env poptions ignoreUnknownOptions (callGetopt env poptions scan).1
      (callGetopt env poptions scan).2 = (handled, .ok ⟨⟩)) :
    ∃ skips, skipped env poptions ignoreUnknownOptions (fuel + 1) scan =
        skips ++ skipped env poptions ignoreUnknownOptions fuel handled ∧
      (getOptionFromCharacter env (callGetopt env poptions scan).1
          (callGetopt env poptions scan).2.idx poptions ignoreUnknownOptions = .ok none ∧
        skips = [f] ∨
      getOptionFromCharacter env (callGetopt env poptions scan).1
          (callGetopt env poptions scan).2.idx poptions ignoreUnknownOptions ≠ .ok none ∧
        skips = []) := by
  rw [skipped]
  dsimp only
  rw [if_neg hch, hhandle, hfound]
  cases hoption : getOptionFromCharacter env (callGetopt env poptions scan).1
      (callGetopt env poptions scan).2.idx poptions ignoreUnknownOptions with
  | error e => exact ⟨[], rfl, Or.inr ⟨fun h => (by cases h), rfl⟩⟩
  | ok o =>
      cases o with
      | none => exact ⟨[f], rfl, Or.inl ⟨rfl, rfl⟩⟩
      | some o => exact ⟨[], rfl, Or.inr ⟨fun h => (by cases h), rfl⟩⟩

/-- If nothing is overlooked, the first verdict that is not to pass is the last one. -/
theorem lastVerdict_of_firstVerdict {ndebug : Bool} {rs : List Reading}
    (h : firstVerdict ndebug poptions ignoreUnknownOptions rs ≠ some .overlooked) :
    lastVerdict ndebug poptions ignoreUnknownOptions rs =
      firstVerdict ndebug poptions ignoreUnknownOptions rs := by
  unfold firstVerdict lastVerdict at *
  induction rs with
  | nil => rfl
  | cons r rs ih =>
      rw [List.map_cons] at h ⊢
      generalize verdict ndebug poptions ignoreUnknownOptions r = v at h ⊢
      cases v with
      | refused => rfl
      | passed => exact ih h
      | overlooked => exact absurd rfl h
      | aborted => rfl

/-- Where the loop ends at once, nothing is skipped. -/
theorem named_of_skipped_nil
    (hnil : ∀ fuel, skipped env poptions ignoreUnknownOptions (fuel + 1) scan = []) :
    ∀ fuel, ∀ f ∈ skipped env poptions ignoreUnknownOptions fuel scan,
      named poptions f = none := by
  intro fuel f hf
  cases fuel with
  | zero => exact absurd hf List.not_mem_nil
  | succ fuel =>
      rw [hnil] at hf
      exact absurd hf List.not_mem_nil

/-- What the loop goes on without is about no option of the list, as long as the verdicts say
so. -/
theorem skipped_reads (h : OptionTable poptions) {rs : List Reading}
    (hreads : Reads env poptions scan.argv scan.vars rs) :
    (∀ fuel, ∀ f ∈ skipped env poptions ignoreUnknownOptions fuel scan, named poptions f = none) ↔
      firstVerdict env.ndebug poptions ignoreUnknownOptions rs ≠ some .overlooked := by
  induction rs generalizing scan with
  | nil =>
      refine iff_of_true (named_of_skipped_nil ?_) fun h => by cases h
      intro fuel
      rw [skipped]
      dsimp only
      rw [if_pos (reads_nil hreads)]
  | cons r rs ih =>
      obtain ⟨hfound, hne, -, hturn, hrest⟩ := reads_cons h ignoreUnknownOptions hreads
      rw [firstVerdict_cons]
      generalize verdict env.ndebug poptions ignoreUnknownOptions r = v at hturn ⊢
      cases hturn with
      | refused hhandle =>
          refine iff_of_true (named_of_skipped_nil ?_) fun h => by cases h
          exact fun fuel => skipped_error hne hhandle
      | aborted hhandle =>
          refine iff_of_true (named_of_skipped_nil ?_) fun h => by cases h
          exact fun fuel => skipped_error hne hhandle
      | passed hhandle hoption =>
          have htail : (∀ fuel, ∀ f ∈ skipped env poptions ignoreUnknownOptions fuel
              { (callGetopt env poptions scan).2 with
                results := store poptions (callGetopt env poptions scan).2.results
                  ⟨r.finding, (callGetopt env poptions scan).2.argv.length,
                    (callGetopt env poptions scan).2.vars⟩ }, named poptions f = none) ↔ _ :=
            ih hrest
          rw [if_pos rfl, ← htail]
          constructor
          · intro hall fuel f hf
            obtain ⟨skips, hskips, -⟩ := skipped_next fuel hfound hne hhandle
            apply hall (fuel + 1) f
            rw [hskips]
            exact List.mem_append_right skips hf
          · intro hall fuel f hf
            cases fuel with
            | zero => exact absurd hf List.not_mem_nil
            | succ fuel =>
                obtain ⟨skips, hskips, hwhich⟩ := skipped_next fuel hfound hne hhandle
                rw [hskips] at hf
                rcases List.mem_append.mp hf with hf | hf
                · rcases hwhich with ⟨hnone, rfl⟩ | ⟨-, rfl⟩
                  · rw [List.mem_singleton.mp hf]
                    exact hoption hnone
                  · exact absurd hf List.not_mem_nil
                · exact hall fuel f hf
      | overlooked hhandle hoption hnamed =>
          refine iff_of_false ?_ fun h => h rfl
          intro hall
          obtain ⟨skips, hskips, hwhich⟩ := skipped_next 0 hfound hne hhandle
          rcases hwhich with ⟨-, rfl⟩ | ⟨hsome, -⟩
          · have hmem : r.finding ∈ skipped env poptions ignoreUnknownOptions 1 scan := by
              rw [hskips]
              exact List.mem_append_left _ List.mem_cons_self
            have hnone := hall 1 r.finding hmem
            rw [hnamed] at hnone
            cases hnone
          · exact hsome hoption

theorem ended_eq_invalidArgument {v : Option Verdict} :
    ended v = .error .invalidArgument ↔ v = some .refused := by
  constructor
  · intro h
    match v with
    | some .refused => rfl
    | some .aborted => cases h
    | some .passed => cases h
    | some .overlooked => cases h
    | none => cases h
  · rintro rfl
    rfl

/-- Without options to be ignored, what is not refused is passed, and lacks no argument; an
assertion can fail on an operand only. -/
theorem verdict_of_not_ignored {ndebug : Bool} {r : Reading}
    (hoperand : ndebug = true ∨ r.finding ≠ .operand) :
    verdict ndebug poptions false r = .refused ∨
      verdict ndebug poptions false r = .passed ∧ isMissing r.finding = false := by
  unfold verdict
  cases hfinding : r.finding with
  | long i =>
      dsimp only
      split
      · exact Or.inl rfl
      · exact Or.inr ⟨rfl, rfl⟩
  | short c =>
      dsimp only
      split
      · exact Or.inl rfl
      · split
        · exact Or.inl rfl
        · exact Or.inr ⟨rfl, rfl⟩
  | missingLong i => exact Or.inl rfl
  | missingShort c => exact Or.inl rfl
  | unwanted i => exact Or.inl rfl
  | unknown => exact Or.inl rfl
  | operand =>
      rcases hoperand with rfl | hoperand
      · exact Or.inr ⟨rfl, rfl⟩
      · exact absurd hfinding hoperand
  | finished => exact Or.inr ⟨rfl, rfl⟩

/-- Without options to be ignored nothing is overlooked, and a missing argument is refused,
unless an assertion fails on an operand before. -/
theorem firstVerdict_of_not_ignored {ndebug : Bool} {rs : List Reading}
    (hoperand : ndebug = true ∨ ∀ r ∈ rs, r.finding ≠ .operand) :
    firstVerdict ndebug poptions false rs ≠ some .overlooked ∧
      (EndsMissing poptions rs → firstVerdict ndebug poptions false rs = some .refused) := by
  have hcases : ∀ r ∈ rs, verdict ndebug poptions false r = .refused ∨
      verdict ndebug poptions false r = .passed ∧ isMissing r.finding = false := by
    intro r hr
    exact verdict_of_not_ignored (hoperand.imp_right fun h => h r hr)
  cases hfirst : firstVerdict ndebug poptions false rs with
  | none =>
      refine ⟨(Option.some_ne_none _).symm, ?_⟩
      rintro ⟨r, hr, hmissing, -⟩
      have hmem := List.mem_of_mem_getLast? hr
      rcases hcases r hmem with hrefused | ⟨-, hother⟩
      · have hpassed := List.find?_eq_none.mp hfirst _ (List.mem_map_of_mem hmem)
        rw [hrefused] at hpassed
        exact absurd rfl hpassed
      · rw [hmissing] at hother
        cases hother
  | some v =>
      obtain ⟨r, hr, rfl⟩ := List.mem_map.mp (List.mem_of_find?_eq_some hfirst)
      have hnot := List.find?_some (p := fun v : Verdict => decide (v ≠ .passed)) hfirst
      rw [decide_eq_true_eq] at hnot
      rcases hcases r hr with hrefused | ⟨hpassed, -⟩
      · rw [hrefused]
        refine ⟨?_, fun _ => rfl⟩
        decide
      · exact absurd hpassed hnot

end

/-! ## Whole calls -/

section

variable {env : Env} {vars : Getopt} {impl : Impl} {programName : List Char}
  {args : List (List Char)} {rs : List Reading}

/-- The first call of `parse` in a process comes to its end. -/
theorem parse_ends (h : Accepted impl.poptions) (env : Env) (argv : List (List Char))
    (ignoreUnknownOptions : Bool) :
    ∃ enough, ∀ fuel ≥ enough,
      (parse env fuel {} impl argv ignoreUnknownOptions).outcome ≠ none := by
  cases argv with
  | nil => exact ⟨0, fun _ _ => Option.some_ne_none _⟩
  | cons programName args =>
      obtain ⟨rs, hreads⟩ := exists_reads_kept env impl.poptions programName args
        Getopt.kept_start rfl rfl
      refine ⟨rs.length + 1, ?_⟩
      intro fuel hfuel hnone
      have hends : (parse env fuel {} impl (programName :: args) ignoreUnknownOptions).outcome =
          some _ := (parseLoop_reads h.optionTable hreads hfuel).1
      rw [hnone] at hends
      cases hends

/-- **A missing argument is an error**, and only unknown options are skipped, if and only if the
first thing that is read and not passed is no option of the list that is overlooked, and is one
that is refused if an argument is missing at the end. -/
theorem missing_argument_rejected_iff (h : Accepted impl.poptions)
    (hreads : Reads env impl.poptions (programName :: args) { vars with optind := 1 } rs)
    (ignoreUnknownOptions : Bool) :
    ((EndsMissing impl.poptions rs →
        Rejects env vars impl (programName :: args) ignoreUnknownOptions) ∧
      SkipsOnlyUnknown env vars impl (programName :: args) ignoreUnknownOptions) ↔
    (EndsMissing impl.poptions rs →
        firstVerdict env.ndebug impl.poptions ignoreUnknownOptions rs = some .refused) ∧
      firstVerdict env.ndebug impl.poptions ignoreUnknownOptions rs ≠ some .overlooked := by
  have hskips : SkipsOnlyUnknown env vars impl (programName :: args) ignoreUnknownOptions ↔ _ :=
    skipped_reads h.optionTable hreads
  rw [hskips, and_congr_left_iff]
  intro hfirst
  have hparse : ∀ fuel, rs.length < fuel →
      (parse env fuel vars impl (programName :: args) ignoreUnknownOptions).outcome =
        some (ended (firstVerdict env.ndebug impl.poptions ignoreUnknownOptions rs)) := by
    intro fuel hfuel
    rw [← lastVerdict_of_firstVerdict hfirst]
    exact (parseLoop_reads h.optionTable hreads hfuel).1
  apply imp_congr_right
  intro _
  constructor
  · rintro ⟨enough, hthrows⟩
    have hboth := hparse (enough + rs.length + 1) (Nat.lt_succ_of_le (Nat.le_add_left _ _))
    rw [hthrows _ (Nat.le_trans (Nat.le_add_right _ _) (Nat.le_succ _))] at hboth
    exact ended_eq_invalidArgument.mp (Option.some.inj hboth).symm
  · intro hrefused
    refine ⟨rs.length + 1, ?_⟩
    intro fuel hfuel
    rw [hparse fuel hfuel, ended_eq_invalidArgument.mpr hrefused]

/-- A table with one option, `--output=<value>` or `-o <value>`. -/
def outputOption : Impl := { poptions := [output], results := fun _ => none, programName := [] }

/-- `--output` as the last word -/
def outputLast : Reading :=
  ⟨.missingLong 0, 2,
    { optind := 2, initialized := true, firstNonopt := 1, lastNonopt := 1 }⟩

theorem reads_outputLast : Reads ⟨false, false, false⟩ outputOption.poptions
    ["prog".toList, "--output".toList] {} [outputLast] := by
  have hcall : getoptLongOnly (Env.mk false false false).posixlyCorrect
      ["prog".toList, "--output".toList] (createGetOptLongOptString outputOption.poptions)
      (createGetOptLongStructOptions outputOption.poptions) {} =
        (["prog".toList, "--output".toList], ⟨unknownCode, none, outputLast.vars⟩) := by
    decide +kernel
  refine Reads.next ?_ ?_ hcall (Reads.finished ?_)
  · decide +kernel
  · decide
  · decide +kernel

theorem missing_argument_rejected_iff_output :
    (EndsMissing outputOption.poptions [outputLast] →
      Rejects ⟨false, false, false⟩ {} outputOption ["prog".toList, "--output".toList] false) ∧
    SkipsOnlyUnknown ⟨false, false, false⟩ {} outputOption ["prog".toList, "--output".toList]
      false := by
  have haccepted : Accepted outputOption.poptions := Accepted.nil.add (o := output) rfl
  refine (missing_argument_rejected_iff haccepted ?_ false).mpr ⟨?_, ?_⟩
  · exact reads_outputLast
  · intro _
    decide +kernel
  · decide +kernel

/-- Where unknown options are ignored, `--output` without a value is skipped. -/
theorem missing_argument_overlooked :
    Accepted outputOption.poptions ∧
    Reads ⟨false, false, false⟩ outputOption.poptions
      ["prog".toList, "--output".toList] {} [outputLast] ∧
    EndsMissing outputOption.poptions [outputLast] ∧
    ¬ Rejects ⟨false, false, false⟩ {} outputOption ["prog".toList, "--output".toList] true ∧
    ¬ SkipsOnlyUnknown ⟨false, false, false⟩ {} outputOption
      ["prog".toList, "--output".toList] true := by
  refine ⟨Accepted.nil.add (o := output) rfl, reads_outputLast, ?_, ?_, ?_⟩
  · exact ⟨outputLast, rfl, rfl, output, rfl, rfl⟩
  · rintro ⟨enough, h⟩
    have hends : (parse ⟨false, false, false⟩ (enough + 2) {} outputOption
        ["prog".toList, "--output".toList] true).outcome = some (.ok ⟨⟩) := rfl
    rw [h _ (Nat.le_add_right _ _)] at hends
    cases hends
  · intro h
    have hskipped := h 1 (.missingLong 0) (by decide +kernel)
    cases hskipped

end
end KssUtil.Options