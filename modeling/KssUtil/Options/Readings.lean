import KssUtil.Libc.GetoptFindings
import KssUtil.Libc.GetoptProgress
import KssUtil.Options.CommandLine
import KssUtil.Options.OptionString

/-!
# What `parse` makes of what `getopt` finds (programoptions.cpp)

A command line as `getopt` reads it, finding by finding, and what becomes of each: the loop of
`parse` ends as the findings say, with the entries they say.
-/

namespace KssUtil.Options

open KssUtil.Libc

/-- What a call of `getopt` finds, and what there is after it. -/
structure Reading where
  finding : Finding
  argc : ℕ
  vars : Getopt

/-- The calls on a command line, up to the one that finds its end. -/
inductive Reads (env : Env) (poptions : List ProgramOption) :
    List (List Char) → Getopt → List Reading → Prop where
  | finished {argv : List (List Char)} {g : Getopt}
      (h : getoptFinding env.posixlyCorrect argv (createGetOptLongOptString poptions)
        (createGetOptLongStructOptions poptions) g = .finished) : Reads env poptions argv g []
  | next {argv : List (List Char)} {g : Getopt} {f : Finding} {rs : List Reading}
      {after : List (List Char) × Answer}
      (h : getoptFinding env.posixlyCorrect argv (createGetOptLongOptString poptions)
        (createGetOptLongStructOptions poptions) g = f) (hf : f ≠ .finished)
      (hafter : getoptLongOnly env.posixlyCorrect argv (createGetOptLongOptString poptions)
        (createGetOptLongStructOptions poptions) g = after)
      (rest : Reads env poptions after.1 after.2.vars rs) :
      Reads env poptions argv g (⟨f, after.1.length, after.2.vars⟩ :: rs)

/-- The option of the list that a finding is about -/
def named (poptions : List ProgramOption) (f : Finding) : Option ProgramOption :=
  match f.index with
  | some i => poptions[i]?
  | none => f.char.bind fun c => findShortOption poptions c.toNat

/-- The option strings for which `getopt` has a code of its own for a missing argument -/
def missingIsTold (poptions : List ProgramOption) : Bool :=
  (optionChars (createGetOptLongOptString poptions)).head? = some ':'

/-- The option is given an empty argument where it has to have one. -/
def lacksValue (poptions : List ProgramOption) (r : Reading) : Bool :=
  match named poptions r.finding with
  | some o => o.hasArg = .required ∧ (r.vars.optind > r.argc ∨ r.vars.optarg.getD [] = [])
  | none => false

/-- What becomes of a reading: `parse` throws `invalid_argument`, or goes on, or goes on
without an option that is in the list, or fails an assertion. -/
inductive Verdict where
  | refused
  | passed
  | overlooked
  | aborted
deriving DecidableEq

/-- Unknown options are passed if they are to be ignored.  An operand that is handed out in
its place is taken for an option. -/
def verdict (ndebug : Bool) (poptions : List ProgramOption) (ignoreUnknownOptions : Bool)
    (r : Reading) : Verdict :=
  match r.finding with
  | .long _ => if lacksValue poptions r then .refused else .passed
  | .short c =>
      if c = '?' then if ignoreUnknownOptions then .overlooked else .refused
      else if lacksValue poptions r then .refused
      else .passed
  | .missingLong _ =>
      if ignoreUnknownOptions = true ∧ missingIsTold poptions = false then .overlooked
      else .refused
  | .missingShort _ =>
      if ignoreUnknownOptions = true ∧ missingIsTold poptions = false then .overlooked
      else .refused
  | .unwanted _ => if ignoreUnknownOptions then .overlooked else .refused
  | .unknown => if ignoreUnknownOptions then .passed else .refused
  | .operand => if ndebug then .passed else .aborted
  | .finished => .passed

/-- The first verdict that ends the loop -/
def lastVerdict (ndebug : Bool) (poptions : List ProgramOption) (ignoreUnknownOptions : Bool)
    (rs : List Reading) : Option Verdict :=
  (rs.map (verdict ndebug poptions ignoreUnknownOptions)).find? fun v =>
    v = .refused ∨ v = .aborted

/-- How the loop ends with that verdict -/
def ended : Option Verdict → Except Exn Unit
  | some .refused => .error .invalidArgument
  | some .aborted => .error .aborted
  | _ => .ok ⟨⟩

/-- The option that `parse` takes a finding for -/
def reported (poptions : List ProgramOption) (f : Finding) : Option ProgramOption :=
  match f with
  | .long _ => named poptions f
  | .short c => if c = '?' then none else named poptions f
  | _ => none

/-- The value of the option, if it is not refused -/
def Reading.value (r : Reading) (o : ProgramOption) : List Char :=
  if o.hasArg = .none then [] else r.vars.optarg.getD []

/-- The entries after a reading that is not refused -/
def store (poptions : List ProgramOption) (results : Results) (r : Reading) : Results :=
  match reported poptions r.finding with
  | some o => results.set o.name (r.value o)
  | none => results

/-- The entries after a reading that is refused: the option may have got an entry before its
value was looked at. -/
def refuse (env : Env) (poptions : List ProgramOption) (results : Results) (r : Reading) :
    Results :=
  match reported poptions r.finding with
  | some o => if env.lookupFirst then results.touch o.name else results
  | none => results

/-- The entries after the readings, up to the first that ends the loop -/
def entriesAfter (env : Env) (poptions : List ProgramOption) (ignoreUnknownOptions : Bool) :
    List Reading → Results → Results
  | [], results => results
  | r :: rs, results =>
      match verdict env.ndebug poptions ignoreUnknownOptions r with
      | .refused => refuse env poptions results r
      | .aborted => results
      | _ => entriesAfter env poptions ignoreUnknownOptions rs (store poptions results r)

/-- What the loop of `parse` begins with -/
def firstScan (vars : Getopt) (poptions : List ProgramOption) (argv : List (List Char)) : Scan :=
  ⟨argv, { vars with optind := 1 }, -1, initWithDefaultValues poptions⟩

/-! ## One call -/

section

variable {env : Env} {poptions : List ProgramOption} {ignoreUnknownOptions : Bool} {scan : Scan}
  {f : Finding}

/-- The long options have the value 0. -/
theorem val_createGetOptLongStructOptions (poptions : List ProgramOption) :
    ∀ p ∈ createGetOptLongStructOptions poptions, p.val = 0 := by
  intro p hp
  obtain ⟨o, -, rfl⟩ := List.mem_map.mp hp
  rfl

theorem length_createGetOptLongStructOptions (poptions : List ProgramOption) :
    (createGetOptLongStructOptions poptions).length = poptions.length :=
  List.length_map _

/-- A character of the option string is a mark, or the short option of an option. -/
theorem mem_createGetOptLongOptString {c : Char}
    (h : c ∈ optionChars (createGetOptLongOptString poptions)) (hcolon : c ≠ ':') :
    ∃ o ∈ poptions, o.shortOption = c ∧ c ≠ noShortOption := by
  have hmem := mem_of_mem_optionChars h
  rw [createGetOptLongOptString_eq] at hmem
  rcases mem_flatMap_written hmem with heq | ⟨o, ho, rfl⟩
  · exact absurd heq hcolon
  · obtain ⟨ho, hprint⟩ := mem_printables.mp (List.mem_filter.mp ho).1
    refine ⟨o, ho, rfl, ?_⟩
    intro hno
    rw [hno] at hprint
    exact absurd hprint (by decide)

/-- What a finding is about is in the list. -/
theorem exists_named (h : OptionTable poptions) {a : Answer}
    (hanswers : f.Answers (optionChars (createGetOptLongOptString poptions))
      (createGetOptLongStructOptions poptions) a) (habout : f.index.isSome ∨ f.char.isSome) :
    ∃ o, named poptions f = some o := by
  unfold named
  cases hindex : f.index with
  | some i =>
      have hi := hanswers.index i hindex
      rw [length_createGetOptLongStructOptions] at hi
      exact ⟨_, List.getElem?_eq_getElem hi⟩
  | none =>
      rw [hindex] at habout
      rcases habout with habout | habout
      · cases habout
      · obtain ⟨c, hc⟩ := Option.isSome_iff_exists.mp habout
        obtain ⟨hmem, hcolon⟩ := hanswers.char c hc
        obtain ⟨o, ho, rfl, hno⟩ := mem_createGetOptLongOptString hmem hcolon
        refine ⟨o, ?_⟩
        rw [hc]
        exact h.findShortOption ho hno

/-- What the loop works on after a call -/
theorem callGetopt_answers (env : Env) (poptions : List ProgramOption) (scan : Scan) :
    let f := getoptFinding env.posixlyCorrect scan.argv (createGetOptLongOptString poptions)
      (createGetOptLongStructOptions poptions) scan.vars
    let call := callGetopt env poptions scan
    (∃ a, f.Answers (optionChars (createGetOptLongOptString poptions))
      (createGetOptLongStructOptions poptions) a) ∧
      call.1 = f.code (optionChars (createGetOptLongOptString poptions)) ∧
      call.2.idx = (f.longind.map Int.ofNat).getD scan.idx := by
  have hanswers := getoptLongOnly_answers env.posixlyCorrect scan.argv
    (createGetOptLongOptString poptions) (val_createGetOptLongStructOptions poptions) scan.vars
  refine ⟨⟨_, hanswers⟩, hanswers.code, ?_⟩
  rw [← hanswers.longind]
  rfl

/-! ## What `parse` makes of a finding -/

theorem getOptionFromCharacter_unknown (env : Env) (idx : ℤ) (poptions : List ProgramOption)
    (ignoreUnknownOptions : Bool) :
    getOptionFromCharacter env unknownCode idx poptions ignoreUnknownOptions =
      if ignoreUnknownOptions then .ok none else .error .invalidArgument :=
  if_pos rfl

theorem getOptionFromCharacter_missing (env : Env) (idx : ℤ) (poptions : List ProgramOption)
    (ignoreUnknownOptions : Bool) :
    getOptionFromCharacter env (missingCode (optionChars (createGetOptLongOptString poptions)))
        idx poptions ignoreUnknownOptions =
      if ignoreUnknownOptions = true ∧ missingIsTold poptions = false then .ok none
      else .error .invalidArgument := by
  unfold missingCode missingIsTold
  by_cases htold : (optionChars (createGetOptLongOptString poptions)).head? = some ':'
  · rw [if_pos htold, decide_eq_true htold, if_neg fun h => Bool.false_ne_true h.2.symm]
    rfl
  · rw [if_neg htold, decide_eq_false htold]
    cases ignoreUnknownOptions with
    | false => rfl
    | true => rfl

/-- No option has the code of an operand. -/
theorem getOptionFromCharacter_operand (h : OptionTable poptions) (env : Env) (idx : ℤ)
    (ignoreUnknownOptions : Bool) :
    getOptionFromCharacter env 1 idx poptions ignoreUnknownOptions =
      if env.ndebug then .ok none else .error .aborted := by
  have hnone : poptions.find? (fun popt => (popt.shortOption.toNat : ℤ) = 1) = none := by
    rw [List.find?_eq_none]
    intro o ho heq
    apply h.chosen o ho
    apply Char.toNat_inj.mp
    have hone : autoShortOption.toNat = 1 := rfl
    rw [decide_eq_true_eq] at heq
    omega
  rw [getOptionFromCharacter, if_neg (by decide), if_neg (by decide), if_neg (by decide), hnone]
  unfold assertion
  cases env.ndebug <;> rfl

/-- An option of the list is looked up as the finding names it. -/
theorem getOptionFromCharacter_given (env : Env) (ignoreUnknownOptions : Bool) {a : Answer}
    {o : ProgramOption} {idx : ℤ}
    (hanswers : f.Answers (optionChars (createGetOptLongOptString poptions))
      (createGetOptLongStructOptions poptions) a)
    (hgiven : (∃ i, f = .long i ∧ idx = i) ∨ ∃ c, f = .short c ∧ c ≠ '?')
    (hnamed : named poptions f = some o) :
    getOptionFromCharacter env (f.code (optionChars (createGetOptLongOptString poptions))) idx
      poptions ignoreUnknownOptions = .ok (some o) := by
  rcases hgiven with ⟨i, rfl, rfl⟩ | ⟨c, rfl, hunknown⟩
  · exact getOptionFromCharacter_zero env ignoreUnknownOptions hnamed
  · obtain ⟨hmem, hcolon⟩ := hanswers.char c rfl
    obtain ⟨o', ho', rfl, hno⟩ := mem_createGetOptLongOptString hmem hcolon
    exact getOptionFromCharacter_short env idx ignoreUnknownOptions hno hunknown hcolon hnamed

/-- Only an argument that an option has to have is refused. -/
theorem getResultFromOption_eq (po : ProgramOption) (argc : ℕ) (vars : Getopt) :
    getResultFromOption po argc vars =
      if po.hasArg = .required ∧ (vars.optind > argc ∨ vars.optarg.getD [] = []) then
        .error .invalidArgument
      else .ok (if po.hasArg = .none then [] else vars.optarg.getD []) := by
  unfold getResultFromOption
  cases po.hasArg with
  | none => rfl
  | optional => rfl
  | required =>
      dsimp only
      by_cases hlacks : vars.optind > argc ∨ vars.optarg.getD [] = []
      · rw [if_pos hlacks, if_pos ⟨rfl, hlacks⟩]
        rfl
      · rw [if_neg hlacks, if_neg fun h => hlacks h.2]
        rfl

/-- An option that has what it needs is stored. -/
theorem storeResult_eq (env : Env) (po : ProgramOption) (argc : ℕ) (scan : Scan) :
    storeResult env po argc scan =
      if po.hasArg = .required ∧ (scan.vars.optind > argc ∨ scan.vars.optarg.getD [] = []) then
        ({ scan with
            results := if env.lookupFirst then scan.results.touch po.name else scan.results },
          .error .invalidArgument)
      else
        ({ scan with
            results := scan.results.set po.name
              (if po.hasArg = .none then [] else scan.vars.optarg.getD []) }, .ok ⟨⟩) := by
  rw [storeResult, getResultFromOption_eq]
  by_cases hlacks : po.hasArg = .required ∧
      (scan.vars.optind > argc ∨ scan.vars.optarg.getD [] = [])
  · rw [if_pos hlacks, if_pos hlacks]
    cases env.lookupFirst <;> rfl
  · rw [if_neg hlacks, if_neg hlacks]
    rfl

/-- A turn of the loop that goes by the verdict on what is found -/
inductive Turn (env : Env) (poptions : List ProgramOption) (ignoreUnknownOptions : Bool)
    (f : Finding) (ch : ℤ) (called : Scan) : Verdict → Prop where
  | refused
      (hhandle : handleOption env poptions ignoreUnknownOptions ch called =
        ({ called with
            results := refuse env poptions called.results ⟨f, called.argv.length, called.vars⟩ },
          .error .invalidArgument)) :
      Turn env poptions ignoreUnknownOptions f ch called .refused
  | passed
      (hhandle : handleOption env poptions ignoreUnknownOptions ch called =
        ({ called with
            results := store poptions called.results ⟨f, called.argv.length, called.vars⟩ },
          .ok ⟨⟩))
      (hoption : getOptionFromCharacter env ch called.idx poptions ignoreUnknownOptions = .ok none →
        named poptions f = none) :
      Turn env poptions ignoreUnknownOptions f ch called .passed
  | overlooked {o : ProgramOption}
      (hhandle : handleOption env poptions ignoreUnknownOptions ch called =
        ({ called with
            results := store poptions called.results ⟨f, called.argv.length, called.vars⟩ },
          .ok ⟨⟩))
      (hoption : getOptionFromCharacter env ch called.idx poptions ignoreUnknownOptions = .ok none)
      (hnamed : named poptions f = some o) :
      Turn env poptions ignoreUnknownOptions f ch called .overlooked
  | aborted
      (hhandle : handleOption env poptions ignoreUnknownOptions ch called =
        (called, .error .aborted)) :
      Turn env poptions ignoreUnknownOptions f ch called .aborted

theorem handleOption_error {ch : ℤ} {called : Scan} {e : Exn}
    (h : getOptionFromCharacter env ch called.idx poptions ignoreUnknownOptions = .error e) :
    handleOption env poptions ignoreUnknownOptions ch called = (called, .error e) := by
  rw [handleOption, h]

/-- What is found is skipped. -/
theorem handleOption_none {ch : ℤ} {called : Scan}
    (h : getOptionFromCharacter env ch called.idx poptions ignoreUnknownOptions = .ok none)
    (hassert : env.ndebug = true ∨ ignoreUnknownOptions = true) :
    handleOption env poptions ignoreUnknownOptions ch called = (called, .ok ⟨⟩) := by
  rw [handleOption, h]
  dsimp only
  unfold assertion
  rw [if_pos]
  · rfl
  · rcases hassert with h | h
    · rw [h, Bool.true_or]
    · rw [h, Bool.or_true]

/-- What is taken for no option leaves the entries alone. -/
theorem store_of_none {r : Reading} (h : reported poptions r.finding = none) (results : Results) :
    store poptions results r = results := by
  rw [store, h]

theorem refuse_of_none {r : Reading} (h : reported poptions r.finding = none) (env : Env)
    (results : Results) : refuse env poptions results r = results := by
  rw [refuse, h]

/-- What is found is an option of the list that is stored, or lacks its value. -/
theorem Turn.of_some {ch : ℤ} {called : Scan} {o : ProgramOption}
    (h : getOptionFromCharacter env ch called.idx poptions ignoreUnknownOptions = .ok (some o))
    (hnamed : named poptions f = some o) (hreported : reported poptions f = some o) :
    Turn env poptions ignoreUnknownOptions f ch called
      (if lacksValue poptions ⟨f, called.argv.length, called.vars⟩ then .refused else .passed) := by
  have hhandle : handleOption env poptions ignoreUnknownOptions ch called =
      storeResult env o called.argv.length called := by
    rw [handleOption, h]
  rw [storeResult_eq] at hhandle
  by_cases hlacks : o.hasArg = .required ∧
      (called.vars.optind > called.argv.length ∨ called.vars.optarg.getD [] = [])
  · have hvalue : lacksValue poptions ⟨f, called.argv.length, called.vars⟩ = true := by
      rw [lacksValue, hnamed]
      exact decide_eq_true hlacks
    rw [if_pos hlacks] at hhandle
    rw [if_pos hvalue]
    refine Turn.refused ?_
    rw [hhandle, refuse, hreported]
  · have hvalue : lacksValue poptions ⟨f, called.argv.length, called.vars⟩ = false := by
      rw [lacksValue, hnamed]
      exact decide_eq_false hlacks
    rw [if_neg hlacks] at hhandle
    rw [hvalue, if_neg Bool.false_ne_true]
    refine Turn.passed ?_ ?_
    · rw [hhandle, store, hreported]
      rfl
    · intro hnone
      rw [h] at hnone
      cases hnone

/-- What is refused for what it is -/
theorem Turn.of_error {ch : ℤ} {called : Scan}
    (h : getOptionFromCharacter env ch called.idx poptions ignoreUnknownOptions =
      .error .invalidArgument) (hreported : reported poptions f = none) :
    Turn env poptions ignoreUnknownOptions f ch called .refused := by
  refine Turn.refused ?_
  rw [handleOption_error h, refuse_of_none hreported]

/-- What is not refused is stored, if it is an option. -/
theorem Turn.goes_on {ch : ℤ} {called : Scan} {v : Verdict}
    (h : Turn env poptions ignoreUnknownOptions f ch called v)
    (hgone : v = .passed ∨ v = .overlooked) :
    handleOption env poptions ignoreUnknownOptions ch called =
      ({ called with
          results := store poptions called.results ⟨f, called.argv.length, called.vars⟩ },
        .ok ⟨⟩) := by
  cases h with
  | refused _ => rcases hgone with hgone | hgone <;> cases hgone
  | passed hhandle _ => exact hhandle
  | overlooked hhandle _ _ => exact hhandle
  | aborted _ => rcases hgone with hgone | hgone <;> cases hgone

/-- What is an error unless unknown options are ignored -/
theorem Turn.of_ignored {ch : ℤ} {called : Scan} {o : ProgramOption} {ignored : Prop}
    [Decidable ignored]
    (h : getOptionFromCharacter env ch called.idx poptions ignoreUnknownOptions =
      if ignored then .ok none else .error .invalidArgument)
    (hignored : ignored → ignoreUnknownOptions = true) (hnamed : named poptions f = some o)
    (hreported : reported poptions f = none) :
    Turn env poptions ignoreUnknownOptions f ch called
      (if ignored then .overlooked else .refused) := by
  by_cases hi : ignored
  · rw [if_pos hi] at h ⊢
    refine Turn.overlooked ?_ h hnamed
    rw [handleOption_none h (Or.inr (hignored hi)), store_of_none hreported]
  · rw [if_neg hi] at h ⊢
    exact Turn.of_error h hreported

/-- **One turn.** -/
theorem turn (h : OptionTable poptions) (env : Env) (ignoreUnknownOptions : Bool) (scan : Scan)
    (hfound : getoptFinding env.posixlyCorrect scan.argv (createGetOptLongOptString poptions)
      (createGetOptLongStructOptions poptions) scan.vars = f) (hf : f ≠ .finished) :
    Turn env poptions ignoreUnknownOptions f (callGetopt env poptions scan).1
      (callGetopt env poptions scan).2
      (verdict env.ndebug poptions ignoreUnknownOptions
        ⟨f, (callGetopt env poptions scan).2.argv.length,
          (callGetopt env poptions scan).2.vars⟩) := by
  obtain ⟨⟨a, hanswers⟩, hcode, hidx⟩ := callGetopt_answers env poptions scan
  rw [hfound] at hanswers hcode hidx
  generalize callGetopt env poptions scan = call at hcode hidx ⊢
  obtain ⟨ch, called⟩ := call
  dsimp only at hcode hidx ⊢
  subst hcode
  cases f with
  | long i =>
      obtain ⟨o, ho⟩ := exists_named h hanswers (Or.inl rfl)
      exact Turn.of_some (getOptionFromCharacter_given env ignoreUnknownOptions hanswers
        (Or.inl ⟨i, rfl, hidx⟩) ho) ho ho
  | short c =>
      obtain ⟨o, ho⟩ := exists_named h hanswers (Or.inr rfl)
      unfold verdict
      dsimp only
      by_cases hunknown : c = '?'
      · rw [if_pos hunknown]
        subst hunknown
        exact Turn.of_ignored (getOptionFromCharacter_unknown env called.idx poptions
          ignoreUnknownOptions) id ho rfl
      · rw [if_neg hunknown]
        exact Turn.of_some (getOptionFromCharacter_given env ignoreUnknownOptions hanswers
          (Or.inr ⟨c, rfl, hunknown⟩) ho) ho ((if_neg hunknown).trans ho)
  | missingLong i =>
      obtain ⟨o, ho⟩ := exists_named h hanswers (Or.inl rfl)
      exact Turn.of_ignored (getOptionFromCharacter_missing env called.idx poptions
        ignoreUnknownOptions) And.left ho rfl
  | missingShort c =>
      obtain ⟨o, ho⟩ := exists_named h hanswers (Or.inr rfl)
      exact Turn.of_ignored (getOptionFromCharacter_missing env called.idx poptions
        ignoreUnknownOptions) And.left ho rfl
  | unwanted i =>
      obtain ⟨o, ho⟩ := exists_named h hanswers (Or.inl rfl)
      exact Turn.of_ignored (getOptionFromCharacter_unknown env called.idx poptions
        ignoreUnknownOptions) id ho rfl
  | unknown =>
      have hoption := getOptionFromCharacter_unknown env called.idx poptions ignoreUnknownOptions
      unfold verdict
      cases ignoreUnknownOptions with
      | false => exact Turn.of_error hoption rfl
      | true => exact Turn.passed (handleOption_none hoption (Or.inr rfl)) fun _ => rfl
  | operand =>
      have hoption := getOptionFromCharacter_operand h env called.idx ignoreUnknownOptions
      unfold verdict
      dsimp only
      cases hndebug : env.ndebug with
      | false =>
          rw [hndebug] at hoption
          exact Turn.aborted (handleOption_error hoption)
      | true =>
          rw [hndebug] at hoption
          exact Turn.passed (handleOption_none hoption (Or.inl hndebug)) fun _ => rfl
  | finished => exact absurd rfl hf

/-! ## The loop -/

/-- One call that finds something -/
theorem turn_of_finding (h : OptionTable poptions) (env : Env) (ignoreUnknownOptions : Bool)
    (scan : Scan)
    (hfound : getoptFinding env.posixlyCorrect scan.argv (createGetOptLongOptString poptions)
      (createGetOptLongStructOptions poptions) scan.vars = f) (hf : f ≠ .finished) :
    (callGetopt env poptions scan).1 ≠ -1 ∧
      Turn env poptions ignoreUnknownOptions f (callGetopt env poptions scan).1
        (callGetopt env poptions scan).2 (verdict env.ndebug poptions ignoreUnknownOptions
          ⟨f, (callGetopt env poptions scan).2.argv.length,
            (callGetopt env poptions scan).2.vars⟩) := by
  have hcode := (callGetopt_answers env poptions scan).2.1
  rw [hfound] at hcode
  have hne := Finding.code_ne_neg_one (optionChars (createGetOptLongOptString poptions)) hf
  rw [← hcode] at hne
  exact ⟨hne, turn h env ignoreUnknownOptions scan hfound hf⟩

theorem reads_nil (h : Reads env poptions scan.argv scan.vars []) :
    (callGetopt env poptions scan).1 = -1 := by
  have hcode := (callGetopt_answers env poptions scan).2.1
  cases h with
  | finished hfound =>
      rw [hfound] at hcode
      exact hcode

theorem reads_cons (h : OptionTable poptions) (ignoreUnknownOptions : Bool) {r : Reading}
    {rs : List Reading} (hreads : Reads env poptions scan.argv scan.vars (r :: rs)) :
    getoptFinding env.posixlyCorrect scan.argv (createGetOptLongOptString poptions)
        (createGetOptLongStructOptions poptions) scan.vars = r.finding ∧
      (callGetopt env poptions scan).1 ≠ -1 ∧
      r = ⟨r.finding, (callGetopt env poptions scan).2.argv.length,
        (callGetopt env poptions scan).2.vars⟩ ∧
      Turn env poptions ignoreUnknownOptions r.finding (callGetopt env poptions scan).1
        (callGetopt env poptions scan).2 (verdict env.ndebug poptions ignoreUnknownOptions r) ∧
      Reads env poptions (callGetopt env poptions scan).2.argv
        (callGetopt env poptions scan).2.vars rs := by
  cases hreads with
  | @next _ _ f _ after hfound hf hafter rest =>
      subst hafter
      obtain ⟨hne, hturn⟩ := turn_of_finding h env ignoreUnknownOptions scan hfound hf
      exact ⟨hfound, hne, rfl, hturn, rest⟩

/-- Every command line is read to its end. -/
theorem exists_reads (env : Env) (poptions : List ProgramOption) {argc : ℕ}
    (argv : List (List Char)) (g : Getopt) (hargc : argv.length = argc) (h : g.Fits argc) :
    ∃ rs, Reads env poptions argv g rs := by
  have hval : ∀ p ∈ createGetOptLongStructOptions poptions, 0 ≤ p.val := by
    intro p hp
    rw [val_createGetOptLongStructOptions poptions p hp]
  have hanswers := getoptLongOnly_answers env.posixlyCorrect argv
    (createGetOptLongOptString poptions) (val_createGetOptLongStructOptions poptions) g
  generalize hfound : getoptFinding env.posixlyCorrect argv (createGetOptLongOptString poptions)
    (createGetOptLongStructOptions poptions) g = f at hanswers
  by_cases hf : f = .finished
  · exact ⟨[], Reads.finished (hfound.trans hf)⟩
  · have hcode := Finding.code_ne_neg_one (optionChars (createGetOptLongOptString poptions)) hf
    rw [← hanswers.code] at hcode
    rw [← hargc] at h
    have hleaves := getoptLongOnly_leaves env.posixlyCorrect argv
      (createGetOptLongOptString poptions) (createGetOptLongStructOptions poptions) h
    have hlt := (hleaves.advances hcode).unread_lt
    have hfits := getoptLongOnly_fits env.posixlyCorrect argv
      (createGetOptLongOptString poptions) hval h hcode
    rw [hargc] at hfits
    obtain ⟨rs, hrest⟩ := exists_reads env poptions _ _ (hleaves.length.trans hargc) hfits
    exact ⟨_, Reads.next hfound hf rfl hrest⟩
termination_by g.unread argc
decreasing_by
  rwa [hargc] at hlt

/-- So is one after others, if no element is left half read. -/
theorem exists_reads_kept (env : Env) (poptions : List ProgramOption) (programName : List Char)
    (args : List (List Char)) {g : Getopt} (h : g.Kept) (hoptind : g.optind = 1)
    (hnext : g.nextchar = []) : ∃ rs, Reads env poptions (programName :: args) g rs := by
  have hargc : 1 ≤ (programName :: args).length := Nat.le_add_left 1 _
  exact exists_reads env poptions _ _ rfl
    ⟨h, ⟨hoptind.trans_le hargc, fun hne => absurd hnext hne⟩⟩

/-- **The run.**  The loop ends as the first verdict says that ends it, or with the command
line, and the entries are those of the readings up to there. -/
theorem parseLoop_reads (h : OptionTable poptions) {rs : List Reading}
    (hreads : Reads env poptions scan.argv scan.vars rs) {fuel : ℕ} (hfuel : rs.length < fuel) :
    (parseLoop env poptions ignoreUnknownOptions fuel scan).2 =
        some (ended (lastVerdict env.ndebug poptions ignoreUnknownOptions rs)) ∧
      (parseLoop env poptions ignoreUnknownOptions fuel scan).1.results =
        entriesAfter env poptions ignoreUnknownOptions rs scan.results := by
  obtain ⟨fuel, rfl⟩ := Nat.exists_eq_succ_of_ne_zero (Nat.ne_of_gt (Nat.zero_lt_of_lt hfuel))
  induction rs generalizing scan fuel with
  | nil =>
      rw [parseLoop]
      dsimp only
      rw [if_pos (reads_nil hreads)]
      exact ⟨rfl, rfl⟩
  | cons r rs ih =>
      obtain ⟨-, hne, hr, hturn, hrest⟩ := reads_cons h ignoreUnknownOptions hreads
      obtain ⟨fuel, rfl⟩ := Nat.exists_eq_succ_of_ne_zero
        (Nat.ne_of_gt (Nat.zero_lt_of_lt (Nat.lt_of_succ_lt_succ hfuel)))
      have hfuel' := Nat.lt_of_succ_lt_succ hfuel
      have hsame : (callGetopt env poptions scan).2.results = scan.results := rfl
      unfold lastVerdict at ih ⊢
      rw [List.map_cons, entriesAfter]
      generalize verdict env.ndebug poptions ignoreUnknownOptions r = v at hturn ⊢
      cases hturn with
      | refused hhandle =>
          rw [parseLoop_error rfl hne hhandle, ← hr]
          exact ⟨rfl, rfl⟩
      | passed hhandle hoption =>
          rw [← hr] at hhandle
          rw [parseLoop_next rfl hne hhandle]
          refine ih ?_ fuel hfuel'
          exact hrest
      | overlooked hhandle hoption hnamed =>
          rw [← hr] at hhandle
          rw [parseLoop_next rfl hne hhandle]
          refine ih ?_ fuel hfuel'
          exact hrest
      | aborted hhandle =>
          rw [parseLoop_error rfl hne hhandle]
          exact ⟨rfl, rfl⟩

end
end KssUtil.Options
