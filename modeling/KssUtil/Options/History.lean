import KssUtil.Libc.GetoptProgress
import KssUtil.Options.CommandLine

/-!
# Parses one after the other

`getopt` keeps its variables from one call of `parse` to the next, whatever object
the calls are on.
-/

namespace KssUtil.Options

open KssUtil.Libc

/-- The variables of `getopt` after calls of `parse`, each on any object and with any
command line.  A call may have thrown; one that has not come to an end is not followed
by another.  The pointer `nextchar` stays in the last element that was read, and its memory
may be written over before the next call. -/
inductive Reached : Getopt → Prop where
  | start : Reached {}
  | overwritten {vars : Getopt} (nextchar : List Char) (h : Reached vars)
      (hinit : vars.initialized = true) : Reached { vars with nextchar }
  | parse {vars : Getopt} (env : Env) (fuel : ℕ) (impl : Impl) (argv : List (List Char))
      (ignoreUnknownOptions : Bool) (h : Reached vars)
      (hended : (parse env fuel vars impl argv ignoreUnknownOptions).outcome ≠ none) :
      Reached (parse env fuel vars impl argv ignoreUnknownOptions).vars

/-- The object as it was before it was given a command line. -/
def unparsed (impl : Impl) : Impl := ⟨impl.poptions, fun _ => none, []⟩

/-- What `getopt` has kept does not matter to a command line of these options: no
argument is half read, and the order of the elements is the one that the options ask
for. -/
structure Settled (env : Env) (poptions : List ProgramOption) (vars : Getopt) : Prop where
  nextchar : vars.initialized = true → vars.nextchar = []
  order : vars.initialized = true →
    vars.order = (beginCall env.posixlyCorrect (createGetOptLongOptString poptions) {}).order

/-! ## What a parse leaves -/

section

variable {env : Env} {poptions : List ProgramOption} {ignoreUnknownOptions : Bool}

theorem val_nonneg (poptions : List ProgramOption) :
    ∀ p ∈ createGetOptLongStructOptions poptions, 0 ≤ p.val := by
  intro p hp
  obtain ⟨o, _, rfl⟩ := List.mem_map.mp hp
  exact Int.le_refl 0

theorem handleOption_vars (env : Env) (poptions : List ProgramOption)
    (ignoreUnknownOptions : Bool) (ch : ℤ) (scan : Scan) :
    (handleOption env poptions ignoreUnknownOptions ch scan).1.vars = scan.vars := by
  unfold handleOption
  split
  · rfl
  · rfl
  · unfold storeResult
    split
    · rfl
    · dsimp only
      split <;> rfl

/-- A loop that ends by itself ends at the end of an argument. -/
theorem parseLoop_kept (fuel : ℕ) (scan : Scan) (h : scan.vars.Kept) :
    (parseLoop env poptions ignoreUnknownOptions fuel scan).1.vars.Kept ∧
      ((parseLoop env poptions ignoreUnknownOptions fuel scan).2 = some (.ok ()) →
        (parseLoop env poptions ignoreUnknownOptions fuel scan).1.vars.nextchar = []) := by
  induction fuel generalizing scan with
  | zero =>
      refine ⟨h, ?_⟩
      intro hend
      cases hend
  | succ fuel ih =>
      have hcalled : (callGetopt env poptions scan).2.vars.Kept :=
        getoptLongOnly_kept env.posixlyCorrect scan.argv (createGetOptLongOptString poptions)
          (val_nonneg poptions) h
      have hend : (callGetopt env poptions scan).1 = -1 →
          (callGetopt env poptions scan).2.vars.nextchar = [] :=
        (getoptLongOnly_placed env.posixlyCorrect scan.argv (createGetOptLongOptString poptions)
          (val_nonneg poptions) h.toPlaced).2
      have hhandled := handleOption_vars env poptions ignoreUnknownOptions
        (callGetopt env poptions scan).1 (callGetopt env poptions scan).2
      rw [parseLoop]
      dsimp only
      split
      · rename_i hcode
        exact ⟨hcalled, fun _ => hend hcode⟩
      · -- what is done with an option does not touch the variables of `getopt`
        split
        · apply ih
          rw [hhandled]
          exact hcalled
        · dsimp only
          rw [hhandled]
          refine ⟨hcalled, ?_⟩
          intro hok
          cases hok

theorem Reached.kept {vars : Getopt} (h : Reached vars) : vars.Kept := by
  induction h with
  | start => exact Getopt.kept_start
  | overwritten nextchar h hinit ih =>
      refine ⟨⟨ih.optind, ih.firstNonopt, ih.lastNonopt⟩, ih.nonopts, ?_⟩
      intro hoff
      cases hinit.symm.trans hoff
  | parse env fuel impl argv ignoreUnknownOptions h hended ih =>
      cases argv with
      | nil => exact ih
      | cons programName args => exact (parseLoop_kept fuel _ ih.rewind).1

/-- After a parse that has not thrown no argument is half read. -/
theorem nextchar_of_parse_ok {vars : Getopt} (h : Reached vars) (fuel : ℕ) (impl : Impl)
    (argv : List (List Char))
    (hok : (parse env fuel vars impl argv ignoreUnknownOptions).outcome = some (.ok ())) :
    (parse env fuel vars impl argv ignoreUnknownOptions).vars.nextchar = [] := by
  cases argv with
  | nil => cases hok
  | cons programName args =>
      exact (parseLoop_kept fuel _ h.kept.rewind).2 hok

end

/-! ## What a parse sees -/

section

variable {posixlyCorrect : Bool} {optstring : List Char} {g : Getopt}

/-- At the first element the bounds of the elements that are no options are set anew. -/
theorem settle_placed (argv : List (List Char)) (h : g.Begun) (hoptind : g.optind = 1) :
    settle argv g = settle argv { g with firstNonopt := 1, lastNonopt := 1 } := by
  unfold settle
  dsimp only
  rw [hoptind, Nat.min_eq_right h.firstNonopt, Nat.min_eq_right h.lastNonopt, Nat.min_self]

/-- The first call of `getopt` for a command line. -/
theorem getoptLongOnly_settled (argv : List (List Char)) (longopts : List LongOption)
    (h : g.Placed) (hoptind : g.optind = 1) (hnext : g.initialized = true → g.nextchar = [])
    (horder : g.initialized = true → g.order = (beginCall posixlyCorrect optstring {}).order) :
    getoptLongOnly posixlyCorrect argv optstring longopts g =
      getoptLongOnly posixlyCorrect argv optstring longopts {} := by
  have hne : g.optind ≠ 0 := by
    rw [hoptind]
    exact Nat.one_ne_zero
  by_cases hinit : g.initialized = true
  · -- the variables are kept, but for the bounds they are those of a first call
    have hkept : beginCall posixlyCorrect optstring g = { g with optarg := none } := by
      unfold beginCall
      rw [if_neg]
      rintro (hzero | hoff)
      · exact hne hzero
      · exact hoff hinit
    have hbegun : Getopt.Begun { g with optarg := none } :=
      ⟨hinit, h.optind, h.firstNonopt hinit, h.lastNonopt hinit⟩
    have hfirst : ({ g with optarg := none, firstNonopt := 1, lastNonopt := 1 } : Getopt) =
        beginCall posixlyCorrect optstring {} := by
      have hparts : beginCall posixlyCorrect optstring {} =
          { optind := 1, initialized := true, firstNonopt := 1, lastNonopt := 1,
            order := (beginCall posixlyCorrect optstring {}).order } := rfl
      rw [hparts, ← horder hinit, hoptind, hinit, hnext hinit]
    have hsettle : settle argv { g with optarg := none } =
        settle argv (beginCall posixlyCorrect optstring {}) := by
      rw [← hfirst]
      exact settle_placed argv hbegun hoptind
    unfold getoptLongOnly
    rw [hkept]
    dsimp only
    rw [if_pos (hnext hinit), nextElement, nextElement, hsettle]
    rfl
  · have hbegin : beginCall posixlyCorrect optstring g = beginCall posixlyCorrect optstring {} := by
      unfold beginCall
      rw [if_pos (Or.inr hinit), if_pos (Or.inr Bool.false_ne_true), hoptind]
    unfold getoptLongOnly
    rw [hbegin]

end

section

variable {env : Env} {vars : Getopt} {impl : Impl}

/-- The loop of a call as it goes in a new process. -/
theorem parse_settled (hplaced : vars.Placed) (hsettled : Settled env impl.poptions vars)
    (fuel : ℕ) (programName : List Char) (args : List (List Char)) (ignoreUnknownOptions : Bool) :
    (parse env fuel vars impl (programName :: args) ignoreUnknownOptions).outcome =
      (parse env fuel {} (unparsed impl) (programName :: args) ignoreUnknownOptions).outcome ∧
    (parse env fuel vars impl (programName :: args) ignoreUnknownOptions).impl.results =
      (parse env fuel {} (unparsed impl) (programName :: args)
        ignoreUnknownOptions).impl.results := by
  cases fuel with
  | zero => exact ⟨rfl, rfl⟩
  | succ fuel =>
      have hfirst : Getopt.Placed { vars with optind := 1 } :=
        ⟨Nat.le_refl 1, hplaced.firstNonopt, hplaced.lastNonopt⟩
      let scan : Scan := ⟨programName :: args, { vars with optind := 1 }, -1,
        initWithDefaultValues impl.poptions⟩
      let scan' : Scan := ⟨programName :: args, {}, -1, initWithDefaultValues impl.poptions⟩
      have hgetopt := getoptLongOnly_settled (programName :: args)
        (createGetOptLongStructOptions impl.poptions) hfirst rfl hsettled.nextchar hsettled.order
      have hcall : callGetopt env impl.poptions scan = callGetopt env impl.poptions scan' := by
        unfold callGetopt
        dsimp only [scan, scan']
        rw [hgetopt]
      have hloop : parseLoop env impl.poptions ignoreUnknownOptions (fuel + 1) scan =
          parseLoop env impl.poptions ignoreUnknownOptions (fuel + 1) scan' := by
        rw [parseLoop, hcall, parseLoop]
      exact ⟨congrArg Prod.snd hloop, congrArg (fun r => r.1.results) hloop⟩

end
end KssUtil.Options
