import KssUtil.Libc.Exceptions
import KssUtil.Libc.Getopt

/-!
# Program options (programoptions.hpp, programoptions.cpp)

The option table, and the reader of command lines over `getopt_long_only`.  The
elements of a command line are C strings.
-/

namespace KssUtil.Options

open KssUtil.Libc

/-- Whether `assert` is compiled out, whether `POSIXLY_CORRECT` is set, and whether
`results[name]` is looked up before the value for it is computed, which C++14 leaves
open. -/
structure Env where
  ndebug : Bool
  posixlyCorrect : Bool
  lookupFirst : Bool

/-! ## Options -/

inductive HasArgument where
  | none
  | required
  | optional
deriving DecidableEq, Repr

def noShortOption : Char := Char.ofNat 0
def autoShortOption : Char := Char.ofNat 1

/-- `Option` -/
structure ProgramOption where
  name : List Char
  description : List Char := []
  shortOption : Char := autoShortOption
  hasArg : HasArgument := .none
  defaultValue : List Char := []
deriving DecidableEq, Repr

def isValidArgumentName (s : List Char) : Bool :=
  !s.isEmpty && s.all fun ch => !isspace ch && isprint ch

/-- The short options of a new option and of one that is there are the same. -/
def sameShortOption (o opt : ProgramOption) : Bool :=
  o.shortOption ≠ noShortOption ∧
    (if o.shortOption = autoShortOption then o.name.headD nul else o.shortOption) = opt.shortOption

def verifyOption (options : List ProgramOption) (o : ProgramOption) : Except Exn Unit :=
  if !isValidArgumentName o.name then throw .invalidArgument
  else if options.any fun opt => opt.name = o.name || sameShortOption o opt then
    throw .invalidArgument
  else return

/-- `add(Option&&)`, on the option table -/
def add (poptions : List ProgramOption) (o : ProgramOption) : Except Exn (List ProgramOption) := do
  verifyOption poptions o
  return poptions ++ [{ o with
    shortOption := if o.shortOption = autoShortOption then o.name.headD nul else o.shortOption }]

/-- The options are added one by one, up to the first that is refused. -/
def addRange (poptions : List ProgramOption) :
    List ProgramOption → List ProgramOption × Except Exn Unit
  | [] => (poptions, return)
  | o :: rest =>
      match add poptions o with
      | .ok poptions => addRange poptions rest
      | .error e => (poptions, .error e)

/-- The option tables that calls of `add` build. -/
inductive Accepted : List ProgramOption → Prop where
  | nil : Accepted []
  | add {poptions poptions' : List ProgramOption} {o : ProgramOption} (h : Accepted poptions)
      (hadd : add poptions o = .ok poptions') : Accepted poptions'

/-! ## Results -/

/-- `results_map_t` -/
abbrev Results := List Char → Option (List Char)

namespace Results

def set (r : Results) (name value : List Char) : Results :=
  fun n => if n = name then some value else r n

/-- `results[name]`, which makes an empty entry if there is none. -/
def touch (r : Results) (name : List Char) : Results := r.set name ((r name).getD [])

end Results

structure Impl where
  poptions : List ProgramOption
  results : Results
  programName : List Char

/-- The entries are made in order. -/
def Results.setAll (r : Results) (entries : List (List Char × List Char)) : Results :=
  entries.foldl (fun r x => r.set x.1 x.2) r

def initWithDefaultValues (poptions : List ProgramOption) : Results :=
  poptions.foldl (fun r o => if o.hasArg = .optional then r.set o.name o.defaultValue else r)
    fun _ => none

/-- The value that an option of that name is given last. -/
def lastGiven (entries : List (ProgramOption × List Char)) (name : List Char) :
    Option (List Char) :=
  (entries.reverse.find? fun x => x.1.name = name).map Prod.snd

/-- The value that a name has: the one that is given last, or the default. -/
def valueOf (poptions : List ProgramOption) (entries : List (ProgramOption × List Char))
    (name : List Char) : Option (List Char) :=
  (lastGiven entries name).or
    ((poptions.find? fun o => o.hasArg = .optional ∧ o.name = name).map ProgramOption.defaultValue)

/-! ## Reading a command line -/

def toHasArg : HasArgument → HasArg
  | .none => .noArgument
  | .required => .requiredArgument
  | .optional => .optionalArgument

def createGetOptLongStructOptions (poptions : List ProgramOption) : List LongOption :=
  poptions.map fun popt => { name := cstr popt.name, hasArg := toHasArg popt.hasArg, val := 0 }

def createGetOptLongOptString (poptions : List ProgramOption) : List Char :=
  poptions.flatMap fun popt =>
    if isprint popt.shortOption ∧ ¬isspace popt.shortOption then
      popt.shortOption :: if popt.hasArg = .required ∨ popt.hasArg = .optional then [':'] else []
    else []

/-- `none` is a null pointer: the option is to be ignored. -/
def getOptionFromCharacter (env : Env) (ch idx : ℤ) (poptions : List ProgramOption)
    (ignoreUnknownOptions : Bool) : Except Exn (Option ProgramOption) :=
  if ch = '?'.toNat then
    if ignoreUnknownOptions then return none else throw .invalidArgument
  else if ch = ':'.toNat then throw .invalidArgument
  else if ch = 0 then do
    assertion env.ndebug (0 ≤ idx ∧ idx < poptions.length)
    return poptions[idx.toNat]?
  else do
    let it := poptions.find? fun popt => (popt.shortOption.toNat : ℤ) = ch
    assertion env.ndebug it.isSome
    return it

def getResultFromOption (po : ProgramOption) (argc : ℕ) (vars : Getopt) :
    Except Exn (List Char) :=
  match po.hasArg with
  | .none => return []
  | .required =>
      if vars.optind > argc ∨ vars.optarg.getD [] = [] then throw .invalidArgument
      else return vars.optarg.getD []
  | .optional => return vars.optarg.getD []

/-- What the loop of `parse` works on. -/
structure Scan where
  argv : List (List Char)
  vars : Getopt
  idx : ℤ
  results : Results

/-- `_impl->results[po->name] = getResultFromOption(*po, argc)` -/
def storeResult (env : Env) (po : ProgramOption) (argc : ℕ) (scan : Scan) :
    Scan × Except Exn Unit :=
  match getResultFromOption po argc scan.vars with
  | .ok value => ({ scan with results := scan.results.set po.name value }, return)
  | .error e =>
      (if env.lookupFirst then { scan with results := scan.results.touch po.name } else scan,
        .error e)

/-- The body of the loop. -/
def handleOption (env : Env) (poptions : List ProgramOption) (ignoreUnknownOptions : Bool)
    (ch : ℤ) (scan : Scan) : Scan × Except Exn Unit :=
  match getOptionFromCharacter env ch scan.idx poptions ignoreUnknownOptions with
  | .error e => (scan, .error e)
  | .ok none => (scan, assertion env.ndebug ignoreUnknownOptions)
  | .ok (some po) => storeResult env po scan.argv.length scan

/-- The call in the condition of the loop: what it returns, and the state after it. -/
def callGetopt (env : Env) (poptions : List ProgramOption) (scan : Scan) : ℤ × Scan :=
  let r := getoptLongOnly env.posixlyCorrect scan.argv (createGetOptLongOptString poptions)
    (createGetOptLongStructOptions poptions) scan.vars
  (r.2.code, { scan with argv := r.1, vars := r.2.vars,
                         idx := (r.2.longind.map Int.ofNat).getD scan.idx })

/-- The outcome is `none` if the fuel does not last. -/
def parseLoop (env : Env) (poptions : List ProgramOption) (ignoreUnknownOptions : Bool) :
    ℕ → Scan → Scan × Option (Except Exn Unit)
  | 0, scan => (scan, none)
  | fuel + 1, scan =>
      let call := callGetopt env poptions scan
      if call.1 = -1 then (call.2, some (return))
      else
        let r := handleOption env poptions ignoreUnknownOptions call.1 call.2
        match r.2 with
        | .ok _ => parseLoop env poptions ignoreUnknownOptions fuel r.1
        | .error e => (r.1, some (.error e))

/-- What a call of `parse` leaves: its outcome, and the state of `getopt` and of the
object after it. -/
structure Parsed where
  outcome : Option (Except Exn Unit)
  vars : Getopt
  impl : Impl

def parse (env : Env) (fuel : ℕ) (vars : Getopt) (impl : Impl) (argv : List (List Char))
    (ignoreUnknownOptions : Bool) : Parsed :=
  match argv with
  | [] => ⟨some (throw .invalidArgument), vars, impl⟩
  | programName :: _ =>
      let r := parseLoop env impl.poptions ignoreUnknownOptions fuel
        ⟨argv, { vars with optind := 1 }, -1, initWithDefaultValues impl.poptions⟩
      ⟨r.2, r.1.vars, { impl with results := r.1.results, programName }⟩

def hasOption (impl : Impl) (name : List Char) : Except Exn Bool :=
  if name = [] then throw .invalidArgument else return (impl.results name).isSome

def rawOptionValue (impl : Impl) (name : List Char) : Except Exn (List Char) :=
  if name = [] then throw .invalidArgument
  else
    match impl.results name with
    | some value => return value
    | none => throw .invalidArgument

/-- What `usage` says about one option. -/
def usageLine (popt : ProgramOption) : List Char :=
  "    --".toList ++ popt.name ++
    (match popt.hasArg with
      | .required => "=<value>".toList
      | .optional => "[=<value>]".toList
      | .none => []) ++
    (if popt.shortOption ≠ noShortOption then
      " (or -".toList ++ [popt.shortOption] ++
        (match popt.hasArg with
          | .required => " <value>".toList
          | .optional => " [<value>]".toList
          | .none => []) ++ ")".toList
    else []) ++
    (if popt.hasArg = .optional then ", default=".toList ++ popt.defaultValue else []) ++
    (if popt.description ≠ [] then ": ".toList ++ popt.description else []) ++ ['\n']

def usage (impl : Impl) : List Char :=
  if impl.programName = [] then []
  else
    "usage: ".toList ++ impl.programName ++ " <options>\n".toList ++
      "  where options are:\n".toList ++ impl.poptions.flatMap usageLine

/-! ## Option tables -/

section

variable {poptions : List ProgramOption}

/-- What `add` promises about the names of a table. -/
structure WellNamed (poptions : List ProgramOption) : Prop where
  valid : ∀ o ∈ poptions, isValidArgumentName o.name = true
  nodup : (poptions.map ProgramOption.name).Nodup

theorem verifyOption_ok {o : ProgramOption} (h : verifyOption poptions o = .ok ⟨⟩) :
    isValidArgumentName o.name = true ∧ ∀ opt ∈ poptions, opt.name ≠ o.name := by
  unfold verifyOption at h
  split at h
  · cases h
  · rename_i hvalid
    split at h
    · cases h
    · rename_i hnone
      refine ⟨by simpa using hvalid, ?_⟩
      rintro opt hopt heq
      apply hnone
      rw [List.any_eq_true]
      refine ⟨opt, hopt, ?_⟩
      rw [heq, decide_eq_true rfl, Bool.true_or]

theorem add_ok {poptions' : List ProgramOption} {o : ProgramOption}
    (h : add poptions o = .ok poptions') : verifyOption poptions o = .ok ⟨⟩ ∧
      ∃ o', o'.name = o.name ∧ poptions' = poptions ++ [o'] := by
  unfold add at h
  cases hverify : verifyOption poptions o with
  | error e =>
      rw [hverify] at h
      cases h
  | ok _ =>
      rw [hverify] at h
      refine ⟨rfl, _, ?_, (Except.ok.inj h).symm⟩
      rfl

theorem Accepted.wellNamed (h : Accepted poptions) : WellNamed poptions := by
  induction h with
  | nil =>
      constructor
      · intro o ho
        exact absurd ho List.not_mem_nil
      · exact List.nodup_nil
  | add h hadd ih =>
      obtain ⟨hverify, o', hname, rfl⟩ := add_ok hadd
      obtain ⟨hvalid, hfresh⟩ := verifyOption_ok hverify
      rw [← hname] at hvalid hfresh
      constructor
      · intro opt hopt
        rcases List.mem_append.mp hopt with hopt | hopt
        · exact ih.valid opt hopt
        · rw [List.mem_singleton.mp hopt]
          exact hvalid
      · rw [List.map_append, List.map_singleton, List.nodup_append]
        refine ⟨ih.nodup, List.nodup_singleton _, ?_⟩
        rintro n hn n' hn' rfl
        obtain ⟨opt, hopt, rfl⟩ := List.mem_map.mp hn
        exact hfresh opt hopt (List.mem_singleton.mp hn')

/-- Whatever is refused, the table is one that `add` builds. -/
theorem accepted_addRange (h : Accepted poptions) (given : List ProgramOption) :
    Accepted (addRange poptions given).1 := by
  induction given generalizing poptions with
  | nil => exact h
  | cons o given ih =>
      rw [addRange]
      cases hadd : add poptions o with
      | ok poptions' => exact ih (h.add hadd)
      | error e => exact h

/-! ## Results -/

theorem Results.setAll_of_not_mem {name : List Char} {entries : List (List Char × List Char)}
    (h : ∀ x ∈ entries, x.1 ≠ name) (r : Results) : r.setAll entries name = r name := by
  induction entries generalizing r with
  | nil => rfl
  | cons x entries ih =>
      obtain ⟨hx, hentries⟩ := List.forall_mem_cons.mp h
      rw [setAll, List.foldl_cons]
      exact (ih hentries (r.set x.1 x.2)).trans (if_neg fun heq => hx heq.symm)

theorem Results.setAll_of_mem {x : List Char × List Char} {entries : List (List Char × List Char)}
    (hnodup : (entries.map Prod.fst).Nodup) (h : x ∈ entries) (r : Results) :
    r.setAll entries x.1 = some x.2 := by
  induction entries generalizing r with
  | nil => exact absurd h List.not_mem_nil
  | cons y entries ih =>
      obtain ⟨hfresh, hnodup⟩ := List.nodup_cons.mp hnodup
      rw [setAll, List.foldl_cons]
      rcases List.mem_cons.mp h with rfl | h
      · refine (setAll_of_not_mem ?_ _).trans (if_pos rfl)
        rintro y hy heq
        exact hfresh (List.mem_map.mpr ⟨y, hy, heq⟩)
      · exact ih hnodup h _

theorem hasOption_congr {impl impl' : Impl} {n : List Char}
    (h : n ≠ [] → impl'.results n = impl.results n) : hasOption impl' n = hasOption impl n := by
  unfold hasOption
  split
  · rfl
  · rename_i hn
    rw [h hn]

theorem rawOptionValue_congr {impl impl' : Impl} {n : List Char}
    (h : n ≠ [] → impl'.results n = impl.results n) :
    rawOptionValue impl' n = rawOptionValue impl n := by
  unfold rawOptionValue
  split
  · rfl
  · rename_i hn
    rw [h hn]

/-- The defaults of the options with optional arguments. -/
def defaults (poptions : List ProgramOption) : List (List Char × List Char) :=
  (poptions.filter fun o => o.hasArg = .optional).map fun o => (o.name, o.defaultValue)

theorem initWithDefaultValues_eq (poptions : List ProgramOption) :
    initWithDefaultValues poptions = Results.setAll (fun _ => none) (defaults poptions) := by
  rw [initWithDefaultValues, Results.setAll, defaults, List.foldl_map, List.foldl_filter]
  simp only [decide_eq_true_eq]

theorem WellNamed.nodup_defaults (h : WellNamed poptions) :
    ((defaults poptions).map Prod.fst).Nodup := by
  have hnames : (defaults poptions).map Prod.fst =
      (poptions.filter fun o => o.hasArg = .optional).map ProgramOption.name := by
    rw [defaults, List.map_map]
    rfl
  rw [hnames]
  exact h.nodup.sublist (List.Sublist.map _ List.filter_sublist)

theorem mem_defaults {x : List Char × List Char} : x ∈ defaults poptions ↔
    ∃ o ∈ poptions, o.hasArg = .optional ∧ (o.name, o.defaultValue) = x := by
  rw [defaults, List.mem_map]
  constructor
  · rintro ⟨o, ho, rfl⟩
    obtain ⟨ho, hopt⟩ := List.mem_filter.mp ho
    exact ⟨o, ho, of_decide_eq_true hopt, rfl⟩
  · rintro ⟨o, ho, hopt, rfl⟩
    exact ⟨o, List.mem_filter.mpr ⟨ho, decide_eq_true hopt⟩, rfl⟩

/-- Options of one name are one option. -/
theorem WellNamed.inj (h : WellNamed poptions) {o o' : ProgramOption} (ho : o ∈ poptions)
    (ho' : o' ∈ poptions) (hname : o.name = o'.name) : o = o' :=
  List.inj_on_of_nodup_map h.nodup ho ho' hname

/-- Of the values that are stored under a name the last one is there. -/
theorem Results.setAll_eq (entries : List (ProgramOption × List Char)) (r : Results)
    (n : List Char) :
    r.setAll (entries.map fun x => (x.1.name, x.2)) n = (lastGiven entries n).or (r n) := by
  induction entries using List.reverseRecOn with
  | nil => rfl
  | append_singleton entries x ih =>
      unfold setAll lastGiven at *
      rw [List.map_append, List.foldl_append, List.reverse_append]
      show (if n = x.1.name then some x.2 else _) = _
      rw [List.reverse_singleton, List.singleton_append]
      rcases Decidable.em (x.1.name = n) with heq | hne
      · have hfound : (x :: entries.reverse).find? (fun x => decide (x.1.name = n)) = some x :=
          List.find?_cons_of_pos (decide_eq_true heq)
        rw [if_pos heq.symm, hfound]
        rfl
      · have hskip : (x :: entries.reverse).find? (fun x => decide (x.1.name = n)) =
            entries.reverse.find? fun x => decide (x.1.name = n) :=
          List.find?_cons_of_neg fun heq => hne (of_decide_eq_true heq)
        rw [if_neg fun heq => hne heq.symm, hskip]
        exact ih

/-- A name begins with the default of its option, if that has one. -/
theorem initWithDefaultValues_find? (h : WellNamed poptions) (n : List Char) :
    initWithDefaultValues poptions n =
      (poptions.find? fun o => o.hasArg = .optional ∧ o.name = n).map
        ProgramOption.defaultValue := by
  rw [initWithDefaultValues_eq]
  cases hfind : poptions.find? fun o => o.hasArg = .optional ∧ o.name = n with
  | none =>
      rw [Results.setAll_of_not_mem]
      · rfl
      · rintro y hy rfl
        obtain ⟨o, ho, hopt, rfl⟩ := mem_defaults.mp hy
        exact List.find?_eq_none.mp hfind o ho (decide_eq_true ⟨hopt, rfl⟩)
  | some o =>
      have hfound := List.find?_some
        (p := fun o : ProgramOption => decide (o.hasArg = .optional ∧ o.name = n)) hfind
      obtain ⟨hopt, rfl⟩ := of_decide_eq_true hfound
      exact Results.setAll_of_mem h.nodup_defaults
        (mem_defaults.mpr ⟨o, List.mem_of_find?_eq_some hfind, hopt, rfl⟩) _

end
end KssUtil.Options
