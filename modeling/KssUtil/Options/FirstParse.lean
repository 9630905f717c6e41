import KssUtil.Libc.GetoptAlike
import KssUtil.Options.History
import KssUtil.Options.Readings

/-!
# Parsing as in a new process

A parse after others is as the first one if `getopt` has kept nothing that it goes on with.
-/

namespace KssUtil.Options

open KssUtil.Libc

/-- The same outcome, and the same answers of the objects. -/
structure SameParse (r r' : Parsed) : Prop where
  outcome : r.outcome = r'.outcome
  hasOption : ∀ n, hasOption r.impl n = hasOption r'.impl n
  rawOptionValue : ∀ n, rawOptionValue r.impl n = rawOptionValue r'.impl n

/-- The call comes to an end, and to the same one as if it were the first of the process. -/
def AsFirst (env : Env) (vars : Getopt) (impl : Impl) (argv : List (List Char))
    (ignoreUnknownOptions : Bool) : Prop :=
  ∃ enough, ∀ fuel ≥ enough,
    (parse env fuel vars impl argv ignoreUnknownOptions).outcome ≠ none ∧
      SameParse (parse env fuel vars impl argv ignoreUnknownOptions)
        (parse env fuel {} (unparsed impl) argv ignoreUnknownOptions)

/-- The order of the elements that the options ask for -/
def askedOrder (env : Env) (poptions : List ProgramOption) : ArgOrder :=
  (beginCall env.posixlyCorrect (createGetOptLongOptString poptions) {}).order

/-- Without assertions it does not matter whether operands are passed over or handed out. -/
def SameOrder (env : Env) (order order' : ArgOrder) : Prop :=
  order = order' ∨ env.ndebug = true ∧ order ≠ .requireOrder ∧ order' ≠ .requireOrder

/-- `getopt` has kept nothing that matters to these options. -/
structure Unaffected (env : Env) (poptions : List ProgramOption) (vars : Getopt) : Prop where
  nextchar : vars.initialized = true → vars.nextchar = []
  order : vars.initialized = true → SameOrder env vars.order (askedOrder env poptions)

/-! ## Operands that are handed out -/

/-- The same has been found and read. -/
structure Reading.Same (r r' : Reading) : Prop where
  finding : r'.finding = r.finding
  argc : r'.argc = r.argc
  optind : r'.vars.optind = r.vars.optind
  optarg : r'.vars.optarg = r.vars.optarg

/-- The second readings are the first ones and operands. -/
inductive AndOperands : List Reading → List Reading → Prop where
  | nil : AndOperands [] []
  | operand {rs rs' : List Reading} (argc : ℕ) (vars : Getopt) (rest : AndOperands rs rs') :
      AndOperands rs (⟨.operand, argc, vars⟩ :: rs')
  | found {r r' : Reading} {rs rs' : List Reading} (same : r.Same r') (rest : AndOperands rs rs') :
      AndOperands (r :: rs) (r' :: rs')

section

variable {env : Env} {poptions : List ProgramOption} {ignoreUnknownOptions : Bool}
  {r r' : Reading} {rs rs' : List Reading}

namespace Reading.Same

theorem lacksValue (h : r.Same r') : lacksValue poptions r' = lacksValue poptions r := by
  unfold Options.lacksValue
  rw [h.finding, h.argc, h.optind, h.optarg]

theorem verdict (h : r.Same r') (ndebug : Bool) :
    verdict ndebug poptions ignoreUnknownOptions r' =
      verdict ndebug poptions ignoreUnknownOptions r := by
  unfold Options.verdict
  rw [h.finding, h.lacksValue]

theorem store (h : r.Same r') (results : Results) :
    store poptions results r' = store poptions results r := by
  unfold Options.store Reading.value
  rw [h.finding, h.optarg]

theorem refuse (h : r.Same r') (results : Results) :
    refuse env poptions results r' = refuse env poptions results r := by
  unfold Options.refuse
  rw [h.finding]

end Reading.Same

/-- Without assertions operands change nothing. -/
theorem AndOperands.ends (h : AndOperands rs rs') (hndebug : env.ndebug = true)
    (results : Results) :
    lastVerdict env.ndebug poptions ignoreUnknownOptions rs' =
        lastVerdict env.ndebug poptions ignoreUnknownOptions rs ∧
      entriesAfter env poptions ignoreUnknownOptions rs' results =
        entriesAfter env poptions ignoreUnknownOptions rs results := by
  induction h generalizing results with
  | nil => exact ⟨rfl, rfl⟩
  | operand argc vars rest ih =>
      have hpassed : verdict env.ndebug poptions ignoreUnknownOptions ⟨.operand, argc, vars⟩ =
          .passed := by
        rw [hndebug]
        rfl
      unfold lastVerdict at ih ⊢
      rw [List.map_cons, entriesAfter, hpassed]
      exact ih results
  | @found r r' rs rs' same rest ih =>
      unfold lastVerdict at ih ⊢
      rw [List.map_cons, List.map_cons, entriesAfter, entriesAfter, same.verdict, same.refuse,
        same.store]
      cases verdict env.ndebug poptions ignoreUnknownOptions r with
      | refused => exact ⟨rfl, rfl⟩
      | passed => exact ih _
      | overlooked => exact ih _
      | aborted => exact ⟨rfl, rfl⟩

/-- **The run.**  A scan that hands operands out finds what the one finds that passes them over,
and the operands. -/
theorem reads_of_follows {argv argv' : List (List Char)} {g g' : Getopt}
    (hreads : Reads env poptions argv' g' rs') (h : g.Follows argv argv' g') :
    ∃ rs, Reads env poptions argv g rs ∧ AndOperands rs rs' := by
  induction hreads generalizing argv g with
  | @finished argv' g' hfound' =>
      cases h.step env.posixlyCorrect (createGetOptLongOptString poptions)
        (val_createGetOptLongStructOptions poptions) with
      | operand hfinding hafter =>
          rw [hfound'] at hfinding
          cases hfinding
      | finished hfinding hfinding' => exact ⟨[], .finished hfinding, .nil⟩
      | found hfinding hmore halike => exact absurd (hfinding.symm.trans hfound') hmore
  | @next argv' g' f rs' after hfound' hf hafter rest ih =>
      subst hafter
      cases h.step env.posixlyCorrect (createGetOptLongOptString poptions)
        (val_createGetOptLongStructOptions poptions) with
      | operand hfinding hafter =>
          obtain rfl := hfound'.symm.trans hfinding
          obtain ⟨rs, hreads, hand⟩ := ih hafter
          exact ⟨rs, hreads, .operand _ _ hand⟩
      | finished hfinding hfinding' => exact absurd (hfound'.symm.trans hfinding') hf
      | found hfinding hmore halike =>
          have hafter := h.found (val_createGetOptLongStructOptions poptions) hfinding hmore halike
          obtain ⟨rs, hreads, hand⟩ := ih hafter
          rw [hfound'] at hfinding
          refine ⟨_, .next hfinding.symm hf rfl hreads, .found ⟨rfl, ?_, ?_, ?_⟩ hand⟩
          · exact halike.length
          · exact halike.optind
          · exact halike.optarg

end

/-! ## Where a command line begins -/

section

variable {env : Env} {poptions : List ProgramOption} {vars : Getopt} {argv : List (List Char)}
  {rs : List Reading}

/-- The variables as the first call of `getopt` works on them -/
def begun (env : Env) (poptions : List ProgramOption) (vars : Getopt) : Getopt :=
  beginCall env.posixlyCorrect (createGetOptLongOptString poptions) { vars with optind := 1 }

theorem begun_of_initialized (env : Env) (poptions : List ProgramOption)
    (hinit : vars.initialized = true) :
    begun env poptions vars = { vars with optind := 1, optarg := none } :=
  beginCall_of_initialized _ _ hinit (Nat.le_refl 1)

theorem begun_of_not_initialized (env : Env) (poptions : List ProgramOption)
    (hinit : vars.initialized = false) :
    begun env poptions vars = begun env poptions {} := by
  unfold begun beginCall
  rw [hinit]
  rfl

/-- They are those of a scan that has begun. -/
theorem begun_kept (env : Env) (poptions : List ProgramOption) (h : vars.Kept) :
    (begun env poptions vars).Kept ∧
      (begun env poptions vars).initialized = true ∧ (begun env poptions vars).optind = 1 ∧
        (begun env poptions vars).optarg = none := by
  cases hinit : vars.initialized with
  | true =>
      rw [begun_of_initialized env poptions hinit]
      refine ⟨⟨⟨Nat.le_refl 1, h.firstNonopt, h.lastNonopt⟩, h.nonopts, h.fresh⟩, hinit, rfl, rfl⟩
  | false =>
      rw [begun_of_not_initialized env poptions hinit]
      refine ⟨⟨⟨Nat.le_refl 1, fun _ => Nat.le_refl 1, fun _ => Nat.le_refl 1⟩,
        fun _ => Nat.le_refl 1, fun _ => rfl⟩, rfl, rfl, rfl⟩

/-- What is read depends on them alone. -/
theorem reads_begun (h : vars.Kept)
    (hreads : Reads env poptions argv (begun env poptions vars) rs) :
    Reads env poptions argv { vars with optind := 1 } rs := by
  obtain ⟨-, hinit, hoptind, hoptarg⟩ := begun_kept env poptions h
  have hagain : beginCall env.posixlyCorrect (createGetOptLongOptString poptions)
      (begun env poptions vars) = begun env poptions vars := by
    rw [beginCall_of_initialized _ _ hinit hoptind.ge, ← hoptarg]
  have hcall : getoptLongOnly env.posixlyCorrect argv (createGetOptLongOptString poptions)
      (createGetOptLongStructOptions poptions) (begun env poptions vars) =
        getoptLongOnly env.posixlyCorrect argv (createGetOptLongOptString poptions)
          (createGetOptLongStructOptions poptions) { vars with optind := 1 } := by
    unfold getoptLongOnly
    rw [hagain]
    rfl
  have hfinding : getoptFinding env.posixlyCorrect argv (createGetOptLongOptString poptions)
      (createGetOptLongStructOptions poptions) (begun env poptions vars) =
        getoptFinding env.posixlyCorrect argv (createGetOptLongOptString poptions)
          (createGetOptLongStructOptions poptions) { vars with optind := 1 } := by
    unfold getoptFinding
    rw [hagain]
    rfl
  cases hreads with
  | finished h => exact .finished (hfinding.symm.trans h)
  | next h hf hafter rest => exact .next (hfinding.symm.trans h) hf (hcall.symm.trans hafter) rest

/-- One scan passes over the operands that the other hands out. -/
theorem follows_begun {vars' : Getopt} {programName : List Char} {args : List (List Char)}
    (h : vars.Kept) (h' : vars'.Kept) (hnext : (begun env poptions vars).nextchar = [])
    (hnext' : (begun env poptions vars').nextchar = [])
    (horder : (begun env poptions vars).order = .permute)
    (horder' : (begun env poptions vars').order = .returnInOrder) :
    (begun env poptions vars).Follows (programName :: args) (programName :: args)
      (begun env poptions vars') := by
  obtain ⟨hkept, hinit, hoptind, -⟩ := begun_kept env poptions h
  obtain ⟨hkept', hinit', hoptind', -⟩ := begun_kept env poptions h'
  have hargc : 1 ≤ (programName :: args).length := Nat.le_add_left 1 _
  refine ⟨rfl, ⟨hkept, hoptind.trans_le hargc, fun hne => absurd hnext hne⟩,
    ⟨hkept', hoptind'.trans_le hargc, fun hne => absurd hnext' hne⟩, hinit, hinit', horder,
    horder', Or.inr ⟨hnext, hnext', ?_⟩⟩
  rw [hoptind, hoptind']

end

/-! ## What has been kept and does not matter -/

section

variable {env : Env} {vars : Getopt} {impl : Impl} {ignoreUnknownOptions : Bool}
  {programName : List Char} {args : List (List Char)} {rs rs' : List Reading}

theorem parse_reads (vars : Getopt) (h : Accepted impl.poptions) (ignoreUnknownOptions : Bool)
    (hreads : Reads env impl.poptions (programName :: args) { vars with optind := 1 } rs)
    {fuel : ℕ} (hfuel : rs.length < fuel) :
    (parse env fuel vars impl (programName :: args) ignoreUnknownOptions).outcome =
        some (ended (lastVerdict env.ndebug impl.poptions ignoreUnknownOptions rs)) ∧
      (parse env fuel vars impl (programName :: args) ignoreUnknownOptions).impl.results =
        entriesAfter env impl.poptions ignoreUnknownOptions rs
          (initWithDefaultValues impl.poptions) :=
  parseLoop_reads h.optionTable hreads hfuel

theorem SameParse.of_results {r r' : Parsed} (houtcome : r.outcome = r'.outcome)
    (hresults : ∀ n ≠ [], r.impl.results n = r'.impl.results n) : SameParse r r' :=
  ⟨houtcome, fun n => hasOption_congr (hresults n), fun n => rawOptionValue_congr (hresults n)⟩

/-- Readings that come to the same -/
theorem asFirst_of_reads (h : Accepted impl.poptions)
    (hreads : Reads env impl.poptions (programName :: args) { vars with optind := 1 } rs)
    (hreads' : Reads env impl.poptions (programName :: args) {} rs')
    (hends : lastVerdict env.ndebug impl.poptions ignoreUnknownOptions rs =
        lastVerdict env.ndebug impl.poptions ignoreUnknownOptions rs' ∧
      entriesAfter env impl.poptions ignoreUnknownOptions rs
          (initWithDefaultValues impl.poptions) =
        entriesAfter env impl.poptions ignoreUnknownOptions rs'
          (initWithDefaultValues impl.poptions)) :
    AsFirst env vars impl (programName :: args) ignoreUnknownOptions := by
  refine ⟨rs.length + rs'.length + 1, fun fuel hfuel => ?_⟩
  have hfuel' : rs.length < fuel ∧ rs'.length < fuel := by omega
  obtain ⟨houtcome, hresults⟩ := parse_reads vars h ignoreUnknownOptions hreads hfuel'.1
  obtain ⟨houtcome', hresults'⟩ :=
    @parse_reads _ (unparsed impl) _ _ _ {} h ignoreUnknownOptions hreads' _ hfuel'.2
  refine ⟨?_, SameParse.of_results ?_ fun n _ => ?_⟩
  · rw [houtcome]
    exact Option.some_ne_none _
  · rw [houtcome, houtcome', hends.1]
    rfl
  · rw [hresults, hresults', hends.2]
    rfl

/-- The first calls of `getopt` are the same. -/
theorem asFirst_of_settled (h : Accepted impl.poptions) (hkept : vars.Kept)
    (hsettled : Settled env impl.poptions vars) :
    AsFirst env vars impl (programName :: args) ignoreUnknownOptions := by
  obtain ⟨rs, hreads⟩ := exists_reads_kept env impl.poptions programName args Getopt.kept_start rfl
    rfl
  refine ⟨rs.length + 1, fun fuel hfuel => ?_⟩
  obtain ⟨houtcome, hresults⟩ := parse_settled hkept.toPlaced hsettled fuel programName args
    ignoreUnknownOptions
  refine ⟨?_, SameParse.of_results houtcome fun n _ => congrFun hresults n⟩
  rw [houtcome, (@parse_reads _ (unparsed impl) _ _ _ {} h _ hreads _ hfuel).1]
  exact Option.some_ne_none _

theorem other_order {order order' : ArgOrder} (hne : order ≠ order') (h : order ≠ .requireOrder)
    (h' : order' ≠ .requireOrder) : order = .permute ∧ order' = .returnInOrder ∨
      order = .returnInOrder ∧ order' = .permute := by
  cases order <;> cases order' <;> simp_all

/-- Without assertions, operands that are handed out are passed over all the same. -/
theorem asFirst_of_operands (h : Accepted impl.poptions) (hkept : vars.Kept)
    (hinit : vars.initialized = true) (hnext : vars.nextchar = []) (hndebug : env.ndebug = true)
    (hne : vars.order ≠ askedOrder env impl.poptions) (horder : vars.order ≠ .requireOrder)
    (horder' : askedOrder env impl.poptions ≠ .requireOrder) :
    AsFirst env vars impl (programName :: args) ignoreUnknownOptions := by
  have hbegun := begun_of_initialized env impl.poptions hinit
  have hnextchar : (begun env impl.poptions vars).nextchar = [] := by
    rw [hbegun]
    exact hnext
  have hasked : (begun env impl.poptions {}).order = askedOrder env impl.poptions := rfl
  have hread : ∀ {vars' : Getopt}, vars'.Kept → (begun env impl.poptions vars').nextchar = [] →
      ∃ rs, Reads env impl.poptions (programName :: args) (begun env impl.poptions vars') rs := by
    intro vars' hkept' hnextchar'
    obtain ⟨hkept', -, hoptind, -⟩ := begun_kept env impl.poptions hkept'
    exact exists_reads_kept env impl.poptions programName args hkept' hoptind hnextchar'
  rcases other_order hne horder horder' with ⟨hpermute, hreturn⟩ | ⟨hreturn, hpermute⟩
  · obtain ⟨rs', hreads'⟩ := hread Getopt.kept_start rfl
    obtain ⟨rs, hreads, hand⟩ := reads_of_follows hreads' (follows_begun hkept Getopt.kept_start
      hnextchar rfl (by rw [hbegun]; exact hpermute) (hasked.trans hreturn))
    obtain ⟨hverdict, hentries⟩ := hand.ends hndebug (initWithDefaultValues impl.poptions)
    exact asFirst_of_reads h (reads_begun hkept hreads) (reads_begun Getopt.kept_start hreads')
      ⟨hverdict.symm, hentries.symm⟩
  · obtain ⟨rs, hreads⟩ := hread hkept hnextchar
    obtain ⟨rs', hreads', hand⟩ := reads_of_follows hreads (follows_begun Getopt.kept_start hkept
      rfl hnextchar (hasked.trans hpermute) (by rw [hbegun]; exact hreturn))
    exact asFirst_of_reads h (reads_begun hkept hreads) (reads_begun Getopt.kept_start hreads')
      (hand.ends hndebug _)

theorem Unaffected.asFirst (h : Accepted impl.poptions) (hkept : vars.Kept)
    (hun : Unaffected env impl.poptions vars) :
    AsFirst env vars impl (programName :: args) ignoreUnknownOptions := by
  by_cases hsettled : vars.initialized = true → vars.order = askedOrder env impl.poptions
  · exact asFirst_of_settled h hkept ⟨hun.nextchar, hsettled⟩
  · obtain ⟨hinit, hne⟩ := Classical.not_imp.mp hsettled
    obtain ⟨hndebug, horder, horder'⟩ := (hun.order hinit).resolve_left hne
    exact asFirst_of_operands h hkept hinit (hun.nextchar hinit) hndebug hne horder horder'

end

/-! ## What has been kept and matters -/

/-- The name of no option -/
def strayName : List Char := [Char.ofNat 2]

/-- `--` and that -/
def stray : List Char := '-' :: '-' :: strayName

/-- The end of the options, and more such words than what is half read can take -/
def strays : List (List Char) := ["--".toList, stray, stray, stray]

section

variable {env : Env} {poptions : List ProgramOption} {argv rest : List (List Char)} {g : Getopt}
  {rs : List Reading}

theorem matchLong_stray (h : WellNamed poptions) :
    matchLong true (createGetOptLongStructOptions poptions) strayName = .unknown := by
  have hnames : ∀ p ∈ createGetOptLongStructOptions poptions, Char.ofNat 2 ∉ p.name := by
    intro p hp hmem
    obtain ⟨o, ho, rfl⟩ := List.mem_map.mp hp
    have hvalid := h.valid o ho
    rw [isValidArgumentName, Bool.and_eq_true, List.all_eq_true] at hvalid
    have hprint := hvalid.2 _ ((List.takeWhile_sublist _).subset hmem)
    exact absurd hprint (by decide)
  unfold matchLong
  rw [List.find?_eq_none.mpr, List.filter_eq_nil_iff.mpr]
  · intro x hx hprefix
    have hmem : x.1 ∈ createGetOptLongStructOptions poptions := List.fst_mem_of_mem_zipIdx hx
    exact hnames _ hmem ((List.isPrefixOf_iff_prefix.mp hprefix).subset (List.mem_singleton_self _))
  · intro x hx hname
    have hmem : x.1 ∈ createGetOptLongStructOptions poptions := List.fst_mem_of_mem_zipIdx hx
    apply hnames _ hmem
    rw [of_decide_eq_true hname]
    exact List.mem_singleton_self _

/-- Where the next option is that one, it is found that there is none. -/
theorem finding_stray (h : WellNamed poptions) (hfits : g.Fits argv.length)
    (hinit : g.initialized = true) (hnext : g.nextchar = [])
    (hahead : g.order.ahead (argv.drop g.optind) = stray :: rest) :
    getoptFinding env.posixlyCorrect argv (createGetOptLongOptString poptions)
      (createGetOptLongStructOptions poptions) g = .unknown := by
  have hbetween := hfits.between hinit hnext
  obtain ⟨hsettled, -⟩ := settle_between hbetween
  rw [show Getopt.order { g with optarg := none } = g.order from rfl, hahead] at hsettled
  rw [(getoptLongOnly_of_initialized _ _ _ _ hinit hfits.optind).2, if_pos hnext,
    (nextElement_settled _ _ hbetween hahead rfl (by decide)).2]
  have hlong : Finding.processLongOption (settle argv { g with optarg := none }).1
      (optionChars (createGetOptLongOptString poptions)) (createGetOptLongStructOptions poptions)
      true { (settle argv { g with optarg := none }).2 with nextchar := strayName } =
        some .unknown := by
    unfold Finding.processLongOption
    dsimp only
    rw [show strayName.takeWhile (· ≠ '=') = strayName from rfl, matchLong_stray h,
      hsettled.getD]
    exact if_pos (Or.inr (Or.inl rfl))
  unfold Finding.optionElement
  dsimp only
  rw [hsettled.getD, if_pos (show stray.getD 1 nul = '-' from rfl),
    show stray.drop 2 = strayName from rfl, hlong]
  rfl

/-- What is found first is in the readings. -/
theorem reads_of_found {f : Finding} (hreads : Reads env poptions argv g rs)
    (hfound : getoptFinding env.posixlyCorrect argv (createGetOptLongOptString poptions)
      (createGetOptLongStructOptions poptions) g = f) (hf : f ≠ .finished) :
    ∃ r rs', rs = r :: rs' ∧ r.finding = f ∧
      let after := getoptLongOnly env.posixlyCorrect argv (createGetOptLongOptString poptions)
        (createGetOptLongStructOptions poptions) g
      Reads env poptions after.1 after.2.vars rs' := by
  cases hreads with
  | finished h => exact absurd (hfound.symm.trans h) hf
  | next h _ hafter rest =>
      subst hafter
      exact ⟨_, _, rfl, h.symm.trans hfound, rest⟩

theorem reads_of_finished (hreads : Reads env poptions argv g rs)
    (hfound : getoptFinding env.posixlyCorrect argv (createGetOptLongOptString poptions)
      (createGetOptLongStructOptions poptions) g = .finished) : rs = [] := by
  cases hreads with
  | finished _ => rfl
  | next h hf _ _ => exact absurd (h.symm.trans hfound) hf

/-- Something is refused, or handed out. -/
theorem ended_ne_ok {ndebug ignoreUnknownOptions : Bool} {r : Reading} (hr : r ∈ rs)
    (hverdict : verdict ndebug poptions ignoreUnknownOptions r = .refused ∨
      verdict ndebug poptions ignoreUnknownOptions r = .aborted) :
    ended (lastVerdict ndebug poptions ignoreUnknownOptions rs) ≠ .ok ⟨⟩ := by
  unfold lastVerdict
  cases hfind : (rs.map (verdict ndebug poptions ignoreUnknownOptions)).find? fun v =>
      v = .refused ∨ v = .aborted with
  | none =>
      exact absurd (decide_eq_true hverdict)
        (List.find?_eq_none.mp hfind _ (List.mem_map_of_mem hr))
  | some v =>
      have hlast := List.find?_some hfind
      rw [decide_eq_true_eq] at hlast
      rcases hlast with rfl | rfl
      · exact nofun
      · exact nofun

/-- It is read as soon as no word is half read. -/
theorem unknown_of_stray (h : WellNamed poptions) (hfits : g.Fits argv.length)
    (hinit : g.initialized = true) (hnext : g.nextchar = [])
    (hrest : argv.drop g.optind = stray :: rest) (hreads : Reads env poptions argv g rs) :
    ∃ r ∈ rs, r.finding = .unknown := by
  have hahead : g.order.ahead (argv.drop g.optind) = stray :: rest := by
    rw [hrest]
    unfold ArgOrder.ahead
    split <;> rfl
  obtain ⟨r, rs', rfl, hfinding, -⟩ :=
    reads_of_found hreads (finding_stray h hfits hinit hnext hahead) nofun
  exact ⟨r, List.mem_cons_self, hfinding⟩

/-- **What is half read matters.**  When it has been read to its end, a word is left that is no
option. -/
theorem unknown_of_halfRead (h : WellNamed poptions) (programName : List Char)
    (hfits : g.Fits (programName :: strays).length) (hinit : g.initialized = true)
    (hoptind : g.optind = 1) (hnext : g.nextchar ≠ [])
    (hreads : Reads env poptions (programName :: strays) g rs) :
    ∃ r ∈ rs, r.finding = .unknown := by
  induction hlength : g.nextchar.length using Nat.strong_induction_on generalizing g rs with
  | _ n ih =>
      subst hlength
      have hval := val_createGetOptLongStructOptions poptions
      obtain ⟨hcall, hfinding⟩ := getoptLongOnly_of_initialized env.posixlyCorrect
        (programName :: strays) (createGetOptLongOptString poptions)
        (createGetOptLongStructOptions poptions) hinit hfits.optind
      rw [if_neg hnext] at hcall hfinding
      have hmore := (processShortOption_reads (programName :: strays)
        (optionChars (createGetOptLongOptString poptions)) { g with optarg := none }
        fun p hp => (hval p hp).ge).ne_finished (Finding.processShortOption_answers _ _ _ hval)
      rw [← hfinding] at hmore
      obtain ⟨r, rs', rfl, -, hrest⟩ := reads_of_found hreads rfl hmore
      obtain ⟨-, hfits', hinit', -⟩ := getoptLongOnly_found env.posixlyCorrect
        (createGetOptLongOptString poptions) hval hfits hinit hmore
      have hwithin : Getopt.Within (programName :: strays).length { g with optarg := none } :=
        ⟨hfits.within.optind, hfits.within.nextchar⟩
      have hmoves := (processShortOption_advances (optionChars (createGetOptLongOptString poptions))
        (createGetOptLongStructOptions poptions) hwithin hnext).moves
      obtain ⟨hle, hstays⟩ := processShortOption_optind_le
        (optionChars (createGetOptLongOptString poptions))
        (createGetOptLongStructOptions poptions) hwithin hnext
      rw [hcall] at hrest hfits' hinit'
      generalize processShortOption (programName :: strays)
        (optionChars (createGetOptLongOptString poptions)) (createGetOptLongStructOptions poptions)
        { g with optarg := none } = a at hrest hfits' hinit' hmoves hle hstays
      have hfound : ∃ r ∈ rs', r.finding = .unknown := by
        by_cases hmid : a.vars.nextchar = []
        · have hlo : 1 < a.vars.optind := by
            rcases hmoves with hlt | ⟨-, hne, -⟩
            · exact hoptind.symm.trans_lt hlt
            · exact absurd hmid hne
          have hhi : a.vars.optind ≤ 4 := by
            dsimp only at hle
            rwa [hoptind] at hle
          have hdrop : ∃ rest, (programName :: strays).drop a.vars.optind = stray :: rest := by
            rcases (by omega : a.vars.optind = 2 ∨ a.vars.optind = 3 ∨ a.vars.optind = 4) with
              heq | heq | heq <;> rw [heq] <;> exact ⟨_, rfl⟩
          obtain ⟨rest, hdrop⟩ := hdrop
          exact unknown_of_stray h hfits' hinit' hmid hdrop hrest
        · have hsame : a.vars.optind = g.optind := hstays hmid
          refine ih _ ?_ hfits' hinit' (hsame.trans hoptind) hmid hrest rfl
          rcases hmoves with hlt | ⟨-, -, hnil | hless⟩
          · exact absurd hsame (Nat.ne_of_gt hlt)
          · exact absurd hnil hnext
          · exact hless
      obtain ⟨r', hr', hunknown⟩ := hfound
      exact ⟨r', List.mem_cons_of_mem _ hr', hunknown⟩

/-- The next operand, in the order that hands it out -/
theorem reads_operand (hfits : g.Fits argv.length) (hinit : g.initialized = true)
    (hnext : g.nextchar = []) (horder : g.order = .returnInOrder)
    (hrest : argv.drop g.optind = "x".toList :: rest) (hreads : Reads env poptions argv g rs) :
    ∃ r rs' argv' g', rs = r :: rs' ∧ r.finding = .operand ∧ g'.Fits argv'.length ∧
      g'.initialized = true ∧ g'.nextchar = [] ∧ argv'.drop g'.optind = rest ∧
        Reads env poptions argv' g' rs' := by
  obtain ⟨hoperand, -, hfits', hinit', -, hnext', hrest'⟩ := getoptLongOnly_operand
    env.posixlyCorrect (createGetOptLongOptString poptions)
    (val_createGetOptLongStructOptions poptions) hfits hinit hnext horder hrest rfl
  obtain ⟨r, rs', rfl, hr, hreads'⟩ := reads_of_found hreads hoperand nofun
  exact ⟨r, rs', _, _, rfl, hr, hfits', hinit', hnext', hrest', hreads'⟩

/-- The end of the options where no word is half read -/
theorem reads_end (hfits : g.Fits argv.length) (hinit : g.initialized = true)
    (hnext : g.nextchar = []) (hend : ∀ w ∈ (g.order.ahead (argv.drop g.optind)).head?,
      w = ['-', '-'] ∨ g.order = .requireOrder ∧ isNonoption w = true)
    (hreads : Reads env poptions argv g rs) : rs = [] := by
  refine reads_of_finished hreads ?_
  rw [(getoptLongOnly_of_initialized _ _ _ _ hinit hfits.optind).2, if_pos hnext]
  exact Finding.nextElement_end _ (val_createGetOptLongStructOptions poptions)
    (hfits.between hinit hnext) hend

/-- Only in the order that stops at operands nothing is read behind one. -/
theorem reads_behind_operand (h : WellNamed poptions) (hfits : g.Fits argv.length)
    (hinit : g.initialized = true) (hnext : g.nextchar = [])
    (hrest : argv.drop g.optind = ["x".toList, stray]) (hreads : Reads env poptions argv g rs) :
    (g.order = .requireOrder → rs = []) ∧
      (g.order ≠ .requireOrder → ∃ r ∈ rs, r.finding = .unknown) := by
  constructor
  · intro horder
    refine reads_end hfits hinit hnext ?_ hreads
    rw [hrest, horder]
    rintro w ⟨rfl⟩
    exact Or.inr ⟨rfl, rfl⟩
  · intro hne
    cases horder : g.order with
    | requireOrder => exact absurd horder hne
    | permute =>
        have hahead : g.order.ahead (argv.drop g.optind) = [stray] := by
          rw [hrest, horder]
          rfl
        obtain ⟨r, rs', rfl, hfinding, -⟩ :=
          reads_of_found hreads (finding_stray h hfits hinit hnext hahead) nofun
        exact ⟨r, List.mem_cons_self, hfinding⟩
    | returnInOrder =>
        obtain ⟨r, rs', argv', g', rfl, -, hfits', hinit', hnext', hrest', hreads'⟩ :=
          reads_operand hfits hinit hnext horder hrest hreads
        obtain ⟨r', hr', hunknown⟩ := unknown_of_stray h hfits' hinit' hnext' hrest' hreads'
        exact ⟨r', List.mem_cons_of_mem _ hr', hunknown⟩

/-- Only in the order that hands operands out one is found. -/
theorem reads_of_operand (hfits : g.Fits argv.length) (hinit : g.initialized = true)
    (hnext : g.nextchar = []) (hrest : argv.drop g.optind = ["x".toList])
    (hreads : Reads env poptions argv g rs) :
    (g.order = .returnInOrder → ∃ r ∈ rs, r.finding = .operand) ∧
      (g.order ≠ .returnInOrder → rs = []) := by
  constructor
  · intro horder
    obtain ⟨r, rs', argv', g', rfl, hoperand, -⟩ :=
      reads_operand hfits hinit hnext horder hrest hreads
    exact ⟨r, List.mem_cons_self, hoperand⟩
  · intro hne
    refine reads_end hfits hinit hnext ?_ hreads
    rw [hrest]
    cases horder : g.order with
    | requireOrder =>
        rintro w ⟨rfl⟩
        exact Or.inr ⟨rfl, rfl⟩
    | permute => exact nofun
    | returnInOrder => exact absurd horder hne

end

section

variable {env : Env} {poptions : List ProgramOption} {vars : Getopt} {impl : Impl}
  {ignoreUnknownOptions : Bool} {programName : List Char} {args : List (List Char)}
  {rs rs' : List Reading}

theorem begun_fits (env : Env) (poptions : List ProgramOption) {argc : ℕ} (h : vars.Kept)
    (hargc : 1 < argc) : (begun env poptions vars).Fits argc := by
  obtain ⟨hkept, -, hoptind, -⟩ := begun_kept env poptions h
  exact ⟨hkept, hoptind.trans_le (Nat.le_of_lt hargc), fun _ => hoptind.trans_lt hargc⟩

/-- A command line is read to its end, whatever is half read. -/
theorem exists_reads_begun (env : Env) (poptions : List ProgramOption) (h : vars.Kept)
    (programName arg : List Char) (args : List (List Char)) :
    ∃ rs, Reads env poptions (programName :: arg :: args) (begun env poptions vars) rs :=
  exists_reads env poptions _ _ rfl (begun_fits env poptions h (Nat.le_add_left 2 _))

/-- Parses that come to the same find the same. -/
theorem AsFirst.ended (h : Accepted impl.poptions)
    (hsame : AsFirst env vars impl (programName :: args) ignoreUnknownOptions)
    (hkept : vars.Kept)
    (hreads : Reads env impl.poptions (programName :: args) (begun env impl.poptions vars) rs)
    (hreads' : Reads env impl.poptions (programName :: args) (begun env impl.poptions {}) rs') :
    ended (lastVerdict env.ndebug impl.poptions ignoreUnknownOptions rs) =
      ended (lastVerdict env.ndebug impl.poptions ignoreUnknownOptions rs') := by
  obtain ⟨enough, hsame⟩ := hsame
  obtain ⟨-, houtcome, -, -⟩ := hsame (enough + rs.length + rs'.length + 1) (by omega)
  have hfuel : rs.length < enough + rs.length + rs'.length + 1 ∧
      rs'.length < enough + rs.length + rs'.length + 1 := by omega
  rw [(parse_reads vars h ignoreUnknownOptions (reads_begun hkept hreads) hfuel.1).1,
    (@parse_reads _ (unparsed impl) _ _ _ {} h ignoreUnknownOptions
      (reads_begun Getopt.kept_start hreads') _ hfuel.2).1] at houtcome
  exact Option.some.inj houtcome

/-- An unknown option is refused. -/
theorem ended_of_unknown (ndebug : Bool) (poptions : List ProgramOption)
    (h : ∃ r ∈ rs, r.finding = .unknown) :
    ended (lastVerdict ndebug poptions false rs) ≠ .ok ⟨⟩ := by
  obtain ⟨r, hr, hunknown⟩ := h
  refine ended_ne_ok hr (Or.inl ?_)
  rw [verdict, hunknown]
  rfl

/-- What is half read is read first. -/
theorem nextchar_of_asFirst (h : Accepted impl.poptions) (hkept : vars.Kept)
    (hinit : vars.initialized = true)
    (hsame : AsFirst env vars impl (programName :: strays) false) : vars.nextchar = [] := by
  by_contra hnext
  have hbegun := begun_of_initialized env impl.poptions hinit
  obtain ⟨-, hinit', hoptind, -⟩ := begun_kept env impl.poptions hkept
  have hnext' : (begun env impl.poptions vars).nextchar ≠ [] := by
    rw [hbegun]
    exact hnext
  have hfits : (begun env impl.poptions vars).Fits (programName :: strays).length :=
    begun_fits env impl.poptions hkept (Nat.le_add_left 2 _)
  have hfits' : (begun env impl.poptions {}).Fits (programName :: strays).length :=
    begun_fits env impl.poptions Getopt.kept_start (Nat.le_add_left 2 _)
  obtain ⟨rs, hreads⟩ := exists_reads_begun env impl.poptions hkept programName "--".toList
    [stray, stray, stray]
  obtain ⟨rs', hreads'⟩ := exists_reads_begun env impl.poptions Getopt.kept_start programName
    "--".toList [stray, stray, stray]
  have hunknown := unknown_of_halfRead h.wellNamed programName hfits hinit' hoptind hnext' hreads
  -- a first parse reads the end of the options
  obtain rfl : rs' = [] := by
    refine reads_end hfits' rfl rfl ?_ hreads'
    intro w hw
    left
    unfold ArgOrder.ahead at hw
    split at hw
    · exact (Option.some.inj hw).symm
    · exact (Option.some.inj hw).symm
  apply ended_of_unknown env.ndebug impl.poptions hunknown
  rw [hsame.ended h hkept hreads hreads']
  rfl

/-- What comes to its end behind an operand shows the order. -/
theorem ended_behind_operand (h : Accepted poptions) (hkept : vars.Kept)
    (hnext : (begun env poptions vars).nextchar = [])
    (hreads : Reads env poptions [programName, "x".toList, stray] (begun env poptions vars) rs) :
    ended (lastVerdict env.ndebug poptions false rs) = .ok ⟨⟩ ↔
      (begun env poptions vars).order = .requireOrder := by
  obtain ⟨-, hinit, hoptind, -⟩ := begun_kept env poptions hkept
  have hfits : (begun env poptions vars).Fits [programName, "x".toList, stray].length :=
    begun_fits env poptions hkept (Nat.le_add_left 2 1)
  have hrest : [programName, "x".toList, stray].drop (begun env poptions vars).optind =
      ["x".toList, stray] := by
    rw [hoptind]
    rfl
  obtain ⟨hstops, hgoes⟩ := reads_behind_operand h.wellNamed hfits hinit hnext hrest hreads
  constructor
  · intro hok
    by_contra horder
    exact ended_of_unknown env.ndebug poptions (hgoes horder) hok
  · intro horder
    rw [hstops horder]
    rfl

theorem ended_operand (hndebug : env.ndebug = false) (hkept : vars.Kept)
    (hnext : (begun env poptions vars).nextchar = [])
    (hreads : Reads env poptions [programName, "x".toList] (begun env poptions vars) rs) :
    ended (lastVerdict env.ndebug poptions false rs) = .ok ⟨⟩ ↔
      (begun env poptions vars).order ≠ .returnInOrder := by
  obtain ⟨-, hinit, hoptind, -⟩ := begun_kept env poptions hkept
  have hfits : (begun env poptions vars).Fits [programName, "x".toList].length :=
    begun_fits env poptions hkept (Nat.le_refl 2)
  have hrest : [programName, "x".toList].drop (begun env poptions vars).optind =
      ["x".toList] := by
    rw [hoptind]
    rfl
  obtain ⟨hhands, hpasses⟩ := reads_of_operand hfits hinit hnext hrest hreads
  constructor
  · intro hok horder
    obtain ⟨r, hr, hoperand⟩ := hhands horder
    refine ended_ne_ok hr (Or.inr ?_) hok
    rw [verdict, hoperand, hndebug]
    rfl
  · intro horder
    rw [hpasses horder]
    rfl

/-- The order shows where operands are. -/
theorem order_of_asFirst (h : Accepted impl.poptions) (hkept : vars.Kept)
    (hinit : vars.initialized = true) (hnext : vars.nextchar = [])
    (hsame : ∀ args, AsFirst env vars impl (programName :: args) false) :
    SameOrder env vars.order (askedOrder env impl.poptions) := by
  have hbegun := begun_of_initialized env impl.poptions hinit
  have hnext' : (begun env impl.poptions vars).nextchar = [] := by
    rw [hbegun]
    exact hnext
  have horder : (begun env impl.poptions vars).order = vars.order := by
    rw [hbegun]
  have hends : ∀ arg args, ∃ rs rs',
      Reads env impl.poptions (programName :: arg :: args) (begun env impl.poptions vars) rs ∧
      Reads env impl.poptions (programName :: arg :: args) (begun env impl.poptions {}) rs' ∧
      ended (lastVerdict env.ndebug impl.poptions false rs) =
        ended (lastVerdict env.ndebug impl.poptions false rs') := by
    intro arg args
    obtain ⟨rs, hreads⟩ := exists_reads_begun env impl.poptions hkept programName arg args
    obtain ⟨rs', hreads'⟩ :=
      exists_reads_begun env impl.poptions Getopt.kept_start programName arg args
    exact ⟨rs, rs', hreads, hreads', (hsame _).ended h hkept hreads hreads'⟩
  have hrequire : vars.order = .requireOrder ↔ askedOrder env impl.poptions = .requireOrder := by
    obtain ⟨rs, rs', hreads, hreads', hended⟩ := hends "x".toList [stray]
    rw [← horder, ← ended_behind_operand h hkept hnext' hreads, hended]
    exact ended_behind_operand h Getopt.kept_start rfl hreads'
  by_cases hndebug : env.ndebug = true
  · by_cases hboth : vars.order = .requireOrder
    · exact Or.inl (hboth.trans (hrequire.mp hboth).symm)
    · exact Or.inr ⟨hndebug, hboth, mt hrequire.mpr hboth⟩
  · rw [Bool.not_eq_true] at hndebug
    have hreturn : vars.order ≠ .returnInOrder ↔
        askedOrder env impl.poptions ≠ .returnInOrder := by
      obtain ⟨rs, rs', hreads, hreads', hended⟩ := hends "x".toList []
      rw [← horder, ← ended_operand hndebug hkept hnext' hreads, hended]
      exact ended_operand hndebug Getopt.kept_start rfl hreads'
    left
    revert hrequire hreturn
    cases vars.order <;> cases askedOrder env impl.poptions <;> simp

/-- An empty command line is refused at once. -/
theorem asFirst_nil : AsFirst env vars impl [] ignoreUnknownOptions ↔
    ∀ n ≠ [], impl.results n = none := by
  constructor
  · rintro ⟨enough, hsame⟩ n hn
    have hanswer := (hsame enough (Nat.le_refl _)).2.hasOption n
    have hkept : hasOption impl n = .ok (impl.results n).isSome := if_neg hn
    have hnone : hasOption (unparsed impl) n = .ok false := if_neg hn
    have hboth : hasOption impl n = hasOption (unparsed impl) n := hanswer
    rw [hkept, hnone] at hboth
    exact Option.not_isSome_iff_eq_none.mp (ne_true_of_eq_false (Except.ok.inj hboth))
  · intro hnone
    exact ⟨0, fun _ _ => ⟨Option.some_ne_none _, SameParse.of_results rfl hnone⟩⟩

/-- **A parse after others.**  All command lines are read as by the first parse of the process, if
and only if no argument is left half read and the order of the elements is the one that the
options ask for.  An empty command line is, if the object has no entries. -/
theorem parse_as_first_iff (h : Accepted impl.poptions) (hreached : Reached vars) (env : Env) :
    ((∀ argv ≠ [], ∀ ignoreUnknownOptions, AsFirst env vars impl argv ignoreUnknownOptions) ↔
        Unaffected env impl.poptions vars) ∧
      ∀ ignoreUnknownOptions, AsFirst env vars impl [] ignoreUnknownOptions ↔
        ∀ n ≠ [], impl.results n = none := by
  refine ⟨⟨fun hsame => ?_, fun hun argv hargv ignoreUnknownOptions => ?_⟩, fun _ => asFirst_nil⟩
  · have hnext : vars.initialized = true → vars.nextchar = [] := fun hinit =>
      nextchar_of_asFirst h hreached.kept hinit (hsame ([] :: strays) (List.cons_ne_nil _ _) false)
    refine ⟨hnext, fun hinit => ?_⟩
    exact order_of_asFirst h hreached.kept hinit (hnext hinit)
      fun args => hsame ([] :: args) (List.cons_ne_nil _ _) false
  · cases argv with
    | nil => exact absurd rfl hargv
    | cons programName args => exact hun.asFirst h hreached.kept

/-- A table with one option, `--alpha` or `-a`. -/
def alphaOption : Impl :=
  { poptions := [{ name := "alpha".toList, shortOption := 'a' }], results := fun _ => none,
    programName := [] }

theorem accepted_alphaOption : Accepted alphaOption.poptions :=
  Accepted.nil.add (o := { name := "alpha".toList, shortOption := 'a' }) rfl

/-- The variables after `-a` -/
def afterAlpha : Getopt :=
  (parse ⟨false, false, false⟩ 5 {} alphaOption ["prog".toList, "-a".toList] false).vars

/-- After `-a` has been read, every command line is read as by the first parse. -/
theorem parse_as_first_iff_alpha :
    Unaffected ⟨false, false, false⟩ alphaOption.poptions afterAlpha ∧
      ∀ argv ≠ [], ∀ ignoreUnknownOptions,
        AsFirst ⟨false, false, false⟩ afterAlpha alphaOption argv ignoreUnknownOptions := by
  have hended : (parse ⟨false, false, false⟩ 5 {} alphaOption ["prog".toList, "-a".toList]
      false).outcome ≠ none := by decide +kernel
  have hreached : Reached afterAlpha := Reached.start.parse _ _ _ _ _ hended
  have hun : Unaffected ⟨false, false, false⟩ alphaOption.poptions afterAlpha := by
    constructor
    · intro _
      decide +kernel
    · intro _
      left
      decide +kernel
  exact ⟨hun, (parse_as_first_iff accepted_alphaOption hreached ⟨false, false, false⟩).1.mpr hun⟩

/-- `-axa` is left behind at its unknown `x`, so that the next parse of all begins with
its last `a`. -/
theorem parse_goes_on_in_last_cluster :
    (parse ⟨false, false, false⟩ 5 {} alphaOption ["prog".toList, "-axa".toList] false).outcome =
      some (.error .invalidArgument) ∧
    Reached (parse ⟨false, false, false⟩ 5 {} alphaOption
      ["prog".toList, "-axa".toList] false).vars ∧
    Accepted alphaOption.poptions ∧
    hasOption (parse ⟨false, false, false⟩ 5
        (parse ⟨false, false, false⟩ 5 {} alphaOption ["prog".toList, "-axa".toList] false).vars
        alphaOption ["prog".toList, "file".toList] false).impl "alpha".toList = .ok true ∧
    hasOption (parse ⟨false, false, false⟩ 5 {} (unparsed alphaOption)
      ["prog".toList, "file".toList] false).impl "alpha".toList = .ok false := by
  have hthrown : (parse ⟨false, false, false⟩ 5 {} alphaOption ["prog".toList, "-axa".toList]
      false).outcome = some (.error .invalidArgument) := by decide +kernel
  refine ⟨hthrown, ?_, accepted_alphaOption, ?_, ?_⟩
  · refine Reached.start.parse _ _ _ _ _ ?_
    rw [hthrown]
    exact Option.some_ne_none _
  · decide +kernel
  · decide +kernel

end

end KssUtil.Options
