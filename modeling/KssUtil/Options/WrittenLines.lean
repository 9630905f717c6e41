import KssUtil.Options.Spellings
import KssUtil.Strings.TypedText

/-!
# What is written on a command line

Options in any spelling, with other words between and behind them, and what `parse` and the
typed reader of values make of them.
-/

namespace KssUtil.Options

open KssUtil.Foundation KssUtil.Libc KssUtil.Strings

/-- `option<T>` -/
def option {T : Type} (convert : List Char → Except Exn T) (impl : Impl) (name : List Char) :
    Except Exn T := do
  convert (← rawOptionValue impl name)

/-! ## Command lines -/

/-- An option with its value, or a word that is no option. -/
inductive Item where
  | option (x : ProgramOption × List Char) (s : Spelling)
  | operand (w : List Char)

def Item.words : Item → List (List Char)
  | option x s => s.words x
  | operand w => [w]

def Item.Fits (poptions : List ProgramOption) : Item → Prop
  | option x s => Given poptions x ∧ s.Fits poptions x
  | operand w => isNonoption w = true

/-- The options that are given; where the first operand ends them, those in front of it. -/
def given (posixlyCorrect : Bool) : List Item → List (ProgramOption × List Char)
  | [] => []
  | .option x _ :: items => x :: given posixlyCorrect items
  | .operand _ :: items => if posixlyCorrect then [] else given posixlyCorrect items

/-- The object answers with the values. -/
structure Holds (impl : Impl) (value : List Char → Option (List Char)) : Prop where
  present : ∀ n ≠ [], hasOption impl n = .ok (value n).isSome
  raw : ∀ n ≠ [], rawOptionValue impl n =
    match value n with
    | some v => .ok v
    | none => .error .invalidArgument

def commandLine (programName : List Char) (items : List Item) (tail : List (List Char)) :
    List (List Char) :=
  programName :: (items.flatMap Item.words ++ tail)

/-! ## One option -/

section

variable {env : Env} {poptions : List ProgramOption} {ignoreUnknownOptions : Bool}
  {x : ProgramOption × List Char} {scan called : Scan} {rest pending : List (List Char)}

/-- Between two elements of a command line, of which `rest` is left to be read -/
structure At (env : Env) (poptions : List ProgramOption) (rest : List (List Char)) (scan : Scan) :
    Prop where
  between : scan.vars.Between scan.argv rest
  order : scan.vars.InOrder env.posixlyCorrect (createGetOptLongOptString poptions)

/-- A call takes the option and its value, and leaves `rest` to be read. -/
structure Takes (env : Env) (poptions : List ProgramOption) (x : ProgramOption × List Char)
    (rest : List (List Char)) (scan : Scan) (ch : ℤ) (called : Scan) : Prop where
  call : callGetopt env poptions scan = (ch, called)
  code : ch ≠ -1
  rest : At env poptions rest called
  option : ∀ ignoreUnknownOptions,
    getOptionFromCharacter env ch called.idx poptions ignoreUnknownOptions = .ok (some x.1)
  value : x.1.hasArg ≠ .none → called.vars.optarg.getD [] = x.2
  results : called.results = scan.results

/-- The option that is taken is stored. -/
theorem Takes.turn {ch : ℤ} (h : Takes env poptions x rest scan ch called)
    (hgiven : Given poptions x) (ignoreUnknownOptions : Bool) :
    ∃ scan', At env poptions rest scan' ∧ scan'.results = scan.results.set x.1.name x.2 ∧
      ∀ fuel, parseLoop env poptions ignoreUnknownOptions (fuel + 1) scan =
        parseLoop env poptions ignoreUnknownOptions fuel scan' := by
  have hvalue : getResultFromOption x.1 called.argv.length called.vars = .ok x.2 := by
    unfold getResultFromOption
    cases hasArg : x.1.hasArg with
    | none =>
        rw [hgiven.noValue hasArg]
        rfl
    | required =>
        have hread := h.value (by rw [hasArg]; decide)
        have hwithin := h.rest.between.within
        dsimp only
        rw [hread, if_neg]
        · rfl
        · rintro (hlt | hnil)
          · omega
          · exact hgiven.value hasArg hnil
    | optional =>
        have hread := h.value (by rw [hasArg]; decide)
        dsimp only
        rw [hread]
        rfl
  refine ⟨{ called with results := called.results.set x.1.name x.2 },
    ⟨h.rest.between, h.rest.order⟩, ?_, fun fuel => ?_⟩
  · rw [← h.results]
  · refine parseLoop_next h.call h.code ?_
    rw [handleOption, h.option]
    dsimp only
    rw [storeResult, hvalue]
    rfl

/-- A call comes to an option. -/
theorem callGetopt_option {w : List Char} (hscan : At env poptions pending scan)
    (hahead : (beginCall env.posixlyCorrect (createGetOptLongOptString poptions) {}).order.ahead
      pending = w :: rest) (hoption : isNonoption w = false) (hw : w ≠ ['-', '-']) :
    ∃ argv g, Getopt.Between argv (w :: rest) g ∧
      g.InOrder env.posixlyCorrect (createGetOptLongOptString poptions) ∧ g.optarg = none ∧
      ∀ a, optionElement argv (optionChars (createGetOptLongOptString poptions))
          (createGetOptLongStructOptions poptions) g = a →
        callGetopt env poptions scan =
          (a.code, ⟨argv, a.vars, (a.longind.map Int.ofNat).getD scan.idx, scan.results⟩) := by
  obtain ⟨argv, g, -, hbetween, horder, hoptarg, hcall⟩ := getoptLongOnly_option
    (createGetOptLongStructOptions poptions) hscan.between hscan.order hahead hoption hw
  refine ⟨argv, g, hbetween, horder, hoptarg, ?_⟩
  rintro a rfl
  rw [callGetopt, hcall]

/-- An option that is written with its name is taken. -/
theorem takes_long (hnamed : WellNamed poptions) (hgiven : Given poptions x) {double : Bool}
    {name : List Char} (hname : Abbreviates poptions x.1 name) (hdashed : Dashed double name)
    (hscan : At env poptions pending scan)
    (hahead : (beginCall env.posixlyCorrect (createGetOptLongOptString poptions) {}).order.ahead
      pending = (dashes double ++ (name ++ attached x.2)) :: rest) :
    ∃ ch called, Takes env poptions x rest scan ch called := by
  obtain ⟨i, ho⟩ := List.mem_iff_getElem?.mp hgiven.mem
  obtain ⟨hoption, hw⟩ := dashes_option (attached x.2) hname.ne_nil hdashed
  obtain ⟨argv, g, hbetween, horder, hoptarg, hcall⟩ := callGetopt_option hscan hahead hoption hw
  have helement := optionElement_long hnamed ho hname hdashed (stops_attached x.2)
    (optionChars (createGetOptLongOptString poptions)) hbetween
  have hcode : (0 : ℤ) ≠ -1 := by decide
  by_cases hnil : x.2 = []
  · have hbare : attached x.2 = [] := if_pos hnil
    have hrequired : toHasArg x.1.hasArg ≠ .requiredArgument := by
      intro heq
      cases hasArg : x.1.hasArg with
      | required => exact hgiven.value hasArg hnil
      | _ =>
          rw [hasArg] at heq
          cases heq
    rw [hbare] at helement hbetween
    rw [foundLong_bare _ _ _ _ hrequired] at helement
    refine ⟨_, _, hcall _ helement, hcode, ⟨hbetween.next g.optarg, horder⟩,
      fun _ => getOptionFromCharacter_zero env _ ho, fun _ => ?_, rfl⟩
    dsimp only
    rw [hoptarg, hnil]
    rfl
  · have hvalue : attached x.2 = '=' :: x.2 := if_neg hnil
    have hasArg : toHasArg x.1.hasArg ≠ .noArgument :=
      fun heq => hnil (hgiven.noValue (toHasArg_eq_none.mp heq))
    rw [hvalue, foundLong_value _ _ _ _ hasArg] at helement
    exact ⟨_, _, hcall _ helement, hcode, ⟨hbetween.next (some x.2), horder⟩,
      fun _ => getOptionFromCharacter_zero env _ ho, fun _ => rfl, rfl⟩

/-- An option whose value is in the next word is taken with it. -/
theorem takes_longApart (hnamed : WellNamed poptions) (hgiven : Given poptions x) {double : Bool}
    {name : List Char} (hname : Abbreviates poptions x.1 name) (hdashed : Dashed double name)
    (hasArg : x.1.hasArg = .required) (hscan : At env poptions pending scan)
    (hahead : (beginCall env.posixlyCorrect (createGetOptLongOptString poptions) {}).order.ahead
      pending = (dashes double ++ name) :: x.2 :: rest) :
    ∃ ch called, Takes env poptions x rest scan ch called := by
  obtain ⟨i, ho⟩ := List.mem_iff_getElem?.mp hgiven.mem
  rw [← List.append_nil name] at hahead
  obtain ⟨hoption, hw⟩ := dashes_option [] hname.ne_nil hdashed
  obtain ⟨argv, g, hbetween, horder, hoptarg, hcall⟩ := callGetopt_option hscan hahead hoption hw
  have helement := optionElement_long hnamed ho hname hdashed stops_nil
    (optionChars (createGetOptLongOptString poptions)) hbetween
  have hnext := hbetween.next g.optarg
  have hlt := hnext.lt
  have hvalue := hnext.getD
  dsimp only at hlt hvalue
  rw [foundLong_next (g := { g with nextchar := name ++ [] }) _ _ hlt (by rw [hasArg]; rfl), hvalue]
    at helement
  have hcode : (0 : ℤ) ≠ -1 := by decide
  exact ⟨_, _, hcall _ helement, hcode, ⟨hnext.next (some x.2), horder⟩,
    fun _ => getOptionFromCharacter_zero env _ ho, fun _ => rfl, rfl⟩

/-- An option that is written with its short option is taken. -/
theorem takes_short (htable : OptionTable poptions) (hplain : Plain poptions)
    (hgiven : Given poptions x) (hshort : HasShort x.1) {value : List Char}
    {w : List (List Char)}
    (hvalue : value = [] ∨
      ∀ o ∈ poptions, ¬ (x.1.shortOption :: value).takeWhile (· ≠ '=') <+: o.name)
    (hwritten : x.1.hasArg = .none ∧ value = [] ∧ w = [] ∨
      x.1.hasArg ≠ .none ∧ value = [] ∧ w = [x.2] ∨
      x.1.hasArg ≠ .none ∧ value = x.2 ∧ x.2 ≠ [] ∧ w = [])
    (hscan : At env poptions pending scan)
    (hahead : (beginCall env.posixlyCorrect (createGetOptLongOptString poptions) {}).order.ahead
      pending = ('-' :: x.1.shortOption :: value) :: (w ++ rest)) :
    ∃ ch called, Takes env poptions x rest scan ch called := by
  have hne : ∀ c ∈ ['+', '-', ':', ';', '?'], x.1.shortOption ≠ c :=
    fun c hc => hplain.ne hgiven.mem hc
  obtain ⟨hoption, hw⟩ := short_option value (hne '-' (by decide))
  obtain ⟨argv, g, hbetween, horder, hoptarg, hcall⟩ := callGetopt_option hscan hahead hoption hw
  obtain ⟨tail, htemp, hmark, hsemicolon, hoptional⟩ :=
    dropWhile_optString htable hplain hgiven.mem hshort
  have helement := optionElement_short htable hplain hgiven.mem hshort hvalue hbetween
  rw [processShortOption_of_mem _ _ _ htemp (hne ':' (by decide)) (hne ';' (by decide))
    hsemicolon] at helement
  have hcode : (x.1.shortOption.toNat : ℤ) ≠ -1 := by omega
  have hfound : ∀ idx ignoreUnknownOptions, getOptionFromCharacter env x.1.shortOption.toNat idx
      poptions ignoreUnknownOptions = .ok (some x.1) := by
    intro idx ignoreUnknownOptions
    exact getOptionFromCharacter_short env idx ignoreUnknownOptions hshort.ne_noShortOption
      (hne '?' (by decide)) (hne ':' (by decide))
      (htable.findShortOption hgiven.mem hshort.ne_noShortOption)
  dsimp only at helement
  rcases hwritten with ⟨hasArg, rfl, rfl⟩ | ⟨hasArg, rfl, rfl⟩ | ⟨hasArg, rfl, hvalueNe, rfl⟩
  · have hplainOption : ¬tail.getD 0 nul = ':' := fun heq => hmark.mp heq hasArg
    rw [if_neg hplainOption, if_pos rfl] at helement
    exact ⟨_, _, hcall _ helement, hcode, ⟨hbetween.next g.optarg, horder⟩,
      fun _ => hfound _ _, fun hne => absurd hasArg hne, rfl⟩
  · have hnext := hbetween.next g.optarg
    have hlt := hnext.lt
    have hread := hnext.getD
    dsimp only at hlt hread
    rw [if_pos (hmark.mpr hasArg), if_pos rfl, shortArgument] at helement
    dsimp only at helement
    rw [if_neg (not_not.mpr rfl), decide_eq_false (hoptional hasArg), if_neg Bool.false_ne_true,
      if_neg (Nat.ne_of_lt hlt), hread] at helement
    exact ⟨_, _, hcall _ helement, hcode, ⟨hnext.next (some x.2), horder⟩,
      fun _ => hfound _ _, fun _ => rfl, rfl⟩
  · rw [if_pos (hmark.mpr hasArg), if_neg hvalueNe, shortArgument] at helement
    dsimp only at helement
    rw [if_pos hvalueNe] at helement
    exact ⟨_, _, hcall _ helement, hcode, ⟨hbetween.next (some x.2), horder⟩,
      fun _ => hfound _ _, fun _ => rfl, rfl⟩

/-- **An option is taken in any spelling.** -/
theorem takes_spelled (htable : OptionTable poptions) (hplain : Plain poptions)
    (hgiven : Given poptions x) {s : Spelling} (hs : s.Fits poptions x)
    (hscan : At env poptions pending scan)
    (hahead : (beginCall env.posixlyCorrect (createGetOptLongOptString poptions) {}).order.ahead
      pending = s.words x ++ rest) :
    ∃ ch called, Takes env poptions x rest scan ch called := by
  cases s with
  | long double name => exact takes_long htable.toWellNamed hgiven hs.1 hs.2 hscan hahead
  | longApart double name =>
      exact takes_longApart htable.toWellNamed hgiven hs.1 hs.2.1 hs.2.2 hscan hahead
  | short =>
      by_cases hasArg : x.1.hasArg = .none
      · refine takes_short htable hplain hgiven hs.1 (w := []) (Or.inl rfl)
          (Or.inl ⟨hasArg, rfl, rfl⟩) hscan ?_
        rw [hahead, Spelling.words, if_pos hasArg]
        rfl
      · refine takes_short htable hplain hgiven hs.1 (w := [x.2]) (Or.inl rfl)
          (Or.inr (Or.inl ⟨hasArg, rfl, rfl⟩)) hscan ?_
        rw [hahead, Spelling.words, if_neg hasArg]
        rfl
  | shortJoined =>
      obtain ⟨hshort, hasArg, hne, hunknown⟩ := hs
      exact takes_short htable hplain hgiven hshort (w := []) (Or.inr hunknown)
        (Or.inr (Or.inr ⟨hasArg, rfl, hne, rfl⟩)) hscan hahead

/-- The first word of an option is not passed over. -/
theorem ahead_words (hplain : Plain poptions) (hgiven : Given poptions x) {s : Spelling}
    (hs : s.Fits poptions x) (order : ArgOrder) (rest : List (List Char)) :
    order.ahead (s.words x ++ rest) = s.words x ++ rest := by
  have hstop : ∀ {w : List Char} (ws : List (List Char)), isNonoption w = false →
      order.ahead (w :: ws) = w :: ws := by
    intro w ws hw
    unfold ArgOrder.ahead
    split
    · exact dropWhile_of_stops (stops_cons.mpr hw)
    · rfl
  have hdash : x.1.shortOption ≠ '-' := hplain.ne hgiven.mem (by decide)
  cases s with
  | long double name => exact hstop _ (dashes_option _ hs.1.ne_nil hs.2).1
  | longApart double name =>
      have hoption := (dashes_option [] hs.1.ne_nil hs.2.1).1
      rw [List.append_nil] at hoption
      exact hstop _ hoption
  | short => exact hstop _ (short_option [] hdash).1
  | shortJoined => exact hstop _ (short_option x.2 hdash).1

/-! ## Whole command lines -/

/-- The options end with the command line, or with the mark of their end. -/
def Ends (tail : List (List Char)) : Prop := ∀ w ∈ tail.head?, w = ['-', '-']

theorem parseLoop_between_end (hscan : At env poptions pending scan)
    (hend : ∀ w ∈ ((beginCall env.posixlyCorrect (createGetOptLongOptString poptions)
        {}).order.ahead pending).head?, w = ['-', '-'] ∨
      (beginCall env.posixlyCorrect (createGetOptLongOptString poptions) {}).order =
        .requireOrder ∧ isNonoption w = true) (ignoreUnknownOptions : Bool) (fuel : ℕ) :
    ∃ scan', scan'.results = scan.results ∧
      parseLoop env poptions ignoreUnknownOptions (fuel + 1) scan = (scan', some (.ok ())) := by
  have hcode := getoptLongOnly_between_end (createGetOptLongStructOptions poptions)
    hscan.between hscan.order hend
  refine ⟨(callGetopt env poptions scan).2, rfl, ?_⟩
  rw [parseLoop]
  exact if_pos hcode

/-- **The run.**  The loop reads the items one after the other, and stores what is given. -/
theorem parseLoop_items (htable : OptionTable poptions) (hplain : Plain poptions)
    (ignoreUnknownOptions : Bool) {tail : List (List Char)} (htail : Ends tail) :
    ∀ {items : List Item}, (∀ i ∈ items, i.Fits poptions) →
    ∀ {pending : List (List Char)} {scan : Scan}, At env poptions pending scan →
      (beginCall env.posixlyCorrect (createGetOptLongOptString poptions) {}).order.ahead pending =
        (beginCall env.posixlyCorrect (createGetOptLongOptString poptions) {}).order.ahead
          (items.flatMap Item.words ++ tail) →
        ∀ fuel > items.length, ∃ scan',
          scan'.results = scan.results.setAll
            ((given env.posixlyCorrect items).map fun x => (x.1.name, x.2)) ∧
          parseLoop env poptions ignoreUnknownOptions fuel scan = (scan', some (.ok ())) := by
  have horder := hplain.order env.posixlyCorrect
  intro items
  induction items with
  | nil =>
      intro _ pending scan hscan hahead fuel hfuel
      obtain ⟨fuel, rfl⟩ := Nat.exists_eq_succ_of_ne_zero (Nat.ne_of_gt hfuel)
      refine parseLoop_between_end hscan ?_ ignoreUnknownOptions fuel
      rw [hahead]
      intro w hw
      left
      unfold ArgOrder.ahead at hw
      rw [List.flatMap_nil, List.nil_append] at hw
      split at hw
      · cases tail with
        | nil => cases hw
        | cons w' tail =>
            obtain rfl := htail w' rfl
            rw [List.dropWhile_cons_of_neg (by decide)] at hw
            exact (Option.some.inj hw).symm
      · exact htail w hw
  | cons i items ih =>
      intro hitems pending scan hscan hahead fuel hfuel
      obtain ⟨fuel, rfl⟩ := Nat.exists_eq_succ_of_ne_zero (Nat.ne_of_gt (Nat.zero_lt_of_lt hfuel))
      obtain ⟨hi, hrest⟩ := List.forall_mem_cons.mp hitems
      rw [List.flatMap_cons, List.append_assoc] at hahead
      cases i with
      | option x s =>
          obtain ⟨hgiven, hs⟩ := hi
          rw [show (Item.option x s).words = s.words x from rfl, ahead_words hplain hgiven hs]
            at hahead
          obtain ⟨ch, called, htakes⟩ := takes_spelled htable hplain hgiven hs hscan hahead
          obtain ⟨scan', hscan', hresults, hturn⟩ := htakes.turn hgiven ignoreUnknownOptions
          obtain ⟨scan'', hresults', hloop⟩ := ih hrest hscan' rfl fuel
            (Nat.lt_of_succ_lt_succ hfuel)
          refine ⟨scan'', ?_, (hturn fuel).trans hloop⟩
          rw [hresults', hresults]
          rfl
      | operand w =>
          have hw : isNonoption w = true := hi
          rw [show (Item.operand w).words = [w] from rfl, List.singleton_append] at hahead
          cases hposix : env.posixlyCorrect with
          | true =>
              -- the options end with the first operand
              rw [hposix, if_pos rfl] at horder
              rw [hposix, horder] at hahead
              have hpending : pending = w :: (items.flatMap Item.words ++ tail) := hahead
              obtain ⟨scan', hresults, hloop⟩ := parseLoop_between_end hscan (by
                rw [hposix, horder, hpending]
                intro w' hw'
                obtain rfl := Option.some.inj hw'
                exact Or.inr ⟨rfl, hw⟩) ignoreUnknownOptions fuel
              exact ⟨scan', hresults, hloop⟩
          | false =>
              rw [hposix, if_neg Bool.false_ne_true] at horder
              have hskip : (beginCall env.posixlyCorrect (createGetOptLongOptString poptions)
                  {}).order.ahead (w :: (items.flatMap Item.words ++ tail)) =
                (beginCall env.posixlyCorrect (createGetOptLongOptString poptions) {}).order.ahead
                  (items.flatMap Item.words ++ tail) := by
                rw [hposix, horder]
                exact List.dropWhile_cons_of_pos hw
              obtain ⟨scan', hresults, hloop⟩ := ih hrest hscan (hahead.trans hskip)
                (fuel + 1) (Nat.lt_of_succ_lt hfuel)
              refine ⟨scan', ?_, hloop⟩
              rw [hresults, hposix]
              rfl

end

section

variable {env : Env} {vars : Getopt} {impl : Impl} {items : List Item} {tail : List (List Char)}

theorem holds_results (impl : Impl) : Holds impl impl.results := by
  constructor
  · intro n hn
    exact if_neg hn
  · intro n hn
    unfold rawOptionValue
    rw [if_neg hn]
    cases impl.results n with
    | none => rfl
    | some v => rfl

theorem parse_items (h : Accepted impl.poptions) (hplain : Plain impl.poptions)
    (hreached : Reached vars) (hsettled : Settled env impl.poptions vars)
    (hitems : ∀ i ∈ items, i.Fits impl.poptions) (htail : Ends tail) (programName : List Char)
    (ignoreUnknownOptions : Bool) {fuel : ℕ} (hfuel : fuel > items.length) :
    let r := parse env fuel vars impl (commandLine programName items tail) ignoreUnknownOptions
    r.outcome = some (.ok ()) ∧
      r.impl.results = valueOf impl.poptions (given env.posixlyCorrect items) := by
  let scan : Scan := ⟨commandLine programName items tail, {}, -1,
    initWithDefaultValues impl.poptions⟩
  have hstart : At env impl.poptions (items.flatMap Item.words ++ tail) scan :=
    ⟨⟨Nat.le_refl 1, Nat.le_add_left 1 _, rfl, Nat.le_refl 0, rfl⟩, nofun⟩
  obtain ⟨houtcome, hresults⟩ := parse_settled hreached.kept.toPlaced hsettled fuel programName
    (items.flatMap Item.words ++ tail) ignoreUnknownOptions
  obtain ⟨scan', hstored, hloop⟩ := parseLoop_items h.optionTable hplain ignoreUnknownOptions
    htail hitems hstart rfl fuel hfuel
  have hparse : parse env fuel {} (unparsed impl) (commandLine programName items tail)
      ignoreUnknownOptions =
      (let r := parseLoop env impl.poptions ignoreUnknownOptions fuel scan
       ⟨r.2, r.1.vars, { unparsed impl with results := r.1.results, programName }⟩) := rfl
  rw [hloop] at hparse
  refine ⟨houtcome.trans (congrArg Parsed.outcome hparse), ?_⟩
  refine (hresults.trans (congrArg (fun r => r.impl.results) hparse)).trans ?_
  funext n
  show scan'.results n = _
  rw [hstored, Results.setAll_eq, valueOf, ← initWithDefaultValues_find? h.wellNamed]

/-- **Command lines in any spelling.**  However the options are written, and whatever other
words there are, `parse` returns, and each option has the value that it is given last. -/
theorem parse_written (h : Accepted impl.poptions) (hplain : Plain impl.poptions)
    (hreached : Reached vars) (hsettled : Settled env impl.poptions vars)
    (hitems : ∀ i ∈ items, i.Fits impl.poptions) (htail : Ends tail) (programName : List Char)
    (ignoreUnknownOptions : Bool) :
    ∃ enough, ∀ fuel ≥ enough,
      let r := parse env fuel vars impl (commandLine programName items tail) ignoreUnknownOptions
      r.outcome = some (.ok ()) ∧
        Holds r.impl (valueOf impl.poptions (given env.posixlyCorrect items)) := by
  refine ⟨items.length + 1, fun fuel hfuel => ?_⟩
  obtain ⟨houtcome, hresults⟩ := parse_items h hplain hreached hsettled hitems htail
    programName ignoreUnknownOptions hfuel
  refine ⟨houtcome, ?_⟩
  rw [← hresults]
  exact holds_results _

/-- `--timeout=<value>` or `-t <value>` -/
def timeout : ProgramOption :=
  { name := "timeout".toList, shortOption := 't', hasArg := .required }

/-- `--level[=<value>]`, which is `low` if it is not given -/
def levelLow : ProgramOption := { level with defaultValue := "low".toList }

def fourOptions : Impl :=
  { poptions := [verbose, output, levelLow, timeout], results := fun _ => none,
    programName := [] }

/-- `-v in --out a -timeout=-1500ms -lhigh out -o b` -/
def spelledItems : List Item :=
  [.option (verbose, []) .short,
   .operand "in".toList,
   .option (output, "a".toList) (.longApart true "out".toList),
   .option (timeout, "-1500ms".toList) (.long false "timeout".toList),
   .option (levelLow, "high".toList) .shortJoined,
   .operand "out".toList,
   .option (output, "b".toList) .short]

theorem accepted_fourOptions : Accepted fourOptions.poptions :=
  (((Accepted.nil.add (o := verbose) rfl).add (o := output) rfl).add (o := levelLow) rfl).add
    (o := timeout) rfl

theorem fits_spelledItems : ∀ i ∈ spelledItems, i.Fits fourOptions.poptions := by
  intro i hi
  simp only [spelledItems, List.mem_cons, List.not_mem_nil, or_false] at hi
  rcases hi with rfl | rfl | rfl | rfl | rfl | rfl | rfl
  · exact ⟨⟨by decide, by decide, by decide⟩, ⟨by decide, by decide⟩, by decide⟩
  · exact (by decide : isNonoption "in".toList = true)
  · exact ⟨⟨by decide, by decide, by decide⟩,
      ⟨by decide, by decide, by decide, Or.inr (by decide)⟩, nofun, rfl⟩
  · exact ⟨⟨by decide, by decide, by decide⟩,
      ⟨by decide, by decide, by decide, Or.inl rfl⟩, fun _ => by decide⟩
  · exact ⟨⟨by decide, by decide, by decide⟩, ⟨by decide, by decide⟩, by decide, by decide,
      by decide⟩
  · exact (by decide : isNonoption "out".toList = true)
  · exact ⟨⟨by decide, by decide, by decide⟩, ⟨by decide, by decide⟩, by decide⟩

theorem plain_fourOptions : Plain fourOptions.poptions := by
  unfold Plain
  decide

theorem ends_mark : Ends ["--".toList, "-x".toList] := by
  unfold Ends
  decide

theorem settled_start : Settled ⟨false, false, false⟩ fourOptions.poptions {} := ⟨nofun, nofun⟩

theorem parse_written_four :
    ∃ enough, ∀ fuel ≥ enough,
      let r := parse ⟨false, false, false⟩ fuel {} fourOptions
        (commandLine "prog".toList spelledItems ["--".toList, "-x".toList]) false
      r.outcome = some (.ok ()) ∧
        Holds r.impl (valueOf fourOptions.poptions (given false spelledItems)) :=
  parse_written accepted_fourOptions plain_fourOptions .start settled_start fits_spelledItems
    ends_mark "prog".toList false

theorem exists_of_mem_given {posixlyCorrect : Bool} {x : ProgramOption × List Char}
    (h : x ∈ given posixlyCorrect items) : ∃ s, .option x s ∈ items := by
  induction items with
  | nil => cases h
  | cons i items ih =>
      cases i with
      | option y s =>
          rcases List.mem_cons.mp h with rfl | h
          · exact ⟨s, List.mem_cons_self⟩
          · obtain ⟨s', hs'⟩ := ih h
            exact ⟨s', List.mem_cons_of_mem _ hs'⟩
      | operand w =>
          cases posixlyCorrect with
          | true => cases h
          | false =>
              obtain ⟨s', hs'⟩ := ih h
              exact ⟨s', List.mem_cons_of_mem _ hs'⟩

/-- **Typed options.**  A value whose text is given last to an option is the value that
`option<T>` returns. -/
theorem typed_options (p : Time.Platform) {t : ValueType} {v : t.Carrier} {name text : List Char}
    (hvalid : t.Valid v) (hwrite : t.write p v = .ok text) (h : Accepted impl.poptions)
    (hplain : Plain impl.poptions) (hreached : Reached vars)
    (hsettled : Settled env impl.poptions vars) (hitems : ∀ i ∈ items, i.Fits impl.poptions)
    (htail : Ends tail) (hlast : lastGiven (given env.posixlyCorrect items) name = some text)
    (programName : List Char) (ignoreUnknownOptions : Bool) :
    ∃ enough, ∀ fuel ≥ enough,
      option (t.convert p)
        (parse env fuel vars impl (commandLine programName items tail) ignoreUnknownOptions).impl
          name = .ok v := by
  have hname : name ≠ [] := by
    obtain ⟨x, hfind, -⟩ := Option.map_eq_some_iff.mp hlast
    have hfound := List.find?_some
      (p := fun x : ProgramOption × List Char => decide (x.1.name = name)) hfind
    obtain ⟨s, hs⟩ := exists_of_mem_given (List.mem_reverse.mp (List.mem_of_find?_eq_some hfind))
    rw [← of_decide_eq_true hfound]
    exact (ne_nul_of_valid (h.wellNamed.valid _ (hitems _ hs).1.mem)).1
  have hconvert : t.convert p text = .ok v := by
    obtain ⟨s, hs, hread⟩ := ValueType.convert_write p hvalid
    rw [hwrite] at hs
    rwa [Except.ok.inj hs]
  refine ⟨items.length + 1, fun fuel hfuel => ?_⟩
  obtain ⟨-, hresults⟩ := parse_items h hplain hreached hsettled hitems htail programName
    ignoreUnknownOptions hfuel
  have hraw := (holds_results (parse env fuel vars impl (commandLine programName items tail)
    ignoreUnknownOptions).impl).raw name hname
  rw [hresults, valueOf, hlast] at hraw
  rw [option, hraw]
  exact hconvert

/-- `-timeout=-1500ms` -/
theorem typed_options_timeout :
    ∃ enough, ∀ fuel ≥ enough,
      option ((ValueType.duration .ms).convert .zeroed)
        (parse ⟨false, false, false⟩ fuel {} fourOptions
          (commandLine "prog".toList spelledItems ["--".toList, "-x".toList]) false).impl
          "timeout".toList = .ok (-1500 : ℤ) :=
  typed_options (t := .duration .ms) (v := (-1500 : ℤ)) .zeroed ⟨by decide, by decide⟩ rfl
    accepted_fourOptions plain_fourOptions .start settled_start fits_spelledItems ends_mark rfl
    "prog".toList false

end
end KssUtil.Options
