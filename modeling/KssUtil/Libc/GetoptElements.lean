import KssUtil.Libc.GetoptFindings
import KssUtil.Libc.GetoptProgress

/-!
# From element to element

`getopt_long_only` moves the elements that are no options behind those that are.  What is
left to be read stays as it is.
-/

namespace KssUtil.Libc

/-- The elements from the next option on; in the order that permutes, those that are none are
passed over. -/
def ArgOrder.ahead (order : ArgOrder) (rest : List (List Char)) : List (List Char) :=
  if order = .permute then rest.dropWhile isNonoption else rest

/-- Between two elements of a command line, of which `rest` is left to be read -/
structure Getopt.Between (argv rest : List (List Char)) (g : Getopt) : Prop where
  optind : 1 ≤ g.optind
  within : g.optind ≤ argv.length
  nextchar : g.nextchar = []
  nonopts : g.firstNonopt ≤ g.lastNonopt
  rest : argv.drop g.optind = rest

section

variable {argv rest : List (List Char)} {w : List Char} {g : Getopt}

/-! ## Elements that are passed over -/

theorem exchange_drop (h : g.Ordered argv.length) :
    (exchange argv g).1.drop (exchange argv g).2.optind = argv.drop g.optind := by
  have hlength : (argv.take g.firstNonopt ++ (argv.take g.optind).drop g.lastNonopt ++
      (argv.take g.lastNonopt).drop g.firstNonopt).length = g.optind := by
    obtain ⟨hnonopts, hlast, hoptind⟩ := h
    simp only [List.length_append, List.length_take, List.length_drop]
    omega
  exact List.drop_left' hlength

/-- What is passed over is what is in front of the next option. -/
theorem drop_passed (argv : List (List Char)) (n : ℕ) :
    argv.drop (n + ((argv.drop n).takeWhile isNonoption).length) =
      (argv.drop n).dropWhile isNonoption := by
  rw [← List.drop_drop]
  nth_rewrite 2 [← List.takeWhile_append_dropWhile (p := isNonoption) (l := argv.drop n)]
  exact List.drop_left

/-- The scan is at the next option, or at the end. -/
theorem settle_between (h : g.Between argv rest) :
    (settle argv g).2.Between (settle argv g).1 (g.order.ahead rest) ∧
      (settle argv g).1.length = argv.length ∧
      (settle argv g).2.order = g.order ∧ (settle argv g).2.initialized = g.initialized ∧
      (settle argv g).2.optarg = g.optarg := by
  obtain ⟨hlength, hordered, hstays⟩ := @settle_ordered argv _ h.nonopts h.within
  have hclipped : Getopt.Ordered argv.length { g with lastNonopt := min g.lastNonopt g.optind,
                                                      firstNonopt := min g.firstNonopt g.optind } :=
    ⟨min_le_min_right _ h.nonopts, min_le_right _ _, h.within⟩
  have hsame : (settle argv g).2.nextchar = g.nextchar ∧ (settle argv g).2.order = g.order ∧
      (settle argv g).2.initialized = g.initialized ∧ (settle argv g).2.optarg = g.optarg := by
    unfold settle
    dsimp only
    split
    · split
      · exact ⟨rfl, rfl, rfl, rfl⟩
      · split
        · exact ⟨rfl, rfl, rfl, rfl⟩
        · exact ⟨rfl, rfl, rfl, rfl⟩
    · exact ⟨rfl, rfl, rfl, rfl⟩
  have hrest : (settle argv g).1.drop (settle argv g).2.optind = g.order.ahead rest := by
    unfold settle ArgOrder.ahead
    dsimp only
    rw [← h.rest]
    split
    · split
      · dsimp only
        rw [drop_passed, exchange_drop hclipped]
      · split
        · exact drop_passed _ _
        · exact drop_passed _ _
    · rfl
  refine ⟨⟨h.optind.trans hstays, ?_, hsame.1.trans h.nextchar, hordered.nonopts, hrest⟩, hlength,
    hsame.2⟩
  rw [hlength]
  exact hordered.optind

/-! ## The element that comes next -/

theorem Getopt.Between.getElem? (h : g.Between argv (w :: rest)) : argv[g.optind]? = some w := by
  rw [← List.head?_drop, h.rest]
  rfl

theorem Getopt.Between.getD (h : g.Between argv (w :: rest)) : argv.getD g.optind [] = w := by
  rw [List.getD_eq_getElem?_getD, h.getElem?]
  rfl

theorem Getopt.Between.lt (h : g.Between argv (w :: rest)) : g.optind < argv.length :=
  (List.getElem?_eq_some_iff.mp h.getElem?).1

/-- An element has been read. -/
theorem Getopt.Between.next (h : g.Between argv (w :: rest)) (optarg : Option (List Char)) :
    Getopt.Between argv rest
      { g with optind := g.optind + 1, nextchar := [], optarg := optarg } := by
  refine ⟨Nat.le_add_left 1 _, h.lt, rfl, h.nonopts, ?_⟩
  dsimp only
  rw [← List.tail_drop, h.rest]
  rfl

theorem endMarker_of_ne (h : g.Between argv (w :: rest)) (hw : w ≠ ['-', '-']) :
    endMarker argv g = (argv, g) := by
  rw [endMarker, if_neg]
  rw [h.getElem?]
  exact fun heq => hw (Option.some.inj heq)

/-- A call reads the next option where the scan has come to it. -/
theorem nextElement_settled {rest' : List (List Char)} (optstring : List Char)
    (longopts : List LongOption) (h : g.Between argv rest)
    (hahead : g.order.ahead rest = w :: rest') (hoption : isNonoption w = false)
    (hw : w ≠ ['-', '-']) :
    nextElement argv optstring longopts g = ((settle argv g).1,
        optionElement (settle argv g).1 optstring longopts (settle argv g).2) ∧
      Finding.nextElement argv optstring longopts g =
        Finding.optionElement (settle argv g).1 optstring longopts (settle argv g).2 := by
  obtain ⟨hbetween, hlength, -⟩ := settle_between h
  rw [hahead] at hbetween
  have hlt := hbetween.lt
  rw [hlength] at hlt
  unfold nextElement Finding.nextElement
  dsimp only
  rw [endMarker_of_ne hbetween hw]
  dsimp only
  rw [if_neg (Nat.ne_of_lt hlt), if_neg (Nat.ne_of_lt hlt), hbetween.getD, hoption,
    if_neg Bool.false_ne_true, if_neg Bool.false_ne_true]
  exact ⟨rfl, rfl⟩

/-- A call comes to the next option. -/
theorem nextElement_option {rest' : List (List Char)} (optstring : List Char)
    (longopts : List LongOption) (h : g.Between argv rest)
    (hahead : g.order.ahead rest = w :: rest') (hoption : isNonoption w = false)
    (hw : w ≠ ['-', '-']) :
    ∃ argv' g', argv'.length = argv.length ∧ g'.Between argv' (w :: rest') ∧
      g'.order = g.order ∧ g'.initialized = g.initialized ∧ g'.optarg = g.optarg ∧
      nextElement argv optstring longopts g =
        (argv', optionElement argv' optstring longopts g') := by
  obtain ⟨hbetween, hlength, horder, hinit, hoptarg⟩ := settle_between h
  rw [hahead] at hbetween
  exact ⟨_, _, hlength, hbetween, horder, hinit, hoptarg,
    (nextElement_settled optstring longopts h hahead hoption hw).1⟩

/-- A call comes to the end of the options: of the command line, to `--`, or to an element
that is no option and is not passed over. -/
theorem nextElement_end (optstring : List Char) (longopts : List LongOption)
    (h : g.Between argv rest)
    (hend : ∀ w ∈ (g.order.ahead rest).head?,
      w = ['-', '-'] ∨ g.order = .requireOrder ∧ isNonoption w = true) :
    (nextElement argv optstring longopts g).2.code = -1 := by
  obtain ⟨hbetween, hlength, horder, -, -⟩ := settle_between h
  rw [nextElement]
  generalize settle argv g = r at hbetween hlength horder ⊢
  obtain ⟨argv', g'⟩ := r
  dsimp only at hbetween hlength horder ⊢
  cases hahead : g.order.ahead rest with
  | nil =>
      rw [hahead] at hbetween
      have hoptind := Nat.le_antisymm hbetween.within (List.drop_eq_nil_iff.mp hbetween.rest)
      have hmarker : endMarker argv' g' = (argv', g') := by
        rw [endMarker, if_neg]
        rw [hoptind, List.getElem?_eq_none (Nat.le_refl _)]
        exact (Option.some_ne_none _).symm
      rw [hmarker]
      dsimp only
      rw [if_pos (hoptind.trans hlength)]
  | cons w rest' =>
      rw [hahead] at hbetween hend
      rcases Decidable.em (w = ['-', '-']) with hw | hw
      · have hmarker : (endMarker argv' g').2.optind = argv.length := by
          rw [endMarker, if_pos (hw ▸ hbetween.getElem?), ← hlength]
        rw [if_pos hmarker]
      · obtain ⟨hrequire, hnonoption⟩ := (hend w rfl).resolve_left hw
        have hlt := hbetween.lt
        rw [hlength] at hlt
        rw [endMarker_of_ne hbetween hw]
        dsimp only
        rw [if_neg (Nat.ne_of_lt hlt), hbetween.getD, hnonoption, if_pos rfl, horder,
          if_pos hrequire]

/-! ## Options -/

theorem foundLong_bare {p : LongOption} (argv : List (List Char)) (optstring : List Char) (i : ℕ)
    (g : Getopt) (h : p.hasArg ≠ .requiredArgument) : foundLong argv optstring p i [] g =
      { code := p.val, longind := some i,
        vars := { g with optind := g.optind + 1, nextchar := [] } } :=
  if_neg h

theorem foundLong_next {p : LongOption} (optstring : List Char) (i : ℕ)
    (hlt : g.optind + 1 < argv.length) (h : p.hasArg = .requiredArgument) :
    foundLong argv optstring p i [] g =
      { code := p.val, longind := some i,
        vars := { g with optind := g.optind + 1 + 1, nextchar := [],
                         optarg := some (argv.getD (g.optind + 1) []) } } := by
  rw [foundLong]
  dsimp only
  rw [if_pos h, if_pos hlt]

/-- A short option is in the string, without ';' behind it. -/
theorem processShortOption_of_mem {optstring : List Char} {c : Char} {tail value : List Char}
    (argv : List (List Char)) (longopts : List LongOption) (g : Getopt)
    (htemp : optstring.dropWhile (· ≠ c) = c :: tail) (hcolon : c ≠ ':') (hsemicolon : c ≠ ';')
    (htail : tail.getD 0 nul ≠ ';') :
    processShortOption argv optstring longopts { g with nextchar := c :: value } =
      (let g := { g with nextchar := value,
                         optind := if value = [] then g.optind + 1 else g.optind }
       if tail.getD 0 nul = ':' then
         shortArgument argv optstring c (tail.getD 1 nul = ':') g
       else { code := c.toNat, vars := g }) := by
  unfold processShortOption
  dsimp only [List.headD_cons, List.tail_cons]
  rw [htemp, if_neg, if_neg]
  · rfl
  · rintro ⟨-, heq⟩
    exact htail heq
  · rintro (heq | heq | heq)
    · cases heq
    · exact hcolon heq
    · exact hsemicolon heq

/-! ## Calls -/

/-- The order of the elements is the one that the option string asks for. -/
def Getopt.InOrder (posixlyCorrect : Bool) (optstring : List Char) (g : Getopt) : Prop :=
  g.initialized = true → g.order = (beginCall posixlyCorrect optstring {}).order

theorem beginCall_between (posixlyCorrect : Bool) (optstring : List Char)
    (h : g.Between argv rest) (horder : g.InOrder posixlyCorrect optstring) :
    (beginCall posixlyCorrect optstring g).Between argv rest ∧
      (beginCall posixlyCorrect optstring g).order =
        (beginCall posixlyCorrect optstring {}).order ∧
      (beginCall posixlyCorrect optstring g).optarg = none := by
  have hne : g.optind ≠ 0 := Nat.one_le_iff_ne_zero.mp h.optind
  unfold Getopt.InOrder at horder
  have hfirst : (beginCall posixlyCorrect optstring {}).order =
      if optstring.head? = some '-' then .returnInOrder
      else if optstring.head? = some '+' ∨ posixlyCorrect then .requireOrder
      else .permute := rfl
  rw [hfirst] at horder ⊢
  unfold beginCall
  cases hinit : g.initialized with
  | false =>
      rw [if_pos (Or.inr Bool.false_ne_true), if_neg hne]
      exact ⟨⟨h.optind, h.within, rfl, Nat.le_refl _, h.rest⟩, rfl, rfl⟩
  | true =>
      rw [if_neg]
      · exact ⟨⟨h.optind, h.within, h.nextchar, h.nonopts, h.rest⟩, horder hinit, rfl⟩
      · rintro (hzero | hoff)
        · exact hne hzero
        · exact hoff rfl

/-- **A call that comes to an option.** -/
theorem getoptLongOnly_option {posixlyCorrect : Bool} {optstring : List Char}
    {rest' : List (List Char)} (longopts : List LongOption) (h : g.Between argv rest)
    (horder : g.InOrder posixlyCorrect optstring)
    (hahead : (beginCall posixlyCorrect optstring {}).order.ahead rest = w :: rest')
    (hoption : isNonoption w = false) (hw : w ≠ ['-', '-']) :
    ∃ argv' g', argv'.length = argv.length ∧ g'.Between argv' (w :: rest') ∧
      g'.InOrder posixlyCorrect optstring ∧ g'.optarg = none ∧
      getoptLongOnly posixlyCorrect argv optstring longopts g =
        (argv', optionElement argv' (optionChars optstring) longopts g') := by
  obtain ⟨hbegun, horder', hoptarg⟩ := beginCall_between posixlyCorrect optstring h horder
  rw [← horder'] at hahead
  obtain ⟨argv', g', hlength, hbetween, hsame, -, hoptarg', hnext⟩ :=
    nextElement_option (optionChars optstring) longopts hbegun hahead hoption hw
  refine ⟨argv', g', hlength, hbetween, fun _ => hsame.trans horder', hoptarg'.trans hoptarg, ?_⟩
  rw [getoptLongOnly, if_pos hbegun.nextchar, hnext]

/-- **A call that comes to the end of the options.** -/
theorem getoptLongOnly_between_end {posixlyCorrect : Bool} {optstring : List Char}
    (longopts : List LongOption) (h : g.Between argv rest)
    (horder : g.InOrder posixlyCorrect optstring)
    (hend : ∀ w ∈ ((beginCall posixlyCorrect optstring {}).order.ahead rest).head?,
      w = ['-', '-'] ∨ (beginCall posixlyCorrect optstring {}).order = .requireOrder ∧
        isNonoption w = true) :
    (getoptLongOnly posixlyCorrect argv optstring longopts g).2.code = -1 := by
  obtain ⟨hbegun, horder', -⟩ := beginCall_between posixlyCorrect optstring h horder
  rw [← horder'] at hend
  rw [getoptLongOnly, if_pos hbegun.nextchar]
  exact nextElement_end _ longopts hbegun hend

/-! ## What a call keeps -/

section

variable {optstring : List Char} {longopts : List LongOption}

theorem foundLong_order (p : LongOption) (i : ℕ) (nameend : List Char) :
    (foundLong argv optstring p i nameend g).vars.order = g.order := by
  unfold foundLong
  dsimp only
  cases nameend with
  | cons c value =>
      dsimp only
      split <;> rfl
  | nil =>
      dsimp only
      split
      · split <;> rfl
      · rfl

theorem processLongOption_order {longOnly : Bool} {a : Answer}
    (h : processLongOption argv optstring longopts longOnly g = some a) :
    a.vars.order = g.order := by
  unfold processLongOption at h
  dsimp only at h
  split at h
  · rw [← Option.some.inj h]
    exact foundLong_order _ _ _
  · rw [← Option.some.inj h]
  · split at h
    · rw [← Option.some.inj h]
    · cases h

/-- An answer that is not of the long options is of variables in the same order. -/
theorem getD_processLongOption_order {longOnly : Bool} {g' : Getopt} {a : Answer}
    (hg : g'.order = g.order) (ha : a.vars.order = g.order) :
    ((processLongOption argv optstring longopts longOnly g').getD a).vars.order = g.order := by
  cases hlong : processLongOption argv optstring longopts longOnly g' with
  | none => exact ha
  | some a' => exact (processLongOption_order hlong).trans hg

theorem shortArgument_order (c : Char) (optional : Bool) :
    (shortArgument argv optstring c optional g).vars.order = g.order := by
  unfold shortArgument
  split
  · rfl
  · split
    · rfl
    · split <;> rfl

theorem dashW_order : (dashW argv optstring longopts g).vars.order = g.order := by
  unfold dashW
  split
  · rfl
  · exact getD_processLongOption_order rfl rfl

theorem processShortOption_order :
    (processShortOption argv optstring longopts g).vars.order = g.order := by
  unfold processShortOption
  dsimp only
  split
  · rfl
  · split
    · exact dashW_order
    · split
      · exact shortArgument_order _ _
      · rfl

theorem optionElement_order :
    (optionElement argv optstring longopts g).vars.order = g.order := by
  unfold optionElement
  dsimp only
  split
  · exact getD_processLongOption_order rfl rfl
  · split
    · exact getD_processLongOption_order rfl processShortOption_order
    · exact processShortOption_order

theorem settle_order : (settle argv g).2.order = g.order := by
  unfold settle
  dsimp only
  split
  · split
    · rfl
    · split <;> rfl
  · rfl

theorem endMarker_order : (endMarker argv g).2.order = g.order := by
  unfold endMarker
  split
  · dsimp only
    split
    · rfl
    · split <;> rfl
  · rfl

theorem nextElement_order :
    (nextElement argv optstring longopts g).2.vars.order = g.order := by
  have hmarker : (endMarker (settle argv g).1 (settle argv g).2).2.order = g.order :=
    endMarker_order.trans settle_order
  unfold nextElement
  dsimp only
  split
  · exact hmarker
  · split
    · split <;> exact hmarker
    · exact optionElement_order.trans hmarker

/-- The order of the elements is fixed by the first call. -/
theorem getoptLongOnly_order (posixlyCorrect : Bool) :
    (getoptLongOnly posixlyCorrect argv optstring longopts g).2.vars.order =
      (beginCall posixlyCorrect optstring g).order := by
  unfold getoptLongOnly
  dsimp only
  split
  · exact nextElement_order
  · exact processShortOption_order

end

end
end KssUtil.Libc
