import KssUtil.Libc.GetoptElements

/-!
# What a call reads

A call of `getopt_long_only` reads the elements from `optind` on.  What it finds does not depend
on those in front of them, which the order of the elements may have moved.
-/

namespace KssUtil.Libc

/-- The same is being read, and the same is left to be read. -/
structure Getopt.Alike (argv argv' : List (List Char)) (g g' : Getopt) : Prop where
  length : argv'.length = argv.length
  optind : g'.optind = g.optind
  optarg : g'.optarg = g.optarg
  nextchar : g'.nextchar = g.nextchar
  rest : argv'.drop g.optind = argv.drop g.optind

/-- Both are answers, with the same read, or none is. -/
def AlikeAnswers (argv argv' : List (List Char)) : Option Answer → Option Answer → Prop :=
  Option.Rel fun a a' => a.vars.Alike argv argv' a'.vars

section

variable {argv argv' : List (List Char)} {optstring : List Char} {longopts : List LongOption}
  {g g' : Getopt}

namespace Getopt.Alike

theorem getD (h : g.Alike argv argv' g') {n : ℕ} (hn : g.optind ≤ n) :
    argv'.getD n [] = argv.getD n [] := by
  obtain ⟨k, rfl⟩ := Nat.exists_eq_add_of_le hn
  rw [List.getD_eq_getElem?_getD, List.getD_eq_getElem?_getD, ← List.getElem?_drop,
    ← List.getElem?_drop, h.rest]

theorem drop (h : g.Alike argv argv' g') {n : ℕ} (hn : g.optind ≤ n) :
    argv'.drop n = argv.drop n := by
  obtain ⟨k, rfl⟩ := Nat.exists_eq_add_of_le hn
  rw [← List.drop_drop, ← List.drop_drop, h.rest]

/-- Both go on in the same way. -/
theorem move (h : g.Alike argv argv' g') {n : ℕ} (hn : g.optind ≤ n) (nextchar : List Char) :
    Getopt.Alike argv argv' { g with optind := n, nextchar := nextchar }
      { g' with optind := n, nextchar := nextchar } :=
  ⟨h.length, rfl, h.optarg, rfl, h.drop hn⟩

theorem give (h : g.Alike argv argv' g') (optarg : Option (List Char)) :
    Getopt.Alike argv argv' { g with optarg := optarg } { g' with optarg := optarg } :=
  ⟨h.length, h.optind, rfl, h.nextchar, h.rest⟩

theorem readChar (h : g.Alike argv argv' g') : Getopt.Alike argv argv' g.readChar g'.readChar := by
  unfold Getopt.readChar
  rw [h.nextchar, h.optind]
  refine h.move ?_ _
  split
  · exact Nat.le_succ _
  · exact Nat.le_refl _

end Getopt.Alike

theorem AlikeAnswers.getD {a a' : Option Answer} {b b' : Answer} (h : AlikeAnswers argv argv' a a')
    (hb : b.vars.Alike argv argv' b'.vars) :
    (a.getD b).vars.Alike argv argv' (a'.getD b').vars := by
  cases h with
  | some h => exact h
  | none => exact hb

/-! ## Options -/

theorem foundLong_alike (h : g.Alike argv argv' g') (optstring : List Char) (p : LongOption) (i : ℕ)
    (nameend : List Char) :
    (foundLong argv optstring p i nameend g).vars.Alike argv argv'
      (foundLong argv' optstring p i nameend g').vars := by
  have hnext : g.optind ≤ g.optind + 1 := Nat.le_succ _
  unfold foundLong
  dsimp only
  rw [h.optind, h.length, h.getD hnext]
  cases nameend with
  | cons c value =>
      dsimp only
      split
      · exact h.move hnext []
      · exact (h.give (some value)).move hnext []
  | nil =>
      dsimp only
      split
      · split
        · exact (h.give (some (argv.getD (g.optind + 1) []))).move
            (hnext.trans (Nat.le_succ _)) []
        · exact h.move hnext []
      · exact h.move hnext []

theorem processLongOption_alike (h : g.Alike argv argv' g') (optstring : List Char)
    (longopts : List LongOption) (longOnly : Bool) :
    AlikeAnswers argv argv' (processLongOption argv optstring longopts longOnly g)
      (processLongOption argv' optstring longopts longOnly g') := by
  have hfailed := h.move (Nat.le_succ g.optind) []
  unfold processLongOption
  dsimp only
  rw [h.nextchar, h.optind, h.getD (Nat.le_refl _)]
  split
  · exact Option.Rel.some (foundLong_alike h _ _ _ _)
  · exact Option.Rel.some hfailed
  · split
    · exact Option.Rel.some hfailed
    · exact Option.Rel.none

theorem shortArgument_alike (h : g.Alike argv argv' g') (optstring : List Char) (c : Char)
    (optional : Bool) :
    (shortArgument argv optstring c optional g).vars.Alike argv argv'
      (shortArgument argv' optstring c optional g').vars := by
  have hnext : g.optind ≤ g.optind + 1 := Nat.le_succ _
  unfold shortArgument
  rw [h.nextchar, h.optind, h.length, h.getD (Nat.le_refl _)]
  split
  · exact (h.give (some g.nextchar)).move hnext []
  · split
    · exact ⟨h.length, rfl, rfl, rfl, h.rest⟩
    · split
      · exact h
      · exact ⟨h.length, rfl, rfl, rfl, h.drop hnext⟩

theorem dashW_alike (h : g.Alike argv argv' g') (optstring : List Char)
    (longopts : List LongOption) :
    (dashW argv optstring longopts g).vars.Alike argv argv'
      (dashW argv' optstring longopts g').vars := by
  unfold dashW
  rw [h.nextchar, h.optind, h.length, h.getD (Nat.le_refl _)]
  split
  · exact h
  · exact (processLongOption_alike ((h.give none).move (Nat.le_refl _) _) _ _ _).getD h

theorem processShortOption_alike (h : g.Alike argv argv' g') (optstring : List Char)
    (longopts : List LongOption) :
    (processShortOption argv optstring longopts g).vars.Alike argv argv'
      (processShortOption argv' optstring longopts g').vars := by
  have hread := h.readChar
  unfold Getopt.readChar at hread
  unfold processShortOption
  dsimp only
  rw [h.nextchar] at hread ⊢
  split
  · exact hread
  · split
    · exact dashW_alike hread _ _
    · split
      · exact shortArgument_alike hread _ _ _
      · exact hread

theorem optionElement_alike (h : g.Alike argv argv' g') (optstring : List Char)
    (longopts : List LongOption) :
    (optionElement argv optstring longopts g).vars.Alike argv argv'
      (optionElement argv' optstring longopts g').vars := by
  have hat := h.move (Nat.le_refl _)
  unfold optionElement
  dsimp only
  rw [h.optind, h.getD (Nat.le_refl _)]
  split
  · exact (processLongOption_alike (hat _) _ _ _).getD h
  · split
    · exact (processLongOption_alike (hat _) _ _ _).getD (processShortOption_alike (hat _) _ _)
    · exact processShortOption_alike (hat _) _ _

/-! ## What is found -/

namespace Finding

theorem foundLong_alike (h : g.Alike argv argv' g') (p : LongOption) (i : ℕ)
    (nameend : List Char) : foundLong argv' p i nameend g' = foundLong argv p i nameend g := by
  unfold foundLong
  rw [h.optind, h.length]

theorem processLongOption_alike (h : g.Alike argv argv' g') (optstring : List Char)
    (longopts : List LongOption) (longOnly : Bool) :
    processLongOption argv' optstring longopts longOnly g' =
      processLongOption argv optstring longopts longOnly g := by
  unfold processLongOption
  rw [h.nextchar, h.optind, h.getD (Nat.le_refl _)]
  simp only [foundLong_alike h]

theorem shortArgument_alike (h : g.Alike argv argv' g') (c : Char) (optional : Bool) :
    shortArgument argv' c optional g' = shortArgument argv c optional g := by
  unfold shortArgument
  rw [h.nextchar, h.optind, h.length]

theorem dashW_alike (h : g.Alike argv argv' g') (optstring : List Char)
    (longopts : List LongOption) :
    dashW argv' optstring longopts g' = dashW argv optstring longopts g := by
  unfold dashW
  rw [h.nextchar, h.optind, h.length, h.getD (Nat.le_refl _)]
  refine if_congr Iff.rfl rfl ?_
  have hgiven := (h.give none).move (Nat.le_refl g.optind)
    (if g.nextchar = [] then argv.getD g.optind [] else g.nextchar)
  exact congrArg (Option.getD · finished) (processLongOption_alike hgiven _ _ _)

theorem processShortOption_alike (h : g.Alike argv argv' g') (optstring : List Char)
    (longopts : List LongOption) :
    processShortOption argv' optstring longopts g' =
      processShortOption argv optstring longopts g := by
  have hread := h.readChar
  unfold Getopt.readChar at hread
  unfold processShortOption
  dsimp only
  rw [h.nextchar] at hread ⊢
  rw [dashW_alike hread, shortArgument_alike hread]

theorem optionElement_alike (h : g.Alike argv argv' g') (optstring : List Char)
    (longopts : List LongOption) :
    optionElement argv' optstring longopts g' = optionElement argv optstring longopts g := by
  have hat := h.move (Nat.le_refl _)
  unfold optionElement
  dsimp only
  rw [h.optind, h.getD (Nat.le_refl _)]
  rw [processLongOption_alike (hat _), processLongOption_alike (hat _),
    processShortOption_alike (hat _)]

end Finding

/-! ## Elements -/

/-- Where an option has been read something is found. -/
theorem Getopt.Reads.ne_finished {f : Finding} {a : Answer} (h : g.Reads a)
    (hanswers : f.Answers optstring longopts a) : f ≠ .finished := by
  rintro rfl
  have hnonneg := h.code
  rw [hanswers.code] at hnonneg
  exact Int.negSucc_not_nonneg 0 |>.mp hnonneg

section

variable {rest : List (List Char)} {w : List Char}

/-- At the same elements of command lines of the same length. -/
theorem Getopt.Between.alike (h : g.Between argv rest) (h' : g'.Between argv' rest)
    (hlength : argv'.length = argv.length) (hoptarg : g'.optarg = g.optarg) :
    g.Alike argv argv' g' := by
  have hoptind : g'.optind = g.optind := by
    have hleft := congrArg List.length h.rest
    have hleft' := congrArg List.length h'.rest
    rw [List.length_drop] at hleft hleft'
    have hwithin := h.within
    have hwithin' := h'.within
    omega
  refine ⟨hlength, hoptind, hoptarg, h'.nextchar.trans h.nextchar.symm, ?_⟩
  rw [← hoptind, h'.rest, hoptind, h.rest]

/-- Two scans that come to the same option read it in the same way. -/
theorem nextElement_alike {rest' rest₁ : List (List Char)} (optstring : List Char)
    (hval : ∀ p ∈ longopts, p.val = 0) (h : g.Between argv rest) (h' : g'.Between argv' rest')
    (hlength : argv'.length = argv.length) (hoptarg : g'.optarg = g.optarg)
    (hahead : g.order.ahead rest = w :: rest₁) (hahead' : g'.order.ahead rest' = w :: rest₁)
    (hoption : isNonoption w = false) (hw : w ≠ ['-', '-']) :
    Finding.nextElement argv' optstring longopts g' =
        Finding.nextElement argv optstring longopts g ∧
      Finding.nextElement argv optstring longopts g ≠ .finished ∧
      (nextElement argv optstring longopts g).2.vars.Alike
        (nextElement argv optstring longopts g).1 (nextElement argv' optstring longopts g').1
        (nextElement argv' optstring longopts g').2.vars := by
  obtain ⟨hnext, hfinding⟩ := nextElement_settled optstring longopts h hahead hoption hw
  obtain ⟨hnext', hfinding'⟩ := nextElement_settled optstring longopts h' hahead' hoption hw
  obtain ⟨hsettled, hlength₁, -, -, hoptarg₁⟩ := settle_between h
  obtain ⟨hsettled', hlength₁', -, -, hoptarg₁'⟩ := settle_between h'
  rw [hahead] at hsettled
  rw [hahead'] at hsettled'
  have halike := hsettled.alike hsettled' (hlength₁'.trans (hlength.trans hlength₁.symm))
    (hoptarg₁'.trans (hoptarg.trans hoptarg₁.symm))
  rw [hfinding, hfinding', hnext, hnext']
  refine ⟨Finding.optionElement_alike halike _ _, ?_, optionElement_alike halike _ _⟩
  exact (optionElement_reads _ _ _ fun p hp => (hval p hp).ge).ne_finished
    (Finding.optionElement_answers _ _ _ hval)

/-- In the order that hands them out, the next operand is handed out. -/
theorem nextElement_operand (optstring : List Char) (longopts : List LongOption)
    (h : g.Between argv (w :: rest)) (horder : g.order = .returnInOrder)
    (hw : isNonoption w = true) :
    Finding.nextElement argv optstring longopts g = .operand ∧
      (nextElement argv optstring longopts g).2.vars.Between
        (nextElement argv optstring longopts g).1 rest := by
  obtain ⟨hbetween, hlength, hsame, -⟩ := settle_between h
  have hahead : g.order.ahead (w :: rest) = w :: rest := by
    rw [horder]
    rfl
  rw [hahead] at hbetween
  have hlt := hbetween.lt
  rw [hlength] at hlt
  have hne : w ≠ ['-', '-'] := by
    rintro rfl
    cases hw
  have hrequire : (settle argv g).2.order ≠ .requireOrder := by
    rw [hsame, horder]
    exact nofun
  unfold nextElement Finding.nextElement
  dsimp only
  rw [endMarker_of_ne hbetween hne]
  dsimp only
  rw [if_neg (Nat.ne_of_lt hlt), if_neg (Nat.ne_of_lt hlt), hbetween.getD, hw, if_pos rfl,
    if_pos rfl, if_neg hrequire, if_neg hrequire]
  refine ⟨rfl, ?_⟩
  have hnext := hbetween.next (some w)
  rwa [← hbetween.nextchar] at hnext

/-- The end of the options is found. -/
theorem Finding.nextElement_end (optstring : List Char) (hval : ∀ p ∈ longopts, p.val = 0)
    (h : g.Between argv rest) (hend : ∀ w ∈ (g.order.ahead rest).head?,
      w = ['-', '-'] ∨ g.order = .requireOrder ∧ isNonoption w = true) :
    Finding.nextElement argv optstring longopts g = .finished := by
  by_contra hf
  apply Finding.code_ne_neg_one optstring hf
  rw [← (Finding.nextElement_answers argv optstring g hval).code]
  exact Libc.nextElement_end optstring longopts h hend

end

/-! ## Calls -/

theorem beginCall_of_initialized (posixlyCorrect : Bool) (optstring : List Char)
    (hinit : g.initialized = true) (hoptind : 1 ≤ g.optind) :
    beginCall posixlyCorrect optstring g = { g with optarg := none } := by
  unfold beginCall
  rw [if_neg]
  rintro (hzero | hoff)
  · exact Nat.one_le_iff_ne_zero.mp hoptind hzero
  · exact hoff hinit

/-- A call on variables that there are goes on from them. -/
theorem getoptLongOnly_of_initialized (posixlyCorrect : Bool) (argv : List (List Char))
    (optstring : List Char) (longopts : List LongOption) (hinit : g.initialized = true)
    (hoptind : 1 ≤ g.optind) :
    getoptLongOnly posixlyCorrect argv optstring longopts g =
        (if g.nextchar = [] then
          nextElement argv (optionChars optstring) longopts { g with optarg := none }
        else (argv, processShortOption argv (optionChars optstring) longopts
          { g with optarg := none })) ∧
      getoptFinding posixlyCorrect argv optstring longopts g =
        if g.nextchar = [] then
          Finding.nextElement argv (optionChars optstring) longopts { g with optarg := none }
        else Finding.processShortOption argv (optionChars optstring) longopts
          { g with optarg := none } := by
  have hbegin := beginCall_of_initialized posixlyCorrect optstring hinit hoptind
  unfold getoptLongOnly getoptFinding
  rw [hbegin]
  exact ⟨rfl, rfl⟩

/-- What a call leaves that finds something -/
theorem getoptLongOnly_found (posixlyCorrect : Bool) (optstring : List Char)
    (hval : ∀ p ∈ longopts, p.val = 0) (hfits : g.Fits argv.length) (hinit : g.initialized = true)
    (hf : getoptFinding posixlyCorrect argv optstring longopts g ≠ .finished) :
    let r := getoptLongOnly posixlyCorrect argv optstring longopts g
    r.1.length = argv.length ∧ r.2.vars.Fits r.1.length ∧ r.2.vars.initialized = true ∧
      r.2.vars.order = g.order := by
  have hval' : ∀ p ∈ longopts, 0 ≤ p.val := fun p hp => (hval p hp).ge
  have hcode := Finding.code_ne_neg_one (optionChars optstring) hf
  rw [← (getoptLongOnly_answers posixlyCorrect argv optstring hval g).code] at hcode
  have hlength := (getoptLongOnly_leaves posixlyCorrect argv optstring longopts hfits).length
  have hafter := getoptLongOnly_fits posixlyCorrect argv optstring hval' hfits hcode
  rw [← hlength] at hafter
  refine ⟨hlength, hafter,
    getoptLongOnly_initialized posixlyCorrect argv optstring hval' hfits.toPlaced, ?_⟩
  rw [getoptLongOnly_order, beginCall_of_initialized _ _ hinit hfits.optind]

theorem Getopt.Fits.between (h : g.Fits argv.length) (hinit : g.initialized = true)
    (hnext : g.nextchar = []) :
    Getopt.Between argv (argv.drop g.optind) { g with optarg := none } :=
  ⟨h.optind, h.within.optind, hnext, h.nonopts hinit, rfl⟩

/-- An operand, in the order that hands it out -/
theorem getoptLongOnly_operand {rest : List (List Char)} {w : List Char} (posixlyCorrect : Bool)
    (optstring : List Char) (hval : ∀ p ∈ longopts, p.val = 0) (hfits : g.Fits argv.length)
    (hinit : g.initialized = true) (hnext : g.nextchar = []) (horder : g.order = .returnInOrder)
    (hrest : argv.drop g.optind = w :: rest) (hw : isNonoption w = true) :
    let r := getoptLongOnly posixlyCorrect argv optstring longopts g
    getoptFinding posixlyCorrect argv optstring longopts g = .operand ∧
      r.1.length = argv.length ∧ r.2.vars.Fits r.1.length ∧ r.2.vars.initialized = true ∧
      r.2.vars.order = g.order ∧ r.2.vars.nextchar = [] ∧ r.1.drop r.2.vars.optind = rest := by
  have hbetween := hfits.between hinit hnext
  rw [hrest] at hbetween
  obtain ⟨hcall, hfinding⟩ :=
    getoptLongOnly_of_initialized posixlyCorrect argv optstring longopts hinit hfits.optind
  rw [if_pos hnext] at hcall hfinding
  obtain ⟨hoperand, hafter⟩ :=
    nextElement_operand (optionChars optstring) longopts hbetween horder hw
  rw [← hcall] at hafter
  rw [← hfinding] at hoperand
  have hmore : getoptFinding posixlyCorrect argv optstring longopts g ≠ .finished := by
    rw [hoperand]
    exact nofun
  obtain ⟨hlength, hfits', hinit', horder'⟩ :=
    getoptLongOnly_found posixlyCorrect optstring hval hfits hinit hmore
  exact ⟨hoperand, hlength, hfits', hinit', horder', hafter.nextchar, hafter.rest⟩

/-- The scan of `g'` hands out the operands that the scan of `g` passes over, and both are at the
same option, or come to the same one. -/
structure Getopt.Follows (argv argv' : List (List Char)) (g g' : Getopt) : Prop where
  length : argv'.length = argv.length
  fits : g.Fits argv.length
  fits' : g'.Fits argv'.length
  initialized : g.initialized = true
  initialized' : g'.initialized = true
  order : g.order = .permute
  order' : g'.order = .returnInOrder
  place : g.nextchar ≠ [] ∧
      Getopt.Alike argv argv' { g with optarg := none } { g' with optarg := none } ∨
    g.nextchar = [] ∧ g'.nextchar = [] ∧
      (argv'.drop g'.optind).dropWhile isNonoption = (argv.drop g.optind).dropWhile isNonoption

/-- Where two scans have read the same, they are at the same place. -/
theorem Getopt.Alike.place (h : g.Alike argv argv' g') : g.nextchar ≠ [] ∧
      Getopt.Alike argv argv' { g with optarg := none } { g' with optarg := none } ∨
    g.nextchar = [] ∧ g'.nextchar = [] ∧
      (argv'.drop g'.optind).dropWhile isNonoption =
        (argv.drop g.optind).dropWhile isNonoption := by
  by_cases hnext : g.nextchar = []
  · refine Or.inr ⟨hnext, h.nextchar.trans hnext, ?_⟩
    rw [h.optind, h.rest]
  · exact Or.inl ⟨hnext, h.give none⟩

/-- What the two scans come to: the second hands out an operand, or both come to the end, or both
find the same. -/
inductive Getopt.Follows.Step (posixlyCorrect : Bool) (optstring : List Char)
    (longopts : List LongOption) (argv argv' : List (List Char)) (g g' : Getopt) : Prop where
  | operand
      (hfinding : getoptFinding posixlyCorrect argv' optstring longopts g' = .operand)
      (hafter : Getopt.Follows argv (getoptLongOnly posixlyCorrect argv' optstring longopts g').1 g
        (getoptLongOnly posixlyCorrect argv' optstring longopts g').2.vars) :
      Step posixlyCorrect optstring longopts argv argv' g g'
  | finished
      (hfinding : getoptFinding posixlyCorrect argv optstring longopts g = .finished)
      (hfinding' : getoptFinding posixlyCorrect argv' optstring longopts g' = .finished) :
      Step posixlyCorrect optstring longopts argv argv' g g'
  | found
      (hfinding : getoptFinding posixlyCorrect argv' optstring longopts g' =
        getoptFinding posixlyCorrect argv optstring longopts g)
      (hmore : getoptFinding posixlyCorrect argv optstring longopts g ≠ .finished)
      (halike : (getoptLongOnly posixlyCorrect argv optstring longopts g).2.vars.Alike
        (getoptLongOnly posixlyCorrect argv optstring longopts g).1
        (getoptLongOnly posixlyCorrect argv' optstring longopts g').1
        (getoptLongOnly posixlyCorrect argv' optstring longopts g').2.vars) :
      Step posixlyCorrect optstring longopts argv argv' g g'

/-- Two scans that find the same go on from there. -/
theorem Getopt.Follows.found {posixlyCorrect : Bool} {optstring : List Char}
    (hval : ∀ p ∈ longopts, p.val = 0) (h : g.Follows argv argv' g')
    (hfinding : getoptFinding posixlyCorrect argv' optstring longopts g' =
      getoptFinding posixlyCorrect argv optstring longopts g)
    (hmore : getoptFinding posixlyCorrect argv optstring longopts g ≠ .finished)
    (halike : (getoptLongOnly posixlyCorrect argv optstring longopts g).2.vars.Alike
      (getoptLongOnly posixlyCorrect argv optstring longopts g).1
      (getoptLongOnly posixlyCorrect argv' optstring longopts g').1
      (getoptLongOnly posixlyCorrect argv' optstring longopts g').2.vars) :
    Getopt.Follows (getoptLongOnly posixlyCorrect argv optstring longopts g).1
      (getoptLongOnly posixlyCorrect argv' optstring longopts g').1
      (getoptLongOnly posixlyCorrect argv optstring longopts g).2.vars
      (getoptLongOnly posixlyCorrect argv' optstring longopts g').2.vars := by
  obtain ⟨hlength, hfits, hinit, horder⟩ :=
    getoptLongOnly_found posixlyCorrect optstring hval h.fits h.initialized hmore
  rw [← hfinding] at hmore
  obtain ⟨hlength', hfits', hinit', horder'⟩ :=
    getoptLongOnly_found posixlyCorrect optstring hval h.fits' h.initialized' hmore
  exact ⟨hlength'.trans (h.length.trans hlength.symm), hfits, hfits', hinit, hinit',
    horder.trans h.order, horder'.trans h.order', halike.place⟩

/-- **The step lemma.** -/
theorem Getopt.Follows.step (posixlyCorrect : Bool) (optstring : List Char)
    (hval : ∀ p ∈ longopts, p.val = 0) (h : g.Follows argv argv' g') :
    Getopt.Follows.Step posixlyCorrect optstring longopts argv argv' g g' := by
  have hval' : ∀ p ∈ longopts, 0 ≤ p.val := fun p hp => (hval p hp).ge
  obtain ⟨hcall, hfinding⟩ := getoptLongOnly_of_initialized posixlyCorrect argv optstring longopts
    h.initialized h.fits.optind
  obtain ⟨hcall', hfinding'⟩ := getoptLongOnly_of_initialized posixlyCorrect argv' optstring
    longopts h.initialized' h.fits'.optind
  rcases h.place with ⟨hnext, halike⟩ | ⟨hnext, hnext', hsame⟩
  · have hnext' : g'.nextchar ≠ [] := halike.nextchar.trans_ne hnext
    rw [if_neg hnext] at hcall hfinding
    rw [if_neg hnext'] at hcall' hfinding'
    refine .found ?_ ?_ ?_
    · rw [hfinding, hfinding', Finding.processShortOption_alike halike]
    · rw [hfinding]
      exact (processShortOption_reads _ _ _ hval').ne_finished
        (Finding.processShortOption_answers _ _ _ hval)
    · rw [hcall, hcall']
      exact processShortOption_alike halike _ _
  · have hbetween := h.fits.between h.initialized hnext
    have hbetween' := h.fits'.between h.initialized' hnext'
    rw [if_pos hnext] at hcall hfinding
    rw [if_pos hnext'] at hcall' hfinding'
    generalize hrest : argv.drop g.optind = rest at hbetween hsame
    generalize hrest' : argv'.drop g'.optind = rest' at hbetween' hsame
    have hahead : g.order.ahead rest = rest'.dropWhile isNonoption := by
      rw [h.order, hsame]
      rfl
    have hahead' : g'.order.ahead rest' = rest' := by
      rw [h.order']
      rfl
    by_cases hend : ∀ w ∈ rest'.head?, w = ['-', '-']
    · have hskip : rest'.dropWhile isNonoption = rest' := by
        cases rest' with
        | nil => rfl
        | cons w rest' =>
            obtain rfl := hend w rfl
            rfl
      refine .finished ?_ ?_
      · rw [hfinding]
        refine Finding.nextElement_end _ hval hbetween ?_
        rw [hahead, hskip]
        exact fun w hw => Or.inl (hend w hw)
      · rw [hfinding']
        refine Finding.nextElement_end _ hval hbetween' ?_
        rw [hahead']
        exact fun w hw => Or.inl (hend w hw)
    · cases rest' with
      | nil => exact absurd nofun hend
      | cons w rest' =>
          have hne : w ≠ ['-', '-'] := by
            rintro rfl
            apply hend
            intro w hw
            exact (Option.some.inj hw).symm
          cases hw : isNonoption w with
          | true =>
              obtain ⟨hoperand, hlength, hfits, hinit, horder, hnext'', hrest''⟩ :=
                getoptLongOnly_operand posixlyCorrect optstring hval h.fits' h.initialized' hnext'
                  h.order' hrest' hw
              refine .operand hoperand ⟨hlength.trans h.length, h.fits, hfits, h.initialized, hinit,
                h.order, horder.trans h.order', Or.inr ⟨hnext, hnext'', ?_⟩⟩
              rw [hrest'', hrest, ← hsame, List.dropWhile_cons_of_pos hw]
          | false =>
              rw [List.dropWhile_cons_of_neg (ne_true_of_eq_false hw)] at hahead
              obtain ⟨hsameFinding, hmore, halike⟩ := nextElement_alike
                (optionChars optstring) hval hbetween hbetween' h.length rfl hahead hahead' hw hne
              refine .found ?_ ?_ ?_
              · rw [hfinding, hfinding', hsameFinding]
              · rwa [hfinding]
              · rwa [hcall, hcall']

end
end KssUtil.Libc
