import KssUtil.Libc.GetoptVariables

/-!
# How far `getopt` is

A call that finds something leaves less to be read, so that every command line is read to
its end.
-/

namespace KssUtil.Libc

namespace Getopt

/-- At an element of a command line of `argc` elements, or at its end -/
structure Within (argc : ℕ) (g : Getopt) : Prop where
  optind : g.optind ≤ argc
  nextchar : g.nextchar ≠ [] → g.optind < argc

/-- The elements that wait to be moved are in front of the next one. -/
structure Ordered (argc : ℕ) (g : Getopt) : Prop where
  nonopts : g.firstNonopt ≤ g.lastNonopt
  lastNonopt : g.lastNonopt ≤ g.optind
  optind : g.optind ≤ argc

/-- What calls leave, whatever command line they have been at -/
structure Kept (g : Getopt) : Prop extends Placed g where
  nonopts : g.initialized = true → g.firstNonopt ≤ g.lastNonopt
  fresh : g.initialized = false → g.nextchar = []

theorem kept_start : ({} : Getopt).Kept :=
  ⟨⟨Nat.le_refl 1, nofun, nofun⟩, nofun, fun _ => rfl⟩

/-- The variables as the next command line begins with them -/
theorem Kept.rewind {g : Getopt} (h : g.Kept) : Kept { g with optind := 1 } :=
  ⟨⟨Nat.le_refl 1, h.firstNonopt, h.lastNonopt⟩, h.nonopts, h.fresh⟩

/-- What a call needs of the variables it finds -/
structure Fits (argc : ℕ) (g : Getopt) : Prop extends Kept g where
  within : g.Within argc

/-- The element is read to its end, with its argument. -/
structure Consumes (argc : ℕ) (g : Getopt) (a : Answer) : Prop where
  nextchar : a.vars.nextchar = []
  optind : a.vars.optind ≤ argc
  stays : g.optind ≤ a.vars.optind
  moves : g.nextchar ≠ [] → g.optind < a.vars.optind

/-- There is less to be read: of the elements, or of the characters of this one. -/
structure Advances (argc : ℕ) (g : Getopt) (a : Answer) : Prop where
  within : a.vars.Within argc
  moves : g.optind < a.vars.optind ∨ g.optind ≤ a.vars.optind ∧ a.vars.nextchar ≠ [] ∧
    (g.nextchar = [] ∨ a.vars.nextchar.length < g.nextchar.length)

/-- What there is to be read: elements, whether this one is begun, and its characters -/
def unread (argc : ℕ) (g : Getopt) : ℕ × ℕ × ℕ :=
  (argc - g.optind, if g.nextchar = [] then 1 else 0, g.nextchar.length)

theorem Advances.unread_lt {argc : ℕ} {g : Getopt} {a : Answer} (h : g.Advances argc a) :
    Prod.Lex (· < ·) (Prod.Lex (· < ·) (· < ·)) (a.vars.unread argc) (g.unread argc) := by
  have hle := h.within.optind
  unfold unread
  rcases h.moves with hlt | ⟨hstays, hne, hchars⟩
  · exact Prod.Lex.left _ _ (Nat.sub_lt_sub_left (Nat.lt_of_lt_of_le hlt hle) hlt)
  · rcases Nat.lt_or_eq_of_le hstays with hlt | heq
    · exact Prod.Lex.left _ _ (Nat.sub_lt_sub_left (Nat.lt_of_lt_of_le hlt hle) hlt)
    · rw [heq, if_neg hne]
      refine Prod.Lex.right _ ?_
      by_cases hnil : g.nextchar = []
      · rw [if_pos hnil]
        exact Prod.Lex.left _ _ Nat.zero_lt_one
      · rw [if_neg hnil]
        exact Prod.Lex.right _ (hchars.resolve_left hnil)

theorem Consumes.advances {argc : ℕ} {g g' : Getopt} {a : Answer} (h : g'.Consumes argc a)
    (hlt : g.optind < a.vars.optind) : g.Advances argc a :=
  ⟨⟨h.optind, fun hne => absurd h.nextchar hne⟩, Or.inl hlt⟩

end Getopt

section

variable {argv : List (List Char)} {optstring : List Char} {longopts : List LongOption} {g : Getopt}

/-! ## Options -/

theorem foundLong_consumes (hlt : g.optind < argv.length) (p : LongOption) (i : ℕ)
    (nameend : List Char) : g.Consumes argv.length (foundLong argv optstring p i nameend g) ∧
      g.optind < (foundLong argv optstring p i nameend g).vars.optind := by
  have hnext : g.optind < g.optind + 1 := Nat.lt_succ_self _
  unfold foundLong
  dsimp only
  cases nameend with
  | cons c value =>
      dsimp only
      split
      · exact ⟨⟨rfl, hlt, Nat.le_succ _, fun _ => hnext⟩, hnext⟩
      · exact ⟨⟨rfl, hlt, Nat.le_succ _, fun _ => hnext⟩, hnext⟩
  | nil =>
      dsimp only
      split
      · split
        · rename_i hargument
          have hnext' : g.optind < g.optind + 1 + 1 := hnext.trans (Nat.lt_succ_self _)
          exact ⟨⟨rfl, hargument, Nat.le_of_lt hnext', fun _ => hnext'⟩, hnext'⟩
        · exact ⟨⟨rfl, hlt, Nat.le_succ _, fun _ => hnext⟩, hnext⟩
      · exact ⟨⟨rfl, hlt, Nat.le_succ _, fun _ => hnext⟩, hnext⟩

theorem processLongOption_consumes {longOnly : Bool} {a : Answer} (hlt : g.optind < argv.length)
    (h : processLongOption argv optstring longopts longOnly g = some a) :
    g.Consumes argv.length a ∧ g.optind < a.vars.optind := by
  have hnext : g.optind < g.optind + 1 := Nat.lt_succ_self _
  have hfailed : g.Consumes argv.length
      { code := unknownCode, vars := { g with optind := g.optind + 1, nextchar := [] } } :=
    ⟨rfl, hlt, Nat.le_succ _, fun _ => hnext⟩
  unfold processLongOption at h
  dsimp only at h
  split at h
  · rw [← Option.some.inj h]
    exact foundLong_consumes hlt _ _ _
  · rw [← Option.some.inj h]
    exact ⟨hfailed, hnext⟩
  · split at h
    · rw [← Option.some.inj h]
      exact ⟨hfailed, hnext⟩
    · cases h

theorem shortArgument_consumes (h : g.Within argv.length) (c : Char) (optional : Bool) :
    g.Consumes argv.length (shortArgument argv optstring c optional g) := by
  unfold shortArgument
  split
  · rename_i hne
    exact ⟨rfl, h.nextchar hne, Nat.le_succ _, fun _ => Nat.lt_succ_self _⟩
  · rename_i hnil
    rw [not_not] at hnil
    split
    · exact ⟨hnil, h.optind, Nat.le_refl _, fun hne => absurd hnil hne⟩
    · split
      · exact ⟨hnil, h.optind, Nat.le_refl _, fun hne => absurd hnil hne⟩
      · rename_i hend
        exact ⟨hnil, Nat.lt_of_le_of_ne h.optind hend, Nat.le_succ _, fun hne => absurd hnil hne⟩

theorem dashW_consumes (h : g.Within argv.length) :
    g.Consumes argv.length (dashW argv optstring longopts g) := by
  unfold dashW
  split
  · rename_i hend
    exact ⟨hend.1, h.optind, Nat.le_refl _, fun hne => absurd hend.1 hne⟩
  · rename_i hmore
    have hlt : g.optind < argv.length := by
      by_cases hnil : g.nextchar = []
      · exact Nat.lt_of_le_of_ne h.optind fun hend => hmore ⟨hnil, hend⟩
      · exact h.nextchar hnil
    dsimp only
    obtain ⟨a, ha⟩ := processLongOption_some argv optstring longopts false
      { g with nextchar := if g.nextchar = [] then argv.getD g.optind [] else g.nextchar,
               optarg := none } (Or.inl rfl)
    rw [ha]
    have hlt' : Getopt.optind { g with nextchar := if g.nextchar = [] then argv.getD g.optind []
                                                   else g.nextchar,
                                       optarg := none } < argv.length := hlt
    obtain ⟨hconsumes, hmoves⟩ := processLongOption_consumes hlt' ha
    exact ⟨hconsumes.nextchar, hconsumes.optind, hconsumes.stays, fun _ => hmoves⟩

/-- The variables with a character of the element read -/
def Getopt.readChar (g : Getopt) : Getopt :=
  { g with nextchar := g.nextchar.tail,
           optind := if g.nextchar.tail = [] then g.optind + 1 else g.optind }

theorem Getopt.readChar_advances (h : g.Within argv.length) (hne : g.nextchar ≠ []) (code : ℤ) :
    g.Advances argv.length { code, vars := g.readChar } := by
  have hlt := h.nextchar hne
  unfold readChar
  by_cases hnil : g.nextchar.tail = []
  · rw [hnil, if_pos rfl]
    exact ⟨⟨hlt, fun hne => absurd rfl hne⟩, Or.inl (Nat.lt_succ_self _)⟩
  · rw [if_neg hnil]
    refine ⟨⟨h.optind, fun _ => hlt⟩, Or.inr ⟨Nat.le_refl _, hnil, Or.inr ?_⟩⟩
    dsimp only
    rw [List.length_tail]
    exact Nat.sub_one_lt (mt List.length_eq_zero_iff.mp hne)

theorem Getopt.Consumes.of_readChar {a : Answer} (h : g.readChar.Consumes argv.length a) :
    g.Advances argv.length a := by
  apply h.advances
  by_cases hnil : g.nextchar.tail = []
  · have hstays := h.stays
    unfold readChar at hstays
    rw [if_pos hnil] at hstays
    exact hstays
  · have hmoves := h.moves hnil
    unfold readChar at hmoves
    rw [if_neg hnil] at hmoves
    exact hmoves

theorem processShortOption_advances (optstring : List Char) (longopts : List LongOption)
    (h : g.Within argv.length) (hne : g.nextchar ≠ []) :
    g.Advances argv.length (processShortOption argv optstring longopts g) := by
  have hread : ∀ code, g.Advances argv.length { code, vars := g.readChar } :=
    Getopt.readChar_advances h hne
  have hwithin : g.readChar.Within argv.length := (hread 0).within
  unfold processShortOption
  dsimp only
  split
  · exact hread _
  · split
    · exact Getopt.Consumes.of_readChar (dashW_consumes hwithin)
    · split
      · exact Getopt.Consumes.of_readChar (shortArgument_consumes hwithin _ _)
      · exact hread _

/-- An option takes two elements behind the one it is in at most. -/
theorem foundLong_optind_le (p : LongOption) (i : ℕ) (nameend : List Char) :
    (foundLong argv optstring p i nameend g).vars.optind ≤ g.optind + 2 := by
  unfold foundLong
  dsimp only
  cases nameend with
  | cons c value =>
      dsimp only
      split <;> exact Nat.le_succ _
  | nil =>
      dsimp only
      split
      · split
        · exact Nat.le_refl _
        · exact Nat.le_succ _
      · exact Nat.le_succ _

theorem processLongOption_optind_le {longOnly : Bool} {a : Answer}
    (h : processLongOption argv optstring longopts longOnly g = some a) :
    a.vars.optind ≤ g.optind + 2 := by
  unfold processLongOption at h
  dsimp only at h
  split at h
  · rw [← Option.some.inj h]
    exact foundLong_optind_le _ _ _
  · rw [← Option.some.inj h]
    exact Nat.le_succ _
  · split at h
    · rw [← Option.some.inj h]
      exact Nat.le_succ _
    · cases h

theorem shortArgument_optind_le (c : Char) (optional : Bool) :
    (shortArgument argv optstring c optional g).vars.optind ≤ g.optind + 2 := by
  unfold shortArgument
  split
  · exact Nat.le_succ _
  · split
    · exact Nat.le_add_right _ _
    · split
      · exact Nat.le_add_right _ _
      · exact Nat.le_succ _

theorem dashW_optind_le : (dashW argv optstring longopts g).vars.optind ≤ g.optind + 2 := by
  unfold dashW
  split
  · exact Nat.le_add_right _ _
  · dsimp only
    obtain ⟨a, ha⟩ := processLongOption_some argv optstring longopts false
      { g with nextchar := if g.nextchar = [] then argv.getD g.optind [] else g.nextchar,
               optarg := none } (Or.inl rfl)
    have hle := processLongOption_optind_le ha
    rwa [ha]

/-- In the middle of an element nothing is read far behind it, and nothing at all while it is not
read to its end. -/
theorem processShortOption_optind_le (optstring : List Char) (longopts : List LongOption)
    (h : g.Within argv.length) (hne : g.nextchar ≠ []) :
    let a := processShortOption argv optstring longopts g
    a.vars.optind ≤ g.optind + 3 ∧ (a.vars.nextchar ≠ [] → a.vars.optind = g.optind) := by
  have hwithin : g.readChar.Within argv.length := (Getopt.readChar_advances h hne 0).within
  have hread : g.readChar.optind ≤ g.optind + 1 := by
    unfold Getopt.readChar
    dsimp only
    split
    · exact Nat.le_refl _
    · exact Nat.le_succ _
  have hstays : g.readChar.nextchar ≠ [] → g.readChar.optind = g.optind := fun hmore => if_neg hmore
  unfold processShortOption
  dsimp only
  split
  · exact ⟨hread.trans (Nat.le_add_right _ 2), hstays⟩
  · split
    · exact ⟨dashW_optind_le.trans (Nat.add_le_add_right hread 2),
        fun hmore => absurd (dashW_consumes hwithin).nextchar hmore⟩
    · split
      · exact ⟨(shortArgument_optind_le _ _).trans (Nat.add_le_add_right hread 2),
          fun hmore => absurd (shortArgument_consumes hwithin _ _).nextchar hmore⟩
      · exact ⟨hread.trans (Nat.le_add_right _ 2), hstays⟩

theorem optionElement_advances (optstring : List Char) (longopts : List LongOption)
    (hlt : g.optind < argv.length) (hnil : g.nextchar = [])
    (hoption : isNonoption (argv.getD g.optind []) = false) :
    g.Advances argv.length (optionElement argv optstring longopts g) := by
  -- behind the dash there is something
  have hrest : (argv.getD g.optind []).drop 1 ≠ [] := by
    intro hrest
    rw [isNonoption, decide_eq_false_iff_not, not_or, not_not] at hoption
    cases harg : argv.getD g.optind [] with
    | nil =>
        rw [harg] at hoption
        cases hoption.1
    | cons c cs =>
        rw [harg] at hoption hrest
        apply hoption.2
        rw [List.length_cons]
        exact congrArg (· + 1) (List.length_eq_zero_iff.mpr hrest)
  have hlong : ∀ {nextchar : List Char} {a : Answer}, processLongOption argv optstring longopts true
      { g with nextchar } = some a → g.Advances argv.length a := by
    intro nextchar a ha
    have hlt' : Getopt.optind { g with nextchar } < argv.length := hlt
    obtain ⟨hconsumes, hmoves⟩ := processLongOption_consumes hlt' ha
    exact hconsumes.advances hmoves
  have hshort : g.Advances argv.length (processShortOption argv optstring longopts
      { g with nextchar := (argv.getD g.optind []).drop 1 }) := by
    have hadvances := processShortOption_advances optstring longopts
      (g := { g with nextchar := (argv.getD g.optind []).drop 1 })
      ⟨Nat.le_of_lt hlt, fun _ => hlt⟩ hrest
    refine ⟨hadvances.within, hadvances.moves.imp_right ?_⟩
    rintro ⟨hstays, hne, -⟩
    exact ⟨hstays, hne, Or.inl hnil⟩
  unfold optionElement
  dsimp only
  split
  · rename_i hdash
    obtain ⟨a, ha⟩ := processLongOption_some argv optstring longopts true
      { g with nextchar := (argv.getD g.optind []).drop 2 } (Or.inr hdash)
    rw [ha]
    exact hlong ha
  · split
    · cases ha : processLongOption argv optstring longopts true
        { g with nextchar := (argv.getD g.optind []).drop 1 } with
      | none => exact hshort
      | some a => exact hlong ha
    · exact hshort

/-! ## Elements -/

theorem exchange_ordered (h : g.Ordered argv.length) :
    (exchange argv g).1.length = argv.length ∧ (exchange argv g).2.Ordered argv.length := by
  obtain ⟨hnonopts, hlast, hoptind⟩ := h
  refine ⟨?_, ?_, Nat.le_refl _, hoptind⟩
  · simp only [exchange, List.length_append, List.length_take, List.length_drop]
    omega
  · dsimp only [exchange]
    omega

theorem settle_ordered (hnonopts : g.firstNonopt ≤ g.lastNonopt)
    (hoptind : g.optind ≤ argv.length) :
    (settle argv g).1.length = argv.length ∧ (settle argv g).2.Ordered argv.length ∧
      g.optind ≤ (settle argv g).2.optind := by
  have hclipped : Getopt.Ordered argv.length { g with lastNonopt := min g.lastNonopt g.optind,
                                                      firstNonopt := min g.firstNonopt g.optind } :=
    ⟨min_le_min_right _ hnonopts, min_le_right _ _, hoptind⟩
  -- the elements that are skipped only move `optind` on
  have hskip : ∀ {argv' : List (List Char)} {g' : Getopt}, argv'.length = argv.length →
      g'.firstNonopt ≤ g'.optind → g'.optind ≤ argv.length →
      Getopt.Ordered argv.length
        { g' with optind := g'.optind + ((argv'.drop g'.optind).takeWhile isNonoption).length,
                  lastNonopt :=
                    g'.optind + ((argv'.drop g'.optind).takeWhile isNonoption).length } := by
    intro argv' g' hlength hfirst hoptind'
    have hskipped : ((argv'.drop g'.optind).takeWhile isNonoption).length ≤
        (argv'.drop g'.optind).length := (List.takeWhile_sublist isNonoption).length_le
    rw [List.length_drop, hlength] at hskipped
    refine ⟨?_, Nat.le_refl _, ?_⟩
    · dsimp only
      omega
    · dsimp only
      omega
  unfold settle
  dsimp only
  split
  · split
    · obtain ⟨hlength, hexchanged⟩ := exchange_ordered hclipped
      exact ⟨hlength, hskip hlength (hexchanged.nonopts.trans hexchanged.lastNonopt)
        hexchanged.optind, Nat.le_add_right _ _⟩
    · split
      · exact ⟨rfl, hskip rfl (Nat.le_refl _) hoptind, Nat.le_add_right _ _⟩
      · exact ⟨rfl, hskip rfl (hclipped.nonopts.trans hclipped.lastNonopt) hoptind,
          Nat.le_add_right _ _⟩
  · exact ⟨rfl, hclipped, Nat.le_refl _⟩

theorem endMarker_ordered (h : g.Ordered argv.length) :
    (endMarker argv g).1.length = argv.length ∧ (endMarker argv g).2.Ordered argv.length ∧
      g.optind ≤ (endMarker argv g).2.optind := by
  unfold endMarker
  split
  · rename_i hmarker
    have hlt : g.optind < argv.length := (List.getElem?_eq_some_iff.mp hmarker).1
    have hnext : Getopt.Ordered argv.length { g with optind := g.optind + 1 } :=
      ⟨h.nonopts, h.lastNonopt.trans (Nat.le_succ _), hlt⟩
    dsimp only
    split
    · obtain ⟨hlength, hexchanged⟩ := exchange_ordered hnext
      refine ⟨hlength, ⟨?_, Nat.le_refl _, Nat.le_refl _⟩, h.optind⟩
      exact (hexchanged.nonopts.trans hexchanged.lastNonopt).trans hexchanged.optind
    · split
      · exact ⟨rfl, ⟨hlt, Nat.le_refl _, Nat.le_refl _⟩, h.optind⟩
      · refine ⟨rfl, ⟨?_, Nat.le_refl _, Nat.le_refl _⟩, h.optind⟩
        exact (h.nonopts.trans h.lastNonopt).trans h.optind
  · exact ⟨rfl, h, Nat.le_refl _⟩

/-- The elements that wait to be moved are in front of the next one, wherever that is. -/
theorem settle_nonopts (argv : List (List Char)) (h : g.firstNonopt ≤ g.lastNonopt) :
    (settle argv g).2.firstNonopt ≤ (settle argv g).2.lastNonopt ∧
      (settle argv g).2.lastNonopt ≤ (settle argv g).2.optind := by
  have hmin : min g.firstNonopt g.optind ≤ min g.lastNonopt g.optind := min_le_min_right _ h
  have hlast : min g.lastNonopt g.optind ≤ g.optind := min_le_right _ _
  unfold settle exchange
  dsimp only
  split
  · split
    · dsimp only
      omega
    · split
      · dsimp only
        omega
      · dsimp only
        omega
  · exact ⟨hmin, hlast⟩

theorem endMarker_nonopts (argv : List (List Char))
    (h : g.firstNonopt ≤ g.lastNonopt ∧ g.lastNonopt ≤ g.optind) :
    (endMarker argv g).2.firstNonopt ≤ (endMarker argv g).2.lastNonopt := by
  unfold endMarker exchange
  split
  · rename_i hmarker
    have hlt : g.optind < argv.length := (List.getElem?_eq_some_iff.mp hmarker).1
    dsimp only
    split
    · dsimp only
      omega
    · split
      · dsimp only
        omega
      · dsimp only
        omega
  · exact h.1

/-- What is left for the next call -/
structure Getopt.Leaves (argc : ℕ) (g : Getopt) (r : List (List Char) × Answer) : Prop where
  length : r.1.length = argc
  advances : r.2.code ≠ -1 → g.Advances argc r.2

theorem nextElement_leaves (argv : List (List Char)) (optstring : List Char)
    (longopts : List LongOption) (h : g.Begun) (hnil : g.nextchar = [])
    (hnonopts : g.firstNonopt ≤ g.lastNonopt) (hoptind : g.optind ≤ argv.length) :
    g.Leaves argv.length (nextElement argv optstring longopts g) := by
  obtain ⟨hsettled, hsame⟩ := settle_begun argv h
  obtain ⟨hmarked, hsame'⟩ := endMarker_begun (settle argv g).1 hsettled
  obtain ⟨hlength, hordered, hstays⟩ := settle_ordered hnonopts hoptind
  rw [← hlength] at hordered
  obtain ⟨hlength', hordered', hstays'⟩ := endMarker_ordered hordered
  rw [hlength] at hlength' hordered'
  have hnil' := hsame'.trans (hsame.trans hnil)
  unfold nextElement
  dsimp only
  generalize endMarker (settle argv g).1 (settle argv g).2 = r
    at hmarked hlength' hordered' hstays' hnil' ⊢
  have hfrom : g.optind ≤ r.2.optind := hstays.trans hstays'
  split
  · exact ⟨hlength', fun hcode => absurd rfl hcode⟩
  · rename_i hmore
    have hlt : r.2.optind < argv.length := Nat.lt_of_le_of_ne hordered'.optind hmore
    split
    · split
      · exact ⟨hlength', fun hcode => absurd rfl hcode⟩
      · refine ⟨hlength', fun _ => ?_⟩
        exact ⟨⟨hlt, fun hne => absurd hnil' hne⟩, Or.inl (Nat.lt_succ_of_le hfrom)⟩
    · rename_i hoption
      rw [Bool.not_eq_true] at hoption
      rw [← hlength'] at hlt ⊢
      have hadvances := optionElement_advances optstring longopts hlt hnil' hoption
      refine ⟨rfl, fun _ => ?_⟩
      refine ⟨hadvances.within, hadvances.moves.imp (Nat.lt_of_le_of_lt hfrom) ?_⟩
      rintro ⟨hle, hne, -⟩
      exact ⟨hfrom.trans hle, hne, Or.inl hnil⟩

/-! ## Calls -/

/-- The bounds of the elements that are no options stay in order. -/
theorem getoptLongOnly_nonopts (posixlyCorrect : Bool) (argv : List (List Char))
    (optstring : List Char) (hval : ∀ p ∈ longopts, 0 ≤ p.val)
    (h : g.initialized = true → g.firstNonopt ≤ g.lastNonopt) :
    (getoptLongOnly posixlyCorrect argv optstring longopts g).2.vars.firstNonopt ≤
      (getoptLongOnly posixlyCorrect argv optstring longopts g).2.vars.lastNonopt := by
  have hbegun : (beginCall posixlyCorrect optstring g).firstNonopt ≤
      (beginCall posixlyCorrect optstring g).lastNonopt := by
    unfold beginCall
    split
    · exact Nat.le_refl _
    · rename_i hkept
      exact h (not_not.mp (not_or.mp hkept).2)
  unfold getoptLongOnly
  dsimp only
  split
  · have hmarker := endMarker_nonopts (settle argv (beginCall posixlyCorrect optstring g)).1
      (settle_nonopts argv hbegun)
    unfold nextElement
    dsimp only
    split
    · exact hmarker
    · split
      · split <;> exact hmarker
      · have hreads := optionElement_reads
          (endMarker (settle argv (beginCall posixlyCorrect optstring g)).1
            (settle argv (beginCall posixlyCorrect optstring g)).2).1 (optionChars optstring)
          (endMarker (settle argv (beginCall posixlyCorrect optstring g)).1
            (settle argv (beginCall posixlyCorrect optstring g)).2).2 hval
        dsimp only
        rw [hreads.firstNonopt, hreads.lastNonopt]
        exact hmarker
  · have hreads := processShortOption_reads argv (optionChars optstring)
      (beginCall posixlyCorrect optstring g) hval
    dsimp only
    rw [hreads.firstNonopt, hreads.lastNonopt]
    exact hbegun

theorem getoptLongOnly_initialized (posixlyCorrect : Bool) (argv : List (List Char))
    (optstring : List Char) (hval : ∀ p ∈ longopts, 0 ≤ p.val) (h : g.Placed) :
    (getoptLongOnly posixlyCorrect argv optstring longopts g).2.vars.initialized = true := by
  have hbegun := beginCall_begun posixlyCorrect optstring h
  unfold getoptLongOnly
  dsimp only
  split
  · obtain ⟨hsettled, -⟩ := settle_begun argv hbegun
    obtain ⟨hmarked, -⟩ :=
      endMarker_begun (settle argv (beginCall posixlyCorrect optstring g)).1 hsettled
    unfold nextElement
    dsimp only
    split
    · exact hmarked.initialized
    · split
      · split <;> exact hmarked.initialized
      · exact (optionElement_reads _ _ _ hval).initialized.trans hmarked.initialized
  · exact (processShortOption_reads _ _ _ hval).initialized.trans hbegun.initialized

theorem getoptLongOnly_kept (posixlyCorrect : Bool) (argv : List (List Char))
    (optstring : List Char) (hval : ∀ p ∈ longopts, 0 ≤ p.val) (h : g.Kept) :
    (getoptLongOnly posixlyCorrect argv optstring longopts g).2.vars.Kept := by
  refine ⟨(getoptLongOnly_placed posixlyCorrect argv optstring hval h.toPlaced).1,
    fun _ => getoptLongOnly_nonopts posixlyCorrect argv optstring hval h.nonopts, fun hoff => ?_⟩
  rw [getoptLongOnly_initialized posixlyCorrect argv optstring hval h.toPlaced] at hoff
  cases hoff

/-- A call begins with the variables as they are, or with new ones. -/
theorem beginCall_fits (posixlyCorrect : Bool) (optstring : List Char) {argc : ℕ}
    (h : g.Fits argc) :
    (beginCall posixlyCorrect optstring g).optind = g.optind ∧
      (beginCall posixlyCorrect optstring g).nextchar = g.nextchar ∧
      (beginCall posixlyCorrect optstring g).firstNonopt ≤
        (beginCall posixlyCorrect optstring g).lastNonopt := by
  have hne : g.optind ≠ 0 := Nat.one_le_iff_ne_zero.mp h.optind
  unfold beginCall
  cases hinit : g.initialized with
  | false =>
      rw [if_pos (Or.inr Bool.false_ne_true), if_neg hne]
      exact ⟨rfl, (h.fresh hinit).symm, Nat.le_refl _⟩
  | true =>
      rw [if_neg]
      · exact ⟨rfl, rfl, h.nonopts hinit⟩
      · rintro (hzero | hoff)
        · exact hne hzero
        · exact hoff rfl

/-- **A call** that finds something leaves less to be read. -/
theorem getoptLongOnly_leaves (posixlyCorrect : Bool) (argv : List (List Char))
    (optstring : List Char) (longopts : List LongOption) (h : g.Fits argv.length) :
    g.Leaves argv.length (getoptLongOnly posixlyCorrect argv optstring longopts g) := by
  have hbegun := beginCall_begun posixlyCorrect optstring h.toPlaced
  obtain ⟨hoptind, hnext, hnonopts⟩ := beginCall_fits posixlyCorrect optstring h
  -- the call goes on from what there was
  have hsame : ∀ {r : List (List Char) × Answer},
      (beginCall posixlyCorrect optstring g).Leaves argv.length r → g.Leaves argv.length r := by
    intro r hr
    refine ⟨hr.length, fun hcode => ?_⟩
    have hmoves := (hr.advances hcode).moves
    rw [hoptind, hnext] at hmoves
    exact ⟨(hr.advances hcode).within, hmoves⟩
  unfold getoptLongOnly
  dsimp only
  split
  · rename_i hnil
    rw [hnext] at hnil
    exact hsame (nextElement_leaves argv _ longopts hbegun (hnext.trans hnil) hnonopts
      (hoptind.trans_le h.within.optind))
  · rename_i hne
    have hwithin : (beginCall posixlyCorrect optstring g).Within argv.length := by
      refine ⟨hoptind.trans_le h.within.optind, fun _ => ?_⟩
      rw [hoptind]
      rw [hnext] at hne
      exact h.within.nextchar hne
    exact hsame ⟨rfl, fun _ => processShortOption_advances _ longopts hwithin hne⟩

/-- The next call can be made. -/
theorem getoptLongOnly_fits (posixlyCorrect : Bool) (argv : List (List Char))
    (optstring : List Char) (hval : ∀ p ∈ longopts, 0 ≤ p.val) (h : g.Fits argv.length)
    (hcode : (getoptLongOnly posixlyCorrect argv optstring longopts g).2.code ≠ -1) :
    (getoptLongOnly posixlyCorrect argv optstring longopts g).2.vars.Fits argv.length := by
  have hleaves := getoptLongOnly_leaves posixlyCorrect argv optstring longopts h
  exact ⟨getoptLongOnly_kept posixlyCorrect argv optstring hval h.toKept,
    (hleaves.advances hcode).within⟩

end
end KssUtil.Libc
